import Mathlib.Algebra.GroupWithZero.Nat
import Mathlib.Data.List.Basic
import Mathlib.Data.List.Infix
/-!
# Lib.Ip — internet addresses and networks, read and printed

The texts that a strict reader accepts for an address, and the one that is printed: four decimal octets, or hextets with
the longest run of zeros left out.  What is printed is read back (`parse_print`).
-/
namespace Lib.Ip

abbrev Text := List Char

/-! ## Numbers by their digits -/

/-- The last `count` digits of a number, the highest first. -/
def groups (base : Nat) : Nat → Nat → List Nat
  | 0, _ => []
  | count + 1, n => groups base count (n / base) ++ [n % base]

def ofGroups (base : Nat) (digits : List Nat) : Nat := digits.foldl (fun n d => base * n + d) 0

theorem ofGroups_concat (base : Nat) (digits : List Nat) (d : Nat) :
    ofGroups base (digits ++ [d]) = base * ofGroups base digits + d := by
  rw [ofGroups, List.foldl_append]
  rfl

theorem length_groups (base : Nat) : ∀ count n, (groups base count n).length = count
  | 0, _ => rfl
  | count + 1, n => by rw [groups, List.length_append, length_groups base count, List.length_singleton]

theorem lt_of_mem_groups {base : Nat} (hbase : 0 < base) : ∀ {count n d : Nat}, d ∈ groups base count n → d < base
  | count + 1, n, d, h => by
    rcases List.mem_append.1 h with h | h
    · exact lt_of_mem_groups hbase h
    · rw [List.mem_singleton.1 h]
      exact Nat.mod_lt n hbase

/-- **A number is read back from its digits.** -/
theorem ofGroups_groups (base : Nat) : ∀ count n, n < base ^ count → ofGroups base (groups base count n) = n
  | 0, n, h => (Nat.lt_one_iff.1 h).symm
  | count + 1, n, h => by
    have hquot : n / base < base ^ count := Nat.div_lt_of_lt_mul (by rwa [Nat.mul_comm, ← Nat.pow_succ])
    rw [groups, ofGroups_concat, ofGroups_groups base count _ hquot, Nat.div_add_mod]

/-- The value of a decimal or hexadecimal digit. -/
def digit (c : Char) : Nat :=
  if c.isDigit then c.toNat - '0'.toNat else if c.isUpper then c.toNat - 'A'.toNat + 10 else c.toNat - 'a'.toNat + 10

def numeral (base : Nat) (s : Text) : Nat := ofGroups base (s.map digit)

def isHexDigit (c : Char) : Bool := c.isDigit || ('a' ≤ c && c ≤ 'f') || ('A' ≤ c && c ≤ 'F')

theorem digit_digitChar : ∀ n < 16, digit (Nat.digitChar n) = n ∧ isHexDigit (Nat.digitChar n) = true := by decide

/-- **A number is read back from its numeral.** -/
theorem numeral_toDigits {base : Nat} (hbase : 1 < base) (hle : base ≤ 16) (n : Nat) :
    numeral base (Nat.toDigits base n) = n ∧ ∀ c ∈ Nat.toDigits base n, isHexDigit c = true := by
  induction n using Nat.strongRecOn with
  | _ n ih =>
    rcases Nat.lt_or_ge n base with hlt | hge
    · have hdigit := digit_digitChar n (Nat.lt_of_lt_of_le hlt hle)
      rw [Nat.toDigits_of_lt_base hlt]
      refine ⟨?_, fun c hc => by rw [List.mem_singleton.1 hc]; exact hdigit.2⟩
      rw [numeral, List.map_singleton, hdigit.1]
      exact Nat.zero_add n
    · have hmod := digit_digitChar (n % base) (Nat.lt_of_lt_of_le (Nat.mod_lt n (by omega)) hle)
      obtain ⟨hvalue, hchars⟩ := ih (n / base) (Nat.div_lt_self (by omega) hbase)
      rw [Nat.toDigits_of_base_le hbase hge]
      constructor
      · rw [numeral] at hvalue ⊢
        rw [List.map_append, List.map_singleton, ofGroups_concat, hvalue, hmod.1, Nat.div_add_mod]
      · intro c hc
        rcases List.mem_append.1 hc with hc | hc
        · exact hchars c hc
        · rw [List.mem_singleton.1 hc]
          exact hmod.2

/-! ## Four octets -/

def parseOctet (s : Text) : Option Nat :=
  if s ≠ [] ∧ s.all Char.isDigit ∧ s.length ≤ 3 ∧ (s = ['0'] ∨ s.head? ≠ some '0') ∧ numeral 10 s ≤ 255 then
    some (numeral 10 s)
  else none

def parseV4 (s : Text) : Option Nat := do
  let octets := s.splitOn '.'
  guard (octets.length = 4)
  return ofGroups 256 (← octets.mapM parseOctet)

def printV4 (n : Nat) : Text := ['.'].intercalate ((groups 256 4 n).map (Nat.toDigits 10))

/-! ## Eight hextets -/

def parseHextet (s : Text) : Option Nat :=
  if s ≠ [] ∧ s.all isHexDigit ∧ s.length ≤ 4 then some (numeral 16 s) else none

/-- An address that ends in four octets has two hextets there. -/
def expandSuffix (parts : List Text) : Option (List Text) :=
  let last := parts.getLastD []
  if last.contains '.' then (parseV4 last).map fun n => parts.dropLast ++ (groups 65536 2 n).map (Nat.toDigits 16)
  else some parts

/-- The hextets around `::`; an empty part at an end only belongs to it. -/
def parseHextets (parts : List Text) : Option (List Nat) :=
  let inner := (parts.drop 1).dropLast
  if inner.count [] = 0 then do
    guard (parts.length = 8)
    parts.mapM parseHextet
  else do
    guard (inner.count [] = 1)
    let skip := inner.idxOf [] + 1
    let hi := parts.take skip
    let lo := parts.drop (skip + 1)
    guard (hi.head? = some [] → hi.length = 1)
    guard (lo.getLast? = some [] → lo.length = 1)
    let hi := if hi.head? = some [] then [] else hi
    let lo := if lo.getLast? = some [] then [] else lo
    guard (hi.length + lo.length < 8)
    return (← hi.mapM parseHextet) ++ List.replicate (8 - (hi.length + lo.length)) 0 ++ (← lo.mapM parseHextet)

def parseV6 (s : Text) : Option Nat := do
  let parts := s.splitOn ':'
  guard (3 ≤ parts.length)
  let parts ← expandSuffix parts
  guard (parts.length ≤ 9)
  return ofGroups 65536 (← parseHextets parts)

/-- The longest run of zeros, the first of them: where it starts and how long it is. -/
def zeroRun : (index bestStart bestLen start len : Nat) → List Text → Nat × Nat
  | _, bestStart, bestLen, _, _, [] => (bestStart, bestLen)
  | index, bestStart, bestLen, start, len, hextet :: hextets =>
    if hextet = ['0'] then
      let start := if len = 0 then index else start
      if bestLen < len + 1 then zeroRun (index + 1) start (len + 1) start (len + 1) hextets
      else zeroRun (index + 1) bestStart bestLen start (len + 1) hextets
    else zeroRun (index + 1) bestStart bestLen 0 0 hextets

def compress (hextets : List Text) : List Text :=
  let (start, len) := zeroRun 0 0 0 0 0 hextets
  if 1 < len then
    (if start = 0 then [[]] else []) ++ hextets.take start ++ [[]] ++ hextets.drop (start + len) ++
      (if start + len = hextets.length then [[]] else [])
  else hextets

def printV6 (n : Nat) : Text := [':'].intercalate (compress ((groups 65536 8 n).map (Nat.toDigits 16)))

/-! ## Addresses -/

/-- The scope of a link-local address. -/
abbrev Scope := {s : Text // s ≠ [] ∧ '%' ∉ s ∧ '/' ∉ s}

inductive Address where
  | v4 (n : Fin (2 ^ 32))
  | v6 (n : Fin (2 ^ 128)) (scope : Option Scope)
  deriving DecidableEq

instance neZeroV4 : NeZero (2 ^ 32) := ⟨by decide⟩
instance neZeroV6 : NeZero (2 ^ 128) := ⟨by decide⟩

/-- The address and the scope around `%`. -/
def parseScope (s : Text) : Option (Text × Option Scope) :=
  match s.splitOn '%' with
  | [address] => some (address, none)
  | [address, scope] => if h : scope ≠ [] ∧ '%' ∉ scope ∧ '/' ∉ scope then some (address, some ⟨scope, h⟩) else none
  | _ => none

/-- An address in one of its texts. -/
def parse (s : Text) : Option Address :=
  if s.contains '/' then none
  else match parseV4 s with
    | some n => some (.v4 (Fin.ofNat _ n))
    | none => do
      let (address, scope) ← parseScope s
      return .v6 (Fin.ofNat _ (← parseV6 address)) scope

def Address.print : Address → Text
  | .v4 n => printV4 n
  | .v6 n none => printV6 n
  | .v6 n (some scope) => printV6 n ++ '%' :: scope.1

/-! ## Networks -/

/-- The addresses that have the first `length` bits of an address. -/
inductive Network where
  | v4 (address : Fin (2 ^ 32)) (length : Nat)
  | v6 (address : Fin (2 ^ 128)) (length : Nat)

def netmask (bits length : Nat) : Nat := 2 ^ bits - 2 ^ (bits - length)

def Network.contains : Network → Address → Bool
  | .v4 network length, .v4 n => n.val &&& netmask 32 length == network.val &&& netmask 32 length
  | .v6 network length, .v6 n _ => n.val &&& netmask 128 length == network.val &&& netmask 128 length
  | _, _ => false

/-- A length in decimal. -/
def parseLength (bits : Nat) (s : Text) : Option Nat :=
  if s ≠ [] ∧ s.all Char.isDigit ∧ numeral 10 s ≤ bits then some (numeral 10 s) else none

/-- A length as a netmask or a hostmask. -/
def lengthOfMask (s : Text) : Option Nat := do
  let n ← parseV4 s
  ((List.range 33).find? fun length => netmask 32 length = n).or
    ((List.range 33).find? fun length => netmask 32 length = 2 ^ 32 - 1 - n)

/-- A network: an address, with a length after `/` or of all bits. -/
def parseNetwork (s : Text) : Option Network := do
  let parts := s.splitOn '/'
  guard (parts.length ≤ 2)
  let address := parts.headD []
  match parseV4 address, parts[1]? with
  | some n, none => return .v4 (Fin.ofNat _ n) 32
  | some n, some mask => return .v4 (Fin.ofNat _ n) (← (parseLength 32 mask).or (lengthOfMask mask))
  | none, mask =>
    let (address, _) ← parseScope address
    let length ← match mask with
      | none => some 128
      | some mask => parseLength 128 mask
    return .v6 (Fin.ofNat _ (← parseV6 address)) length

/-! ## What is printed is read -/

theorem mapM_some {α β : Type} {f : α → Option β} {g : α → β} : ∀ {l : List α}, (∀ x ∈ l, f x = some (g x)) →
    l.mapM f = some (l.map g)
  | [], _ => rfl
  | x :: l, h => by
    obtain ⟨hx, hl⟩ := List.forall_mem_cons.1 h
    rw [List.mapM_cons, hx, mapM_some hl]
    rfl

theorem isSome_of_mapM {α β : Type} {f : α → Option β} : ∀ {l : List α} {ys : List β}, l.mapM f = some ys →
    ∀ x ∈ l, (f x).isSome = true
  | [], _, _ => by simp
  | x :: l, ys, h => by
    rw [List.mapM_cons] at h
    obtain ⟨y, hy, h⟩ := Option.bind_eq_some_iff.1 h
    obtain ⟨zs, hzs, -⟩ := Option.bind_eq_some_iff.1 h
    exact List.forall_mem_cons.2 ⟨by rw [hy]; rfl, isSome_of_mapM hzs⟩

theorem mem_intercalate {sep c : Char} : ∀ {parts : List Text}, c ∈ [sep].intercalate parts → c = sep ∨ ∃ s ∈ parts, c ∈ s
  | [], h => by cases h
  | [s], h => by
    rw [List.intercalate_singleton] at h
    exact .inr ⟨s, List.mem_singleton_self s, h⟩
  | s :: t :: parts, h => by
    rw [List.intercalate_cons_cons, List.append_assoc, List.mem_append, List.mem_append, List.mem_singleton] at h
    rcases h with h | h | h
    · exact .inr ⟨s, List.mem_cons_self, h⟩
    · exact .inl h
    · exact (mem_intercalate h).imp_right fun ⟨u, hu, hc⟩ => ⟨u, List.mem_cons_of_mem _ hu, hc⟩

theorem isDigit_of_parseOctet {s : Text} (h : (parseOctet s).isSome = true) : ∀ c ∈ s, c.isDigit = true := by
  unfold parseOctet at h
  split at h
  · rename_i hoctet
    exact List.all_eq_true.1 hoctet.2.1
  · cases h

theorem isDigit_of_parseV4 {s : Text} {n : Nat} (h : parseV4 s = some n) : ∀ c ∈ s, c = '.' ∨ c.isDigit = true := by
  intro c hc
  obtain ⟨-, -, h⟩ := Option.bind_eq_some_iff.1 h
  obtain ⟨octets, hoctets, -⟩ := Option.bind_eq_some_iff.1 h
  have hc : c ∈ ['.'].intercalate (s.splitOn '.') := by rwa [List.intercalate_splitOn]
  refine (mem_intercalate hc).imp_right fun ⟨part, hpart, hmem⟩ => ?_
  exact isDigit_of_parseOctet (isSome_of_mapM hoctets part hpart) c hmem

theorem parseOctet_toDigits : ∀ n < 256, parseOctet (Nat.toDigits 10 n) = some n := by decide +kernel

theorem parseV4_printV4 {n : Nat} (h : n < 2 ^ 32) : parseV4 (printV4 n) = some n := by
  have hdot : ∀ s ∈ (groups 256 4 n).map (Nat.toDigits 10), '.' ∉ s := by
    intro s hs hc
    obtain ⟨d, -, rfl⟩ := List.mem_map.1 hs
    exact absurd (Nat.isDigit_of_mem_toDigits (by decide) (by decide) hc) (by decide)
  have hread : ∀ s ∈ (groups 256 4 n).map (Nat.toDigits 10), parseOctet s = some (numeral 10 s) := by
    intro s hs
    obtain ⟨d, hd, rfl⟩ := List.mem_map.1 hs
    rw [parseOctet_toDigits d (lt_of_mem_groups (by decide) hd), (numeral_toDigits (by decide) (by decide) d).1]
  have hvalues : ((groups 256 4 n).map (Nat.toDigits 10)).map (numeral 10) = groups 256 4 n := by
    rw [List.map_map]
    exact List.map_id'' (fun d => (numeral_toDigits (by decide) (by decide) d).1) _
  have hlength : ((groups 256 4 n).map (Nat.toDigits 10)).length = 4 := by rw [List.length_map, length_groups]
  unfold parseV4 printV4
  dsimp only
  rw [List.splitOn_intercalate '.' hdot (List.ne_nil_of_length_pos (by omega)), hlength, mapM_some hread, hvalues]
  simp only [guard, if_true, Option.bind_eq_bind, Option.pure_def, Option.bind_some]
  rw [ofGroups_groups 256 4 n h]

/-- What is left out is a run of at least two zeros. -/
theorem zeroRun_spec : ∀ (rest before : List Text) (bestStart bestLen start len : Nat),
    (∃ a b, before = a ++ List.replicate bestLen ['0'] ++ b ∧ a.length = bestStart) →
    (∃ a, before = a ++ List.replicate len ['0'] ∧ (0 < len → a.length = start)) →
    ∃ a b, before ++ rest = a ++ List.replicate (zeroRun before.length bestStart bestLen start len rest).2 ['0'] ++ b ∧
      a.length = (zeroRun before.length bestStart bestLen start len rest).1
  | [], before, _, _, _, _, hbest, _ => by
    rw [List.append_nil]
    exact hbest
  | hextet :: rest, before, bestStart, bestLen, start, len, hbest, hrun => by
    have hsucc : before.length + 1 = (before ++ [hextet]).length := by rw [List.length_append, List.length_singleton]
    have hbest' : ∃ a b, before ++ [hextet] = a ++ List.replicate bestLen ['0'] ++ b ∧ a.length = bestStart := by
      obtain ⟨a, b, rfl, ha⟩ := hbest
      exact ⟨a, b ++ [hextet], List.append_assoc _ _ _, ha⟩
    rw [List.append_cons, zeroRun, hsucc]
    split
    · rename_i hzero
      have hrun' : ∃ a, before ++ [hextet] = a ++ List.replicate (len + 1) ['0'] ∧
          a.length = if len = 0 then before.length else start := by
        obtain ⟨a, rfl, ha⟩ := hrun
        refine ⟨a, by rw [hzero, List.append_assoc, List.replicate_succ'], ?_⟩
        split
        · rename_i hlen
          rw [hlen]
          simp
        · exact ha (by omega)
      dsimp only
      split
      · obtain ⟨a, hbefore, ha⟩ := hrun'
        exact zeroRun_spec rest _ _ _ _ _ ⟨a, [], by rw [hbefore, List.append_nil], ha⟩ ⟨a, hbefore, fun _ => ha⟩
      · obtain ⟨a, hbefore, ha⟩ := hrun'
        exact zeroRun_spec rest _ _ _ _ _ hbest' ⟨a, hbefore, fun _ => ha⟩
    · exact zeroRun_spec rest _ _ _ _ _ hbest' ⟨before ++ [hextet], by simp, fun h => absurd h (lt_irrefl _)⟩

/-- The text of hextets is all of them, or those around `::`. -/
theorem compress_eq (hextets : List Text) : compress hextets = hextets ∨ ∃ a len b,
    hextets = a ++ List.replicate len ['0'] ++ b ∧ 1 < len ∧
      compress hextets = (if a = [] then [[]] else a) ++ [] :: (if b = [] then [[]] else b) := by
  obtain ⟨a, b, hsplit, hstart⟩ := zeroRun_spec hextets [] 0 0 0 0 ⟨[], [], rfl, rfl⟩ ⟨[], rfl, fun h => absurd h (lt_irrefl _)⟩
  unfold compress
  rw [List.nil_append, List.length_nil] at hsplit
  rw [List.length_nil] at hstart
  generalize zeroRun 0 0 0 0 0 hextets = run at hsplit hstart ⊢
  obtain ⟨start, len⟩ := run
  dsimp only at hsplit hstart ⊢
  split
  · rename_i hlen
    refine .inr ⟨a, len, b, hsplit, hlen, ?_⟩
    have htake : hextets.take start = a := by rw [hsplit, ← hstart, List.append_assoc, List.take_left]
    have hdrop : hextets.drop (start + len) = b := by
      rw [hsplit, ← hstart]
      exact List.drop_left' (by rw [List.length_append, List.length_replicate])
    have hlength : hextets.length = start + len + b.length := by
      rw [hsplit, ← hstart, List.length_append, List.length_append, List.length_replicate]
    have hstart0 : start = 0 ↔ a = [] := by rw [← hstart, List.length_eq_zero_iff]
    have hend : start + len = hextets.length ↔ b = [] := by
      rw [hlength, ← List.length_eq_zero_iff]
      omega
    rw [htake, hdrop, if_congr hstart0 rfl rfl, if_congr hend rfl rfl]
    cases a <;> cases b <;> simp
  · exact .inl rfl

/-! ### Hextets -/

theorem parseHextet_toDigits {n : Nat} (h : n < 65536) : parseHextet (Nat.toDigits 16 n) = some n := by
  have hread : numeral 16 (Nat.toDigits 16 n) = n ∧ ∀ c ∈ Nat.toDigits 16 n, isHexDigit c = true :=
    numeral_toDigits (by decide) (by decide) n
  have hlength : (Nat.toDigits 16 n).length ≤ 4 := (Nat.length_toDigits_le_iff (by decide) (by decide)).2 h
  unfold parseHextet
  rw [if_pos ⟨Nat.toDigits_ne_nil, List.all_eq_true.2 hread.2, hlength⟩, hread.1]

/-- **The hextets around `::`** and the zeros between them. -/
theorem parseHextets_skip {a b : List Text} (ha : ∀ s ∈ a, s ≠ []) (hb : ∀ s ∈ b, s ≠ []) (hlength : a.length + b.length < 8)
    (hread : ∀ s ∈ a ++ b, parseHextet s = some (numeral 16 s)) :
    parseHextets ((if a = [] then [[]] else a) ++ [] :: (if b = [] then [[]] else b)) =
      some (a.map (numeral 16) ++ List.replicate (8 - (a.length + b.length)) 0 ++ b.map (numeral 16)) := by
  obtain ⟨hi, hhi⟩ : ∃ hi : List Text, hi = if a = [] then [[]] else a := ⟨_, rfl⟩
  obtain ⟨lo, hlo⟩ : ∃ lo : List Text, lo = if b = [] then [[]] else b := ⟨_, rfl⟩
  rw [← hhi, ← hlo]
  have hhi' : ∃ x xs, hi = x :: xs ∧ [] ∉ xs ∧ (x = [] ↔ a = []) ∧ (a = [] → xs = []) := by
    cases a with
    | nil => exact ⟨[], [], hhi, List.not_mem_nil, by simp, fun _ => rfl⟩
    | cons x xs =>
      refine ⟨x, xs, hhi, fun h => ha [] (List.mem_cons_of_mem _ h) rfl, ?_, fun h => absurd h (List.cons_ne_nil x xs)⟩
      exact iff_of_false (ha x List.mem_cons_self) (List.cons_ne_nil x xs)
  have hlo' : ∃ ys y, lo = ys ++ [y] ∧ [] ∉ ys ∧ (y = [] ↔ b = []) ∧ (b = [] → ys = []) := by
    rcases List.eq_nil_or_concat' b with rfl | ⟨ys, y, rfl⟩
    · exact ⟨[], [], hlo, List.not_mem_nil, by simp, fun _ => rfl⟩
    · have hne : ys ++ [y] ≠ [] := List.concat_ne_nil y ys
      rw [if_neg hne] at hlo
      refine ⟨ys, y, hlo, fun h => hb [] (List.mem_append_left _ h) rfl, ?_, fun h => absurd h hne⟩
      exact iff_of_false (hb y (List.mem_append_right _ (List.mem_singleton_self y))) hne
  obtain ⟨x, xs, rfl, hxs, hx, hxnil⟩ := hhi'
  obtain ⟨ys, y, rfl, hys, hy, hynil⟩ := hlo'
  have hinner : ((x :: xs ++ [] :: (ys ++ [y])).drop 1).dropLast = xs ++ [] :: ys := by
    rw [List.cons_append, List.drop_succ_cons, List.drop_zero, ← List.cons_append, ← List.append_assoc, List.dropLast_concat]
  have hcount : (xs ++ [] :: ys).count [] = 1 := by
    rw [List.count_append, List.count_cons_self, List.count_eq_zero.2 hxs, List.count_eq_zero.2 hys]
  have hskip : (xs ++ [] :: ys).idxOf [] = xs.length := by
    rw [List.idxOf_append_of_notMem hxs, List.idxOf_cons_self, Nat.add_zero]
  have htake : (x :: xs ++ [] :: (ys ++ [y])).take (xs.length + 1) = x :: xs := List.take_left' rfl
  have hdrop : (x :: xs ++ [] :: (ys ++ [y])).drop (xs.length + 1 + 1) = ys ++ [y] := by
    rw [List.cons_append, List.drop_succ_cons, ← List.drop_drop, List.drop_left, List.drop_succ_cons, List.drop_zero]
  have hhead : (x :: xs).head? = some [] ↔ a = [] := by rw [List.head?_cons, Option.some.injEq, hx]
  have hlast : (ys ++ [y]).getLast? = some [] ↔ b = [] := by rw [List.getLast?_concat, Option.some.injEq, hy]
  have hhi' : (if (x :: xs).head? = some [] then [] else x :: xs) = a := by
    rw [if_congr hhead rfl rfl, hhi]
    split
    · rename_i h
      exact h.symm
    · rfl
  have hlo' : (if (ys ++ [y]).getLast? = some [] then [] else ys ++ [y]) = b := by
    rw [if_congr hlast rfl rfl, hlo]
    split
    · rename_i h
      exact h.symm
    · rfl
  have hone : (x :: xs).head? = some [] → (x :: xs).length = 1 := fun h => by rw [hxnil (hhead.1 h)]; rfl
  have hone' : (ys ++ [y]).getLast? = some [] → (ys ++ [y]).length = 1 := fun h => by rw [hynil (hlast.1 h)]; rfl
  have hreadA := mapM_some fun s hs => hread s (List.mem_append_left b hs)
  have hreadB := mapM_some fun s hs => hread s (List.mem_append_right a hs)
  unfold parseHextets
  dsimp only
  rw [hinner, hcount, hskip, htake, hdrop, hhi', hlo', if_neg (by decide)]
  simp only [guard, if_true, if_pos hone, if_pos hone', if_pos hlength, Option.pure_def, Option.bind_eq_bind, Option.bind_some]
  rw [hreadA, hreadB]
  rfl

theorem parseHextets_all {hextets : List Text} (hlength : hextets.length = 8) (hne : ∀ s ∈ hextets, s ≠ [])
    (hread : ∀ s ∈ hextets, parseHextet s = some (numeral 16 s)) : parseHextets hextets = some (hextets.map (numeral 16)) := by
  have hcount : ((hextets.drop 1).dropLast).count [] = 0 := List.count_eq_zero.2 fun h =>
    hne [] (List.mem_of_mem_drop (List.mem_of_mem_dropLast h)) rfl
  unfold parseHextets
  dsimp only
  rw [if_pos hcount, hlength, mapM_some hread]
  rfl

/-- The hextets of a number. -/
def hextetsOf (n : Nat) : List Text := (groups 65536 8 n).map (Nat.toDigits 16)

theorem hextetsOf_spec (n : Nat) : (hextetsOf n).length = 8 ∧ (hextetsOf n).map (numeral 16) = groups 65536 8 n ∧
    ∀ s ∈ hextetsOf n, s ≠ [] ∧ parseHextet s = some (numeral 16 s) ∧ ∀ c ∈ s, isHexDigit c = true := by
  have hnumeral : ∀ d, numeral 16 (Nat.toDigits 16 d) = d ∧ ∀ c ∈ Nat.toDigits 16 d, isHexDigit c = true :=
    numeral_toDigits (by decide) (by decide)
  refine ⟨by rw [hextetsOf, List.length_map, length_groups], ?_, fun s hs => ?_⟩
  · rw [hextetsOf, List.map_map]
    exact List.map_id'' (fun d => (hnumeral d).1) _
  · obtain ⟨d, hd, rfl⟩ := List.mem_map.1 hs
    refine ⟨Nat.toDigits_ne_nil, ?_, (hnumeral d).2⟩
    rw [parseHextet_toDigits (lt_of_mem_groups (by decide) hd), (hnumeral d).1]

/-- The parts of a printed address, and what they are read as. -/
theorem compress_spec {n : Nat} (h : n < 2 ^ 128) :
    3 ≤ (compress (hextetsOf n)).length ∧ (compress (hextetsOf n)).length ≤ 9 ∧
      (∀ s ∈ compress (hextetsOf n), ∀ c ∈ s, isHexDigit c = true) ∧
      (parseHextets (compress (hextetsOf n))).map (ofGroups 65536) = some n := by
  obtain ⟨hlength, hvalues, hall⟩ := hextetsOf_spec n
  have hvalue : ofGroups 65536 ((hextetsOf n).map (numeral 16)) = n := by
    rw [hvalues]
    exact ofGroups_groups 65536 8 n h
  generalize hextetsOf n = hextets at hlength hall hvalue ⊢
  rcases compress_eq hextets with heq | ⟨a, len, b, rfl, hlen, heq⟩
  · rw [heq, parseHextets_all hlength (fun s hs => (hall s hs).1) (fun s hs => (hall s hs).2.1), Option.map_some, hvalue]
    exact ⟨by omega, by omega, fun s hs => (hall s hs).2.2, rfl⟩
  · have hmem : ∀ s ∈ a ++ b, s ∈ a ++ List.replicate len ['0'] ++ b := by
      intro s hs
      rcases List.mem_append.1 hs with hs | hs
      · exact List.mem_append_left _ (List.mem_append_left _ hs)
      · exact List.mem_append_right _ hs
    rw [List.length_append, List.length_append, List.length_replicate] at hlength
    have hskip := parseHextets_skip (fun s hs => (hall s (hmem s (List.mem_append_left _ hs))).1)
      (fun s hs => (hall s (hmem s (List.mem_append_right _ hs))).1) (by omega) fun s hs => (hall s (hmem s hs)).2.1
    have hzeros : 8 - (a.length + b.length) = len := by omega
    have hzero : numeral 16 ['0'] = 0 := rfl
    rw [List.map_append, List.map_append, List.map_replicate, hzero] at hvalue
    rw [heq, hskip, hzeros, Option.map_some, hvalue]
    refine ⟨?_, ?_, ?_, rfl⟩
    · rw [List.length_append, List.length_cons]
      cases a <;> cases b <;> simp <;> omega
    · rw [List.length_append, List.length_cons]
      cases a <;> cases b <;> simp at hlength ⊢ <;> omega
    · intro s hs c hc
      have hs' : s = [] ∨ s ∈ a ++ b := by
        rcases List.mem_append.1 hs with hs | hs
        · split at hs
          · exact .inl (List.mem_singleton.1 hs)
          · exact .inr (List.mem_append_left _ hs)
        · rcases List.mem_cons.1 hs with hs | hs
          · exact .inl hs
          · split at hs
            · exact .inl (List.mem_singleton.1 hs)
            · exact .inr (List.mem_append_right _ hs)
      rcases hs' with rfl | hs'
      · cases hc
      · exact (hall s (hmem s hs')).2.2 c hc

theorem parseV6_printV6 {n : Nat} (h : n < 2 ^ 128) : parseV6 (printV6 n) = some n := by
  obtain ⟨hmin, hmax, hchars, hread⟩ := compress_spec h
  have hcolon : ∀ s ∈ compress (hextetsOf n), ':' ∉ s := fun s hs hc => absurd (hchars s hs _ hc) (by decide)
  have hsplit : (printV6 n).splitOn ':' = compress (hextetsOf n) :=
    List.splitOn_intercalate ':' hcolon (List.ne_nil_of_length_pos (Nat.lt_of_lt_of_le (by decide) hmin))
  have hsuffix : expandSuffix (compress (hextetsOf n)) = some (compress (hextetsOf n)) := by
    have hdot : '.' ∉ (compress (hextetsOf n)).getLastD [] := by
      rw [List.getLastD_eq_getLast?]
      cases hlast : (compress (hextetsOf n)).getLast? with
      | none => exact List.not_mem_nil
      | some s => exact fun hc => absurd (hchars s (List.mem_of_getLast? hlast) _ hc) (by decide)
    unfold expandSuffix
    dsimp only
    rw [if_neg fun hc => hdot (List.contains_iff_mem.1 hc)]
  unfold parseV6
  dsimp only
  rw [hsplit, hsuffix]
  obtain ⟨hextets, hparse, hvalue⟩ := Option.map_eq_some_iff.1 hread
  simp only [guard, if_pos hmin, if_pos hmax, Option.pure_def, Option.bind_eq_bind, Option.bind_some]
  rw [hparse, Option.bind_some, hvalue]

theorem mem_printV6 {n : Nat} (h : n < 2 ^ 128) : ':' ∈ printV6 n ∧ ∀ c ∈ printV6 n, c = ':' ∨ isHexDigit c = true := by
  obtain ⟨hmin, -, hchars, -⟩ := compress_spec h
  unfold printV6
  rw [← hextetsOf]
  constructor
  · match compress (hextetsOf n), hmin with
    | s :: t :: parts, _ =>
      rw [List.intercalate_cons_cons]
      exact List.mem_append_left _ (List.mem_append_right _ (List.mem_singleton_self _))
  · exact fun c hc => (mem_intercalate hc).imp_right fun ⟨s, hs, hmem⟩ => hchars s hs c hmem

/-- An address of hextets is no address of octets. -/
theorem parseV4_of_colon {s : Text} (h : ':' ∈ s) : parseV4 s = none := by
  by_contra hsome
  obtain ⟨n, hn⟩ := Option.ne_none_iff_exists'.1 hsome
  exact absurd (isDigit_of_parseV4 hn _ h) (by decide)

theorem ofNat_val {k : Nat} [NeZero k] (n : Fin k) : Fin.ofNat k n.val = n := Fin.ext (Nat.mod_eq_of_lt n.isLt)

/-- **What is printed is read back.** -/
theorem parse_print (a : Address) : parse a.print = some a := by
  match a with
  | .v4 n =>
    have hread := parseV4_printV4 n.isLt
    have hslash : ¬ (printV4 n).contains '/' = true := fun hc =>
      absurd (isDigit_of_parseV4 hread _ (List.contains_iff_mem.1 hc)) (by decide)
    rw [Address.print, parse, if_neg hslash, hread]
    dsimp only
    rw [ofNat_val]
  | .v6 n none =>
    obtain ⟨hcolon, hchars⟩ := mem_printV6 n.isLt
    have hslash : ¬ (printV6 n).contains '/' = true := fun hc =>
      absurd (hchars _ (List.contains_iff_mem.1 hc)) (by decide)
    have hpercent : '%' ∉ printV6 n := fun hc => absurd (hchars _ hc) (by decide)
    have hscope : parseScope (printV6 n) = some (printV6 n, none) := by
      unfold parseScope
      rw [List.splitOn_eq_singleton hpercent]
    rw [Address.print, parse, if_neg hslash, parseV4_of_colon hcolon]
    dsimp only [Option.bind_eq_bind]
    rw [hscope, Option.bind_some, parseV6_printV6 n.isLt]
    exact congrArg (fun m => some (Address.v6 m none)) (ofNat_val n)
  | .v6 n (some scope) =>
    obtain ⟨hcolon, hchars⟩ := mem_printV6 n.isLt
    have hslash : ¬ (printV6 n ++ '%' :: scope.1).contains '/' = true := fun hc => by
      rcases List.mem_append.1 (List.contains_iff_mem.1 hc) with hc | hc
      · exact absurd (hchars _ hc) (by decide)
      · rcases List.mem_cons.1 hc with hc | hc
        · cases hc
        · exact scope.2.2.2 hc
    have hpercent : '%' ∉ printV6 n := fun hc => absurd (hchars _ hc) (by decide)
    have hscope : parseScope (printV6 n ++ '%' :: scope.1) = some (printV6 n, some scope) := by
      unfold parseScope
      rw [List.splitOn_append_cons_self_of_not_mem hpercent, List.splitOn_eq_singleton scope.2.2.1]
      dsimp only
      rw [dif_pos scope.2]
    rw [Address.print, parse, if_neg hslash, parseV4_of_colon (List.mem_append_left _ hcolon)]
    dsimp only [Option.bind_eq_bind]
    rw [hscope, Option.bind_some, parseV6_printV6 n.isLt]
    exact congrArg (fun m => some (Address.v6 m (some scope))) (ofNat_val n)

end Lib.Ip
