import RepoWatch.Lib.Utf8
import RepoWatch.Narinfo
/-!
# Auth — the administrator's password

The hash of a password is a text that names its algorithm, iterations and salt, so that a check needs nothing else.  A hash
verifies with the passwords of the same derived key and with no others (`verifyPassword_hashPassword`), and what is not
such a text verifies with none.
-/
namespace RepoWatch

open Lib Lib.Utf8

/-- `pbkdf2_hmac("sha256", password, salt, iterations)`. -/
abbrev Pbkdf2 := Bytes → Bytes → Nat → Bytes

def algorithm : Str := "pbkdf2_sha256".toList

/-- `hash_password`, with its salt. -/
def hashPassword (pbkdf2 : Pbkdf2) (salt : Bytes) (password : Str) (iterations : Nat) : Str :=
  algorithm ++ '$' :: Nat.toDigits 10 iterations ++ '$' :: hex salt ++ '$' :: hex (pbkdf2 (utf8Bytes password) salt iterations)

/-- The value of a hexadecimal digit of either case. -/
def hexValue (c : Char) : Option Nat :=
  if c.isDigit then some (c.toNat - '0'.toNat)
  else if 'a' ≤ c ∧ c ≤ 'f' then some (c.toNat - 'a'.toNat + 10)
  else if 'A' ≤ c ∧ c ≤ 'F' then some (c.toNat - 'A'.toNat + 10)
  else none

/-- The blanks between the bytes of `bytes.fromhex`. -/
def isHexBlank (c : Char) : Bool := c = ' ' || decide (9 ≤ c.toNat ∧ c.toNat ≤ 13)

/-- `bytes.fromhex`; `none` is its `ValueError`. -/
def fromHex : Str → Option Bytes
  | [] => some []
  | [c] => if isHexBlank c then some [] else none
  | c :: d :: s =>
    if isHexBlank c then fromHex (d :: s)
    else match hexValue c, hexValue d with
      | some m, some n => (fromHex s).map (UInt8.ofNat (16 * m + n) :: ·)
      | _, _ => none

/-- What a stored hash says: the iterations, the salt and the derived key. -/
def parseHash (storedHash : Str) : Option (Int × Bytes × Bytes) :=
  match storedHash.splitOn '$' with
  | [name, iterations, salt, digest] =>
    if name ≠ algorithm then none
    else match pyInt iterations, fromHex salt, fromHex digest with
      | .ok iterations, some salt, some expected => some (iterations, salt, expected)
      | _, _, _ => none
  | _ => none

/-- `verify_password`. -/
def verifyPassword (pbkdf2 : Pbkdf2) (password storedHash : Str) : Bool :=
  match parseHash storedHash with
  | none => false
  | some (iterations, salt, expected) =>
    if ¬ (1 ≤ iterations ∧ iterations ≤ 10000000) ∨ salt = [] ∨ expected.length ≠ 32 then false
    else pbkdf2 (utf8Bytes password) salt iterations.toNat = expected

/-! ## Texts read back -/

theorem hexValue_getD : ∀ n < 16, hexValue (hexDigits.getD n '0') = some n ∧ isHexBlank (hexDigits.getD n '0') = false := by
  decide

theorem fromHex_hex : ∀ bs : Bytes, fromHex (hex bs) = some bs
  | [] => rfl
  | b :: bs => by
    have hhigh := hexValue_getD (b.toNat / 16) (by have := b.toNat_lt; omega)
    have hlow := hexValue_getD (b.toNat % 16) (Nat.mod_lt _ (by decide))
    have hbyte : UInt8.ofNat (16 * (b.toNat / 16) + b.toNat % 16) = b := by
      rw [Nat.div_add_mod]
      exact UInt8.ofNat_toNat
    have hcons : hex (b :: bs) = hexDigits.getD (b.toNat / 16) '0' :: hexDigits.getD (b.toNat % 16) '0' :: hex bs := by
      simp [hex]
    rw [hcons, fromHex, hhigh.2, if_neg Bool.false_ne_true, hhigh.1, hlow.1]
    dsimp only
    rw [fromHex_hex bs, hbyte]
    rfl

theorem digitValue_digitChar : ∀ d < 10, digitValue (Nat.digitChar d) = some d := by decide

theorem digits_toDigits (n : Nat) :
    ∃ ds : List Nat, (Nat.toDigits 10 n).mapM digitValue = some ds ∧ ds.length = (Nat.toDigits 10 n).length ∧
      ds.foldl (fun n d => 10 * n + d) 0 = n := by
  induction n using Nat.strong_induction_on with
  | _ n ih =>
    by_cases hlt : n < 10
    · refine ⟨[n], ?_, ?_, ?_⟩
      · rw [Nat.toDigits_of_lt_base hlt]
        simp [digitValue_digitChar n hlt]
      · rw [Nat.toDigits_of_lt_base hlt]
        rfl
      · simp
    · obtain ⟨ds, hds, hlength, hvalue⟩ := ih (n / 10) (by omega)
      have hmod := digitValue_digitChar (n % 10) (Nat.mod_lt _ (by decide))
      rw [Nat.toDigits_of_base_le (by decide) (by omega)]
      refine ⟨ds ++ [n % 10], ?_, ?_, ?_⟩
      · rw [List.mapM_append, hds]
        simp [hmod]
      · simp [hlength]
      · rw [List.foldl_append, hvalue]
        exact Nat.div_add_mod n 10

theorem not_mem_toDigits {c : Char} (h : c.isDigit = false) (n : Nat) : c ∉ Nat.toDigits 10 n := by
  intro hc
  rw [Nat.isDigit_of_mem_toDigits (by decide) (by decide) hc] at h
  cases h

theorem isIntSpace_of_isDigit {c : Char} (h : c.isDigit = true) : isIntSpace c = false := by
  have hascii : c.toNat < 128 := by
    have hdigit : 48 ≤ c.val ∧ c.val ≤ 57 := by simpa [Char.isDigit] using h
    exact Nat.lt_of_le_of_lt hdigit.2 (by decide)
  have hall : ∀ n < 128, (Char.ofNat n).isDigit = true → isIntSpace (Char.ofNat n) = false := by decide
  exact forall_ascii (P := fun c => c.isDigit = true → isIntSpace c = false) hall hascii h

theorem pyInt_toDigits {n : Nat} (h : (Nat.toDigits 10 n).length ≤ 4300) : pyInt (Nat.toDigits 10 n) = .ok (n : Int) := by
  obtain ⟨ds, hds, hlength, hvalue⟩ := digits_toDigits n
  have hne : Nat.toDigits 10 n ≠ [] := Nat.toDigits_ne_nil
  have hspace : ∀ c ∈ Nat.toDigits 10 n, ¬ isIntSpace c = true := fun c hc => by
    rw [isIntSpace_of_isDigit (Nat.isDigit_of_mem_toDigits (by decide) (by decide) hc)]
    exact Bool.false_ne_true
  have hstrip : ((Nat.toDigits 10 n).dropWhile isIntSpace).rdropWhile isIntSpace = Nat.toDigits 10 n := by
    have hdrop : (Nat.toDigits 10 n).dropWhile isIntSpace = Nat.toDigits 10 n :=
      List.dropWhile_eq_self_iff.2 fun _ => hspace _ (List.getElem_mem _)
    rw [hdrop, List.rdropWhile_eq_self_iff]
    exact fun _ => hspace _ (List.getLast_mem _)
  have hnumeral : numeralDigits (Nat.toDigits 10 n) = some ds := by
    have hunderscore := not_mem_toDigits (c := '_') rfl n
    have hfilter : (Nat.toDigits 10 n).filter (· ≠ '_') = Nat.toDigits 10 n :=
      List.filter_eq_self.2 fun c hc => decide_eq_true fun he => hunderscore (he ▸ hc)
    unfold numeralDigits
    rw [List.splitOn_eq_singleton hunderscore, hfilter, hds, if_pos (by simp [hne])]
  have hshort : ¬ 4300 < ds.length := by
    rw [hlength]
    exact not_lt.2 h
  unfold pyInt
  rw [hstrip]
  cases hdigits : Nat.toDigits 10 n with
  | nil => exact absurd hdigits hne
  | cons c s =>
    rw [hdigits] at hnumeral
    have hdigit : c.isDigit = true :=
      Nat.isDigit_of_mem_toDigits (by decide) (by decide) (by rw [hdigits]; exact List.mem_cons_self : c ∈ Nat.toDigits 10 n)
    have hminus : c ≠ '-' := fun hc => absurd (hc ▸ hdigit) (by decide)
    have hplus : c ≠ '+' := fun hc => absurd (hc ▸ hdigit) (by decide)
    simp [hminus, hplus, hnumeral, hshort, hvalue]

/-- **A hash is verified by the passwords of its derived key.** -/
theorem verifyPassword_hashPassword {pbkdf2 : Pbkdf2} (hlength : ∀ password salt n, (pbkdf2 password salt n).length = 32)
    {salt : Bytes} (hsalt : salt ≠ []) {iterations : Nat} (hpos : 1 ≤ iterations) (hle : iterations ≤ 10000000)
    (password password' : Str) :
    verifyPassword pbkdf2 password' (hashPassword pbkdf2 salt password iterations) =
      decide (pbkdf2 (utf8Bytes password') salt iterations = pbkdf2 (utf8Bytes password) salt iterations) := by
  have hhex : ∀ bs : Bytes, '$' ∉ hex bs := fun bs hc => absurd (isHex_of_mem_hex hc) (by decide)
  have hparse : parseHash (hashPassword pbkdf2 salt password iterations) =
      some ((iterations : Int), salt, pbkdf2 (utf8Bytes password) salt iterations) := by
    have hint : pyInt (Nat.toDigits 10 iterations) = .ok (iterations : Int) :=
      pyInt_toDigits (le_trans ((Nat.length_toDigits_le_iff (by decide) (by decide)).2 (Nat.lt_of_le_of_lt hle (by decide)) :
        (Nat.toDigits 10 iterations).length ≤ 8) (by decide))
    unfold parseHash hashPassword
    simp only [List.append_assoc, List.cons_append]
    rw [List.splitOn_append_cons_self_of_not_mem (by decide),
      List.splitOn_append_cons_self_of_not_mem (not_mem_toDigits rfl iterations),
      List.splitOn_append_cons_self_of_not_mem (hhex salt), List.splitOn_eq_singleton (hhex _)]
    simp only [ne_eq, not_true_eq_false, if_false, hint, fromHex_hex]
  unfold verifyPassword
  rw [hparse]
  dsimp only
  rw [if_neg (by simp only [not_or, not_not]; exact ⟨by omega, hsalt, hlength _ _ _⟩), Int.toNat_natCast]

/-- The bytes `1` to `16`. -/
def demoSalt : Bytes := (List.range' 1 16).map UInt8.ofNat

/-- The derived keys of two passwords with that salt after 600000 iterations, and zeros for everything else. -/
def demoPbkdf2 : Pbkdf2 := fun password salt iterations =>
  if salt = demoSalt ∧ iterations = 600000 ∧ password = utf8Bytes "correct horse".toList then
    [0x35, 0x74, 0x95, 0xd8, 0x7b, 0xf0, 0xd1, 0xae, 0x1a, 0xbd, 0x38, 0x87, 0xf3, 0xe5, 0xd0, 0x31,
      0xbc, 0xce, 0xfc, 0xbb, 0xa7, 0x2a, 0xf2, 0xb0, 0xa7, 0x69, 0x5d, 0xd6, 0xeb, 0x45, 0x44, 0x0d]
  else if salt = demoSalt ∧ iterations = 600000 ∧ password = utf8Bytes "Correct horse".toList then
    [0x34, 0x24, 0x6e, 0x7a, 0x5d, 0x2a, 0x77, 0xd3, 0xfe, 0x29, 0x57, 0x9a, 0xc9, 0x8e, 0xc3, 0xa7,
      0xf5, 0x9b, 0xe5, 0xb5, 0x0d, 0xd0, 0x85, 0x3d, 0xe8, 0x32, 0x68, 0xe3, 0x2c, 0x97, 0xfa, 0x0e]
  else List.replicate 32 0

def demoHash : Str := hashPassword demoPbkdf2 demoSalt "correct horse".toList 600000

/-- The hash of a password verifies with it, and not with a capital letter. -/
theorem verifyPassword_demo : verifyPassword demoPbkdf2 "correct horse".toList demoHash = true ∧
    verifyPassword demoPbkdf2 "Correct horse".toList demoHash = false := by
  have hlength : ∀ password salt n, (demoPbkdf2 password salt n).length = 32 := by
    intro password salt n
    unfold demoPbkdf2
    split
    · rfl
    · split <;> rfl
  have hverify := fun password' => verifyPassword_hashPassword hlength (by decide : demoSalt ≠ []) (by decide : 1 ≤ 600000)
    (by decide) "correct horse".toList password'
  unfold demoHash
  rw [hverify, hverify]
  decide +kernel

end RepoWatch
