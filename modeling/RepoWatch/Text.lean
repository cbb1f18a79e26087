import Mathlib.Data.List.Basic
import Mathlib.Data.List.DropRight
import Mathlib.Data.List.Infix
import Mathlib.Data.List.Lex
import Mathlib.Data.List.Sort
import Mathlib.Data.Char
import RepoWatch.Lib.TextFile
/-!
# Text — strings as the program handles them

A string is its list of code points, so the order of two strings is the lexicographic order of code points: Python's
order, and the order of SQLite's `BINARY` collation on UTF-8.  `sorted` is an insertion sort, which is stable and which
the kernel can evaluate.
-/
namespace RepoWatch

abbrev Str := List Char

instance : LawfulBEq Str := inferInstance

/-- `str.startswith`. -/
def startsWith (s pre : Str) : Bool := pre.isPrefixOf s

theorem startsWith_iff {s pre : Str} : startsWith s pre = true ↔ pre <+: s := List.isPrefixOf_iff_prefix

/-- `str.rstrip('/')`. -/
def rstripSlash (s : Str) : Str := s.rdropWhile (· == '/')

theorem rstripSlash_append (s : Str) : ∃ t, s = rstripSlash s ++ t ∧ ∀ c ∈ t, c = '/' := by
  refine ⟨s.rtakeWhile (· == '/'), (List.rdropWhile_append_rtakeWhile ..).symm, fun c hc => ?_⟩
  simpa using List.mem_rtakeWhile_imp hc

/-- `str.strip('/')`. -/
def stripSlash (s : Str) : Str := rstripSlash (s.dropWhile (· == '/'))

/-- `str.partition(c)`: what precedes the first `c`, and what follows it if there is one. -/
def partition (c : Char) : Str → Str × Option Str
  | [] => ([], none)
  | x :: s => if x = c then ([], some s) else (x :: (partition c s).1, (partition c s).2)

theorem partition_spec (c : Char) : ∀ s : Str, c ∉ (partition c s).1 ∧
    s = (partition c s).1 ++ (match (partition c s).2 with | none => [] | some t => c :: t)
  | [] => by simp [partition]
  | x :: s => by
    obtain ⟨h1, h2⟩ := partition_spec c s
    unfold partition
    split
    · rename_i h; simp [h]
    · rename_i h
      refine ⟨by simp [h1, Ne.symm h], ?_⟩
      conv => lhs; rw [h2]
      simp

theorem partition_of_not_mem (c : Char) : ∀ s : Str, c ∉ s → partition c s = (s, none)
  | [], _ => rfl
  | x :: s, h => by
    obtain ⟨h1, h2⟩ : c ≠ x ∧ c ∉ s := by simpa using h
    simp [partition, Ne.symm h1, partition_of_not_mem c s h2]

theorem partition_append {c : Char} : ∀ {a : Str}, c ∉ a → ∀ b, partition c (a ++ c :: b) = (a, some b)
  | [], _, b => by simp [partition]
  | x :: a, h, b => by
    obtain ⟨hx, ha⟩ : c ≠ x ∧ c ∉ a := by simpa using h
    simp [partition, Ne.symm hx, partition_append ha b]

theorem partition_append_left {c : Char} : ∀ {a : Str}, c ∉ a → ∀ s,
    partition c (a ++ s) = (a ++ (partition c s).1, (partition c s).2)
  | [], _, s => rfl
  | x :: a, h, s => by
    obtain ⟨hx, ha⟩ : c ≠ x ∧ c ∉ a := by simpa using h
    simp [partition, Ne.symm hx, partition_append_left ha s]

/-- `sorted` of strings. -/
def sortedStr (l : List Str) : List Str := l.insertionSort (· ≤ ·)

theorem mem_sortedStr {l : List Str} {s : Str} : s ∈ sortedStr l ↔ s ∈ l := List.mem_insertionSort _

theorem pairwise_sortedStr (l : List Str) : (sortedStr l).Pairwise (· ≤ ·) := List.pairwise_insertionSort (· ≤ ·) l

theorem prefix_le {a b : Str} (h : a <+: b) : a ≤ b := by
  obtain ⟨t, rfl⟩ := h
  exact not_lt.1 List.le_append_left

/-- A character of `[A-Za-z0-9_./+~-]`, which a validated nginx path is made of. -/
def isUriChar (c : Char) : Bool := c.isAlphanum || ['_', '.', '/', '+', '~', '-'].contains c

/-- The value of a decimal numeral. -/
def decimal (s : Str) : Nat := s.foldl (fun n c => 10 * n + (c.toNat - '0'.toNat)) 0

/-- Lowercase the letters `A`–`Z` and nothing else. -/
def asciiLower (s : Str) : Str := s.map Char.toLower

/-! ## Bytes -/

abbrev Bytes := List UInt8

/-- The UTF-8 encoding of a string; a byte is the character of its code. -/
def utf8 (s : Str) : Str := s.flatMap fun c => (String.utf8EncodeChar c).map fun b => Char.ofNat b.toNat

theorem utf8_append (a b : Str) : utf8 (a ++ b) = utf8 a ++ utf8 b := List.flatMap_append

theorem utf8_cons (c : Char) (s : Str) :
    utf8 (c :: s) = (String.utf8EncodeChar c).map (fun b => Char.ofNat b.toNat) ++ utf8 s := rfl

theorem toNat_ofNat_byte (b : UInt8) : (Char.ofNat b.toNat).toNat = b.toNat := by
  have hcode : ∀ n < 256, (Char.ofNat n).toNat = n := by decide +kernel
  exact hcode b.toNat b.toNat_lt

theorem byteChar_injective : Function.Injective fun b : UInt8 => Char.ofNat b.toNat := by
  intro b b' h
  have hcode := congrArg Char.toNat h
  rw [toNat_ofNat_byte, toNat_ofNat_byte] at hcode
  exact UInt8.toNat_inj.1 hcode

theorem utf8_lt (s : Str) : ∀ c ∈ utf8 s, c.toNat < 256 := by
  intro c hc
  obtain ⟨x, -, hc⟩ := List.mem_flatMap.1 hc
  obtain ⟨b, -, rfl⟩ := List.mem_map.1 hc
  rw [toNat_ofNat_byte]
  exact b.toNat_lt

theorem forall_ascii {P : Char → Prop} (h : ∀ n < 128, P (Char.ofNat n)) {c : Char} (hc : c.toNat < 128) : P c := by
  have := h c.toNat hc
  rwa [Char.ofNat_toNat] at this

theorem utf8_ascii_char {c : Char} (hc : c.toNat < 128) :
    (String.utf8EncodeChar c).map (fun b => Char.ofNat b.toNat) = [c] :=
  forall_ascii (P := fun c => (String.utf8EncodeChar c).map (fun b => Char.ofNat b.toNat) = [c]) (by decide) hc

/-- **ASCII is its own encoding.** -/
theorem utf8_of_ascii : ∀ {s : Str}, (∀ c ∈ s, c.toNat < 128) → utf8 s = s
  | [], _ => rfl
  | c :: s, h => by
    rw [utf8_cons, utf8_ascii_char (h c List.mem_cons_self), utf8_of_ascii fun x hx => h x (List.mem_cons_of_mem _ hx)]
    rfl

/-- **An ASCII character** is in a string exactly when its byte is in the encoding. -/
theorem mem_utf8_of_ascii {c : Char} (hc : c.toNat < 128) {s : Str} : c ∈ utf8 s ↔ c ∈ s := by
  unfold utf8
  rw [List.mem_flatMap]
  constructor
  · rintro ⟨x, hx, hm⟩
    by_cases hxa : x.toNat < 128
    · rw [utf8_ascii_char hxa, List.mem_singleton] at hm
      exact hm ▸ hx
    · obtain ⟨b, hb, rfl⟩ := List.mem_map.1 hm
      rw [toNat_ofNat_byte] at hc
      exact absurd (Lib.TextFile.le_of_mem_utf8EncodeChar hxa b hb) (by omega)
  · exact fun h => ⟨c, h, by rw [utf8_ascii_char hc]; exact List.mem_singleton_self c⟩

theorem toLower_of_not_ascii {c : Char} (hc : ¬ c.toNat < 128) : c.toLower = c := by
  have hv : c.val.toNat = c.toNat := rfl
  unfold Char.toLower
  rw [dif_neg]
  rintro ⟨-, h⟩
  have : c.val.toNat ≤ 90 := h
  omega

/-- Lowercasing bytes is lowercasing the string. -/
theorem asciiLower_utf8 : ∀ s : Str, asciiLower (utf8 s) = utf8 (asciiLower s)
  | [] => rfl
  | c :: s => by
    have ih := asciiLower_utf8 s
    unfold asciiLower at ih ⊢
    rw [utf8_cons, List.map_append, ih, List.map_cons, utf8_cons]
    congr 1
    by_cases hc : c.toNat < 128
    · have hlow : c.toLower.toNat < 128 := forall_ascii (P := fun c => c.toLower.toNat < 128) (by decide) hc
      rw [utf8_ascii_char hc, utf8_ascii_char hlow]
      rfl
    · rw [toLower_of_not_ascii hc, List.map_map]
      refine List.map_congr_left fun b hb => toLower_of_not_ascii ?_
      have := Lib.TextFile.le_of_mem_utf8EncodeChar hc b hb
      rw [toNat_ofNat_byte]
      omega

theorem utf8_injective : Function.Injective utf8 := by
  intro a b h
  have hbytes : a.flatMap String.utf8EncodeChar = b.flatMap String.utf8EncodeChar := by
    have hmap : ∀ s : Str, utf8 s = (s.flatMap String.utf8EncodeChar).map fun b => Char.ofNat b.toNat := fun s =>
      List.map_flatMap.symm
    rw [hmap, hmap] at h
    exact List.map_injective_iff.2 byteChar_injective h
  have henc : a.utf8Encode = b.utf8Encode := by
    unfold List.utf8Encode
    rw [hbytes]
  rw [← String.ofList_inj, ← String.toByteArray_inj, String.toByteArray_ofList, String.toByteArray_ofList, henc]

end RepoWatch
