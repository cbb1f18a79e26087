import RepoWatch.Lib.Radix
import RepoWatch.Narinfo
/-!
# NixHash — the base-32 spelling of a digest

Nix writes a SHA-256 digest as 52 digits of base 32, the highest first, of the number whose lowest byte is the digest's
first.  `sha256Hex` reads exactly these spellings (`sha256_hex_base32`): the four bits that 52 digits have over 256 must be
zero.
-/
namespace RepoWatch

open Lib

/-- The number of a digest, whose first byte is the lowest. -/
def littleEndian (d : Bytes) : Nat := d.foldr (fun b n => b.toNat + 256 * n) 0

/-- Nix's spelling: the digit with `i` digits to its right stands for the bits `5 i` to `5 i + 4`. -/
def nixBase32 (d : Bytes) : Str :=
  (List.range 52).reverse.map fun i => alphabet.getD ((littleEndian d >>> (5 * i)) % 32) '0'

/-- The number that 52 digits stand for. -/
def base32Value (s : Str) : Nat := Radix.value 32 (s.map alphabet.idxOf)

/-! ## Digits -/

theorem mem_alphabet_getD : ∀ n < 32, alphabet.getD n '0' ∈ alphabet := by decide

theorem idxOf_alphabet_getD : ∀ n < 32, alphabet.idxOf (alphabet.getD n '0') = n := by decide

theorem idxOf_alphabet_lt {c : Char} (h : c ∈ alphabet) : alphabet.idxOf c < 32 := List.idxOf_lt_length_of_mem h

theorem alphabet_getD_idxOf {c : Char} (h : c ∈ alphabet) : alphabet.getD (alphabet.idxOf c) '0' = c := by
  rw [List.getD_eq_getElem?_getD, List.getElem?_idxOf h, Option.getD_some]

/-- The loop of `sha256_hex` computes the value of the digits. -/
theorem foldl_eq_base32Value {s : Str} (h : ∀ c ∈ s, c ∈ alphabet) :
    s.foldl (fun number char => number <<< 5 ||| alphabet.idxOf char) 0 = base32Value s := by
  unfold base32Value Radix.value
  rw [List.foldl_map]
  refine List.foldl_ext _ _ 0 fun n c hc => ?_
  have hlt : alphabet.idxOf c < 2 ^ 5 := idxOf_alphabet_lt (h c hc)
  rw [← Nat.shiftLeft_add_eq_or_of_lt hlt, Nat.shiftLeft_eq, Nat.mul_comm]

theorem littleEndian_eq (d : Bytes) : littleEndian d = BigEndian.decode d.reverse := by
  unfold littleEndian BigEndian.decode Radix.value
  rw [List.map_reverse, List.foldl_reverse, List.foldr_map]
  congr 1
  funext b n
  exact Nat.add_comm _ _

theorem toBytesLittle_eq (n : Nat) : toBytesLittle n = (BigEndian.encode 32 n).reverse := by
  unfold toBytesLittle BigEndian.encode
  rw [Radix.digits_eq_map, List.map_map, ← List.map_reverse, List.reverse_reverse]
  refine List.map_congr_left fun i _ => ?_
  have hbyte : n >>> (8 * i) = n / 256 ^ i := by rw [Nat.shiftRight_eq_div_pow, Nat.pow_mul]
  rw [hbyte, Function.comp_apply]
  exact UInt8.ofNat_mod_size.symm

theorem length_toBytesLittle (n : Nat) : (toBytesLittle n).length = 32 := by
  unfold toBytesLittle
  rw [List.length_map, List.length_range]

theorem littleEndian_lt {d : Bytes} (h : d.length = 32) : littleEndian d < 2 ^ 256 := by
  have hlt := BigEndian.decode_lt d.reverse
  rw [List.length_reverse, h] at hlt
  rw [littleEndian_eq]
  exact hlt.trans_eq (by decide)

/-- The bytes of the number of a digest are the digest. -/
theorem toBytesLittle_littleEndian {d : Bytes} (h : d.length = 32) : toBytesLittle (littleEndian d) = d := by
  have hencode := BigEndian.encode_decode d.reverse
  rw [List.length_reverse, h] at hencode
  rw [toBytesLittle_eq, littleEndian_eq, hencode, List.reverse_reverse]

theorem littleEndian_toBytesLittle {n : Nat} (h : n < 2 ^ 256) : littleEndian (toBytesLittle n) = n := by
  rw [littleEndian_eq, toBytesLittle_eq, List.reverse_reverse]
  exact BigEndian.decode_encode (h.trans_eq (by decide))

/-! ## Spellings -/

theorem nixBase32_eq (d : Bytes) :
    nixBase32 d = (Radix.digits 32 52 (littleEndian d)).map fun n => alphabet.getD n '0' := by
  unfold nixBase32
  rw [Radix.digits_eq_map, List.map_map]
  refine List.map_congr_left fun i _ => ?_
  rw [Function.comp_apply, Nat.shiftRight_eq_div_pow, Nat.pow_mul]

theorem length_nixBase32 (d : Bytes) : (nixBase32 d).length = 52 := by
  rw [nixBase32_eq, List.length_map, Radix.length_digits]

theorem mem_alphabet_of_mem_nixBase32 {d : Bytes} : ∀ c ∈ nixBase32 d, c ∈ alphabet := by
  rw [nixBase32_eq]
  intro c hc
  obtain ⟨n, hn, rfl⟩ := List.mem_map.1 hc
  exact mem_alphabet_getD n (Radix.lt_of_mem_digits (by decide) 52 _ n hn)

/-- The spelling of a digest stands for its number. -/
theorem base32Value_nixBase32 {d : Bytes} (h : d.length = 32) : base32Value (nixBase32 d) = littleEndian d := by
  have hdigits : ((Radix.digits 32 52 (littleEndian d)).map fun n => alphabet.idxOf (alphabet.getD n '0')) =
      Radix.digits 32 52 (littleEndian d) := by
    refine (List.map_congr_left fun n hn => ?_).trans (List.map_id _)
    exact idxOf_alphabet_getD n (Radix.lt_of_mem_digits (by decide) 52 _ n hn)
  have hlt : littleEndian d < 32 ^ 52 := (littleEndian_lt h).trans (by decide)
  unfold base32Value
  rw [nixBase32_eq, List.map_map]
  exact (congrArg (Radix.value 32) hdigits).trans (Radix.value_digits hlt)

/-- Digits whose number fits are the spelling of its bytes. -/
theorem nixBase32_toBytesLittle {s : Str} (hlength : s.length = 52) (hs : ∀ c ∈ s, c ∈ alphabet)
    (hfits : base32Value s < 2 ^ 256) : nixBase32 (toBytesLittle (base32Value s)) = s := by
  have hdigits : ∀ n ∈ s.map alphabet.idxOf, n < 32 := by
    intro n hn
    obtain ⟨c, hc, rfl⟩ := List.mem_map.1 hn
    exact idxOf_alphabet_lt (hs c hc)
  have hvalue := Radix.digits_value hdigits
  rw [List.length_map, hlength] at hvalue
  rw [nixBase32_eq, littleEndian_toBytesLittle hfits, base32Value, hvalue, List.map_map]
  exact (List.map_congr_left fun c hc => alphabet_getD_idxOf (hs c hc)).trans (List.map_id s)

/-! ## Hexadecimal -/

theorem hexDigits_getD_inj : ∀ m < 16, ∀ n < 16, hexDigits.getD m '0' = hexDigits.getD n '0' → m = n := by decide

theorem hex_inj : ∀ {a b : Bytes}, hex a = hex b → a = b
  | [], [], _ => rfl
  | [], b :: bs, h => by cases h
  | a :: as, [], h => by cases h
  | a :: as, b :: bs, h => by
    have ha := a.toNat_lt
    have hb := b.toNat_lt
    obtain ⟨hhigh, h⟩ := List.cons.inj h
    obtain ⟨hlow, h⟩ := List.cons.inj h
    have hdiv := hexDigits_getD_inj _ (by omega) _ (by omega) hhigh
    have hmod := hexDigits_getD_inj _ (by omega) _ (by omega) hlow
    have hbyte : a = b := UInt8.toNat_inj.1 (by omega)
    rw [hbyte, hex_inj h]

/-! ## What `sha256_hex` reads -/

section
variable {s : Str}

/-- A string of 52 characters is read as digits. -/
theorem sha256Hex_of_length (h : s.length = 52) : sha256Hex ("sha256:".toList ++ s) =
    if !s.all alphabet.contains then nixError "Invalid Nix SHA256 encoding"
    else if base32Value s >>> 256 = 0 then .ok (hex (toBytesLittle (base32Value s)))
    else nixError "Invalid Nix SHA256 padding" := by
  have hcut : partition ':' ("sha256:".toList ++ s) = ("sha256".toList, some s) :=
    @partition_append ':' "sha256".toList (by decide) s
  unfold sha256Hex
  rw [hcut]
  dsimp only
  rw [if_neg (not_not_intro rfl), if_neg (fun hhex => absurd (hhex.1.symm.trans h) (by decide))]
  cases hall : s.all alphabet.contains with
  | false => rw [if_pos (.inr rfl)]; rfl
  | true =>
    have hmem : ∀ c ∈ s, c ∈ alphabet := fun c hc => List.contains_iff_mem.1 (List.all_eq_true.1 hall c hc)
    rw [foldl_eq_base32Value hmem, if_neg (by simp [h])]
    rfl

theorem fits_iff {n : Nat} : n >>> 256 = 0 ↔ n < 2 ^ 256 := by
  rw [Nat.shiftRight_eq_div_pow, Nat.div_eq_zero_iff]
  exact or_iff_right (by decide)

/-- **What is read** is the spelling of the digest whose hexadecimal form is returned. -/
theorem sha256Hex_eq_ok {value : Str} (h : s.length = 52) :
    sha256Hex ("sha256:".toList ++ s) = .ok value ↔ ∃ d : Bytes, d.length = 32 ∧ s = nixBase32 d ∧ value = hex d := by
  rw [sha256Hex_of_length h]
  constructor
  · intro hok
    split at hok
    · cases hok
    rename_i hall
    rw [Bool.not_eq_true', Bool.not_eq_false] at hall
    have hmem : ∀ c ∈ s, c ∈ alphabet := fun c hc => List.contains_iff_mem.1 (List.all_eq_true.1 hall c hc)
    split at hok
    · rename_i hfits
      cases hok
      exact ⟨_, length_toBytesLittle _, (nixBase32_toBytesLittle h hmem (fits_iff.1 hfits)).symm, rfl⟩
    · cases hok
  · rintro ⟨d, hd, rfl, rfl⟩
    have hall : (nixBase32 d).all alphabet.contains = true :=
      List.all_eq_true.2 fun c hc => List.contains_iff_mem.2 (mem_alphabet_of_mem_nixBase32 c hc)
    rw [hall, base32Value_nixBase32 hd, if_neg (by decide), if_pos (fits_iff.2 (littleEndian_lt hd)),
      toBytesLittle_littleEndian hd]

end

/-- **Nix's spelling is read exactly.**  The spelling of every digest is read as it; of the strings of 52 characters no
others are read, those with another character or with padding bits are refused; and no two that are read mean the same. -/
theorem sha256_hex_base32 :
    (∀ d : Bytes, d.length = 32 → sha256Hex ("sha256:".toList ++ nixBase32 d) = .ok (hex d)) ∧
    (∀ s : Str, s.length = 52 → ((∃ value, sha256Hex ("sha256:".toList ++ s) = .ok value) ↔
      ∃ d : Bytes, d.length = 32 ∧ s = nixBase32 d)) ∧
    (∀ s : Str, s.length = 52 → (∃ c ∈ s, c ∉ alphabet) →
      sha256Hex ("sha256:".toList ++ s) = nixError "Invalid Nix SHA256 encoding") ∧
    (∀ s : Str, s.length = 52 → (∀ c ∈ s, c ∈ alphabet) → 2 ^ 256 ≤ base32Value s →
      sha256Hex ("sha256:".toList ++ s) = nixError "Invalid Nix SHA256 padding") ∧
    ∀ s t value : Str, s.length = 52 → t.length = 52 → sha256Hex ("sha256:".toList ++ s) = .ok value →
      sha256Hex ("sha256:".toList ++ t) = .ok value → s = t := by
  refine ⟨fun d hd => (sha256Hex_eq_ok (length_nixBase32 d)).2 ⟨d, hd, rfl, rfl⟩, fun s hs => ?_, fun s hs hc => ?_,
    fun s hs hmem hpadding => ?_, fun s t value hs ht hsv htv => ?_⟩
  · constructor
    · rintro ⟨value, hvalue⟩
      obtain ⟨d, hd, hspelled, -⟩ := (sha256Hex_eq_ok hs).1 hvalue
      exact ⟨d, hd, hspelled⟩
    · rintro ⟨d, hd, hspelled⟩
      exact ⟨hex d, (sha256Hex_eq_ok hs).2 ⟨d, hd, hspelled, rfl⟩⟩
  · obtain ⟨c, hc, hout⟩ := hc
    rw [sha256Hex_of_length hs, if_pos]
    rw [Bool.not_eq_true', List.all_eq_false]
    exact ⟨c, hc, fun hin => hout (List.contains_iff_mem.1 hin)⟩
  · have hall : s.all alphabet.contains = true :=
      List.all_eq_true.2 fun c hc => List.contains_iff_mem.2 (hmem c hc)
    rw [sha256Hex_of_length hs, hall, if_neg (by decide), if_neg fun hfits => absurd (fits_iff.1 hfits) hpadding.not_gt]
  · obtain ⟨d, -, hds, hd⟩ := (sha256Hex_eq_ok hs).1 hsv
    obtain ⟨e, -, het, he⟩ := (sha256Hex_eq_ok ht).1 htv
    rw [hds, het, hex_inj (hd.symm.trans he)]

/-- The SHA-256 of `hello`. -/
def helloDigest : Bytes := [
  0x2c, 0xf2, 0x4d, 0xba, 0x5f, 0xb0, 0xa3, 0x0e, 0x26, 0xe8, 0x3b, 0x2a, 0xc5, 0xb9, 0xe2, 0x9e,
  0x1b, 0x16, 0x1e, 0x5c, 0x1f, 0xa7, 0x42, 0x5e, 0x73, 0x04, 0x33, 0x62, 0x93, 0x8b, 0x98, 0x24]

/-- Its spelling without the first character. -/
def helloTail : Str := "94qif9n4cq4fdg459qzbhg1c6wywawwaaivx0k0x8xhbyx4vwic".toList

theorem nixBase32_hello : nixBase32 helloDigest = '0' :: helloTail := by decide +kernel

/-- The spelling of a digest is read, and with a padding bit set it is refused. -/
theorem sha256_hex_base32_hello :
    sha256Hex ("sha256:".toList ++ '0' :: helloTail) = .ok (hex helloDigest) ∧
    sha256Hex ("sha256:".toList ++ '2' :: helloTail) = nixError "Invalid Nix SHA256 padding" := by
  obtain ⟨hspelled, -, -, hpadded, -⟩ := sha256_hex_base32
  have halphabet : ('2' :: helloTail).all (alphabet.contains ·) = true := by decide +kernel
  refine ⟨?_, hpadded ('2' :: helloTail) (by decide +kernel) (fun c hc => ?_) (by decide +kernel)⟩
  · rw [← nixBase32_hello]
    exact hspelled helloDigest rfl
  · exact List.contains_iff_mem.1 (List.all_eq_true.1 halphabet c hc)

end RepoWatch
