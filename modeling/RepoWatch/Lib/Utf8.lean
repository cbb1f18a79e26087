import RepoWatch.Lib.Loop
import RepoWatch.Lib.TextFile
/-!
# Lib.Utf8 — decoding with replacement

Bytes that do not decode become replacement characters, one for the longest start of a character at a time.  What was
encoded decodes to itself (`decodeReplace_utf8Bytes`), and an ASCII byte is never part of anything else, so that bytes can be
cut at it before they are decoded (`decodeReplace_cut`).
-/
namespace Lib.Utf8

open TextFile

/-- A byte that can follow the lead byte `b` of a sequence of three or four. -/
def follows (b c : UInt8) : Bool :=
  if b = 0xe0 then decide (0xa0 ≤ c ∧ c ≤ 0xbf)
  else if b = 0xed then decide (0x80 ≤ c ∧ c ≤ 0x9f)
  else if b = 0xf0 then decide (0x90 ≤ c ∧ c ≤ 0xbf)
  else if b = 0xf4 then decide (0x80 ≤ c ∧ c ≤ 0x8f)
  else decide (0xe1 ≤ b ∧ b ≤ 0xf3 ∧ 0x80 ≤ c ∧ c ≤ 0xbf)

/-- How many bytes are replaced at once where the bytes do not decode: the longest start of a character that they have. -/
def malformed : List UInt8 → Nat
  | b :: c :: bs =>
    if !follows b c then 1
    else match bs with
      | d :: _ => if 0xf0 ≤ b ∧ 0x80 ≤ d ∧ d ≤ 0xbf then 3 else 2
      | [] => 2
  | _ => 1

/-- Decoding with replacement: what does not decode becomes U+FFFD. -/
def decodeReplace : List UInt8 → List Char
  | [] => []
  | b :: bs =>
    match (b :: bs).toByteArray.utf8DecodeChar? 0 with
    | some c => c :: decodeReplace (bs.drop (c.utf8Size - 1))
    | none => '\uFFFD' :: decodeReplace (bs.drop (malformed (b :: bs) - 1))
termination_by bs => bs.length

/-- `str.encode`. -/
def utf8Bytes (s : List Char) : List UInt8 := s.flatMap String.utf8EncodeChar

theorem utf8Bytes_cons (c : Char) (s : List Char) : utf8Bytes (c :: s) = String.utf8EncodeChar c ++ utf8Bytes s := rfl

theorem utf8Bytes_append (a b : List Char) : utf8Bytes (a ++ b) = utf8Bytes a ++ utf8Bytes b := List.flatMap_append

theorem utf8EncodeChar_ascii {c : Char} (hc : c.toNat < 128) : String.utf8EncodeChar c = [UInt8.ofNat c.toNat] := by
  have hbytes : ∀ n < 128, String.utf8EncodeChar (Char.ofNat n) = [UInt8.ofNat n] := by decide
  have h := hbytes c.toNat hc
  rwa [Char.ofNat_toNat] at h

theorem utf8EncodeChar_byte {b : UInt8} (hb : b.toNat < 128) : String.utf8EncodeChar (Char.ofNat b.toNat) = [b] := by
  have hcode : ∀ n < 128, (Char.ofNat n).toNat = n := by decide
  have h := hcode b.toNat hb
  rw [utf8EncodeChar_ascii (by rwa [h]), h, UInt8.ofNat_toNat]

theorem utf8DecodeChar?_utf8EncodeChar (c : Char) (bs : List UInt8) :
    (String.utf8EncodeChar c ++ bs).toByteArray.utf8DecodeChar? 0 = some c := by
  rw [List.toByteArray_append]
  exact ByteArray.utf8DecodeChar?_utf8EncodeChar_append

theorem decodeReplace_utf8EncodeChar (c : Char) (bs : List UInt8) :
    decodeReplace (String.utf8EncodeChar c ++ bs) = c :: decodeReplace bs := by
  have hdecode := utf8DecodeChar?_utf8EncodeChar c bs
  have hlength := String.length_utf8EncodeChar c
  cases hbytes : String.utf8EncodeChar c with
  | nil => exact absurd hbytes String.utf8EncodeChar_ne_nil
  | cons b t =>
    rw [hbytes] at hdecode hlength
    rw [List.cons_append] at hdecode ⊢
    rw [decodeReplace, hdecode]
    dsimp only
    rw [← hlength, List.length_cons, Nat.add_sub_cancel, List.drop_left]

/-- **What was encoded is decoded**, whatever follows. -/
theorem decodeReplace_utf8Bytes_append (s : List Char) (bs : List UInt8) :
    decodeReplace (utf8Bytes s ++ bs) = s ++ decodeReplace bs := by
  induction s with
  | nil => rfl
  | cons c s ih => rw [utf8Bytes_cons, List.append_assoc, decodeReplace_utf8EncodeChar, ih, List.cons_append]

theorem decodeReplace_utf8Bytes (s : List Char) : decodeReplace (utf8Bytes s) = s := by
  have h := decodeReplace_utf8Bytes_append s []
  rwa [List.append_nil, decodeReplace, List.append_nil] at h

/-- Decoding without errors. -/
def decodeStrict (bs : List UInt8) : Option (List Char) := (decode bs).mapM Sum.getLeft?

theorem decode_utf8Bytes (s : List Char) : decode (utf8Bytes s) = ofChars s := by
  induction s with
  | nil => rw [utf8Bytes, List.flatMap_nil, decode]; rfl
  | cons c s ih =>
    have hdecode := utf8DecodeChar?_utf8EncodeChar c (utf8Bytes s)
    have hlength := String.length_utf8EncodeChar c
    rw [utf8Bytes_cons]
    cases hbytes : String.utf8EncodeChar c with
    | nil => exact absurd hbytes String.utf8EncodeChar_ne_nil
    | cons b t =>
      rw [hbytes] at hdecode hlength
      rw [List.cons_append] at hdecode ⊢
      rw [decode, hdecode]
      dsimp only
      rw [← hlength, List.length_cons, Nat.add_sub_cancel, List.drop_left, ih]
      rfl

theorem mapM_getLeft? {t : Text} {s : List Char} : t.mapM Sum.getLeft? = some s ↔ t = ofChars s := by
  rw [mapM_eq_some_iff]
  constructor
  · rintro ⟨hall, rfl⟩
    induction t with
    | nil => rfl
    | cons x t ih =>
      obtain ⟨hx, ht⟩ := List.forall_mem_cons.1 hall
      cases x with
      | inl c => exact congrArg (List.cons (.inl c)) (ih ht)
      | inr b => cases hx
  · rintro rfl
    refine ⟨fun x hx => ?_, ?_⟩
    · obtain ⟨c, -, rfl⟩ := List.mem_map.1 hx
      rfl
    · rw [ofChars, List.filterMap_map]
      exact List.filterMap_some.symm

/-- An ASCII byte is the byte of its character. -/
theorem mem_utf8Bytes {b : UInt8} (hb : b.toNat < 128) {s : List Char} : b ∈ utf8Bytes s ↔ Char.ofNat b.toNat ∈ s := by
  unfold utf8Bytes
  rw [List.mem_flatMap]
  constructor
  · rintro ⟨c, hc, hmem⟩
    rwa [← eq_of_mem_utf8EncodeChar hb hmem, Char.ofNat_toNat]
  · intro hc
    refine ⟨_, hc, ?_⟩
    rw [utf8EncodeChar_byte hb]
    exact List.mem_singleton_self b

/-- **Decoding without errors undoes encoding**, and nothing else decodes. -/
theorem decodeStrict_eq_some {bs : List UInt8} {s : List Char} : decodeStrict bs = some s ↔ bs = utf8Bytes s := by
  unfold decodeStrict
  rw [mapM_getLeft?]
  constructor
  · intro h
    rw [← encode_decode bs, h, utf8Bytes, encode, ofChars, List.flatMap_map]
    rfl
  · rintro rfl
    exact decode_utf8Bytes s

/-! ## Cuts at ASCII -/

theorem follows_ascii {b c : UInt8} (hc : c.toNat < 128) : follows b c = false := by
  have h80 : ¬ (0x80 : UInt8) ≤ c := fun h => absurd (UInt8.le_iff_toNat_le.1 h) (by simpa using hc)
  have h90 : ¬ (0x90 : UInt8) ≤ c := fun h => h80 (UInt8.le_trans (by decide) h)
  have ha0 : ¬ (0xa0 : UInt8) ≤ c := fun h => h80 (UInt8.le_trans (by decide) h)
  simp [follows, h80, h90, ha0]

theorem malformed_cut {b : UInt8} (hb : b.toNat < 128) (a : UInt8) (as bs : List UInt8) :
    malformed (a :: as ++ b :: bs) = malformed (a :: as) := by
  match as with
  | [] => simp [malformed, follows_ascii hb]
  | [c] =>
    have h80 : ¬ (0x80 : UInt8) ≤ b := fun h => absurd (UInt8.le_iff_toNat_le.1 h) (by simpa using hb)
    simp [malformed, h80]
  | c :: d :: as => rfl

theorem malformed_le : ∀ bs : List UInt8, malformed bs ≤ max 1 bs.length
  | [] => Nat.le_max_left _ _
  | [_] => Nat.le_max_left _ _
  | [b, c] => by
    rw [malformed]
    split_ifs <;> simp
  | b :: c :: d :: bs => by
    rw [malformed]
    dsimp only [List.length_cons]
    split_ifs <;> omega

/-- A sequence that does not decode does not decode with an ASCII byte after it. -/
theorem utf8DecodeChar?_cut {b : UInt8} (hb : b.toNat < 128) {as bs : List UInt8} (hne : as ≠ [])
    (h : as.toByteArray.utf8DecodeChar? 0 = none) : (as ++ b :: bs).toByteArray.utf8DecodeChar? 0 = none := by
  by_contra hsome
  obtain ⟨c, hc⟩ := Option.ne_none_iff_exists'.1 hsome
  have htake := utf8EncodeChar_eq_take hc
  rcases Nat.lt_or_ge as.length c.utf8Size with hlt | hle
  · -- the character ends after `as`, so the byte is part of it
    have hmem : b ∈ String.utf8EncodeChar c := by
      obtain ⟨n, hn⟩ := Nat.exists_eq_add_of_lt hlt
      rw [htake, hn, Nat.add_assoc, List.take_length_add_append, List.take_succ_cons]
      exact List.mem_append_right _ List.mem_cons_self
    have hchar : c = Char.ofNat b.toNat := by rw [← eq_of_mem_utf8EncodeChar hb hmem, Char.ofNat_toNat]
    have hsize := String.length_utf8EncodeChar c
    rw [hchar, utf8EncodeChar_byte hb, ← hchar] at hsize
    have hpos := List.length_pos_of_ne_nil hne
    rw [List.length_singleton] at hsize
    omega
  · have hp : as = String.utf8EncodeChar c ++ as.drop c.utf8Size := by
      rw [htake, List.take_append_of_le_length hle, List.take_append_drop]
    rw [hp, utf8DecodeChar?_utf8EncodeChar] at h
    cases h

/-- **An ASCII byte is a cut**: what precedes it and what follows it are decoded apart. -/
theorem decodeReplace_cut {b : UInt8} (hb : b.toNat < 128) (as bs : List UInt8) :
    decodeReplace (as ++ b :: bs) = decodeReplace as ++ Char.ofNat b.toNat :: decodeReplace bs := by
  fun_induction decodeReplace as with
  | case1 =>
    have h := decodeReplace_utf8EncodeChar (Char.ofNat b.toNat) bs
    rwa [utf8EncodeChar_byte hb] at h
  | case2 a as c hc ih =>
    have hsome : (a :: (as ++ b :: bs)).toByteArray.utf8DecodeChar? 0 = some c := by
      have h := ByteArray.utf8DecodeChar?_append_eq_some hc (b :: bs).toByteArray
      rwa [← List.toByteArray_append] at h
    have hsize := congrArg List.length (utf8EncodeChar_eq_take hc)
    rw [String.length_utf8EncodeChar, List.length_take, List.length_cons] at hsize
    rw [List.cons_append, decodeReplace, hsome]
    dsimp only
    rw [List.drop_append_of_le_length (by omega), ih, List.cons_append]
  | case3 a as hnone ih =>
    have hmalformed := malformed_cut hb a as bs
    have hle := malformed_le (a :: as)
    rw [List.length_cons] at hle
    have hcut : (a :: as ++ b :: bs).toByteArray.utf8DecodeChar? 0 = none := utf8DecodeChar?_cut hb (List.cons_ne_nil a as) hnone
    rw [List.cons_append] at hmalformed hcut ⊢
    rw [decodeReplace, hcut]
    dsimp only
    rw [hmalformed, List.drop_append_of_le_length (by omega), ih, List.cons_append]

/-- An ASCII byte among encoded characters is one of them. -/
theorem cut_of_utf8Bytes {b : UInt8} (hb : b.toNat < 128) {bs : List UInt8} : ∀ {as : List UInt8} {s : List Char},
    utf8Bytes s = as ++ b :: bs →
    ∃ s₁ s₂, s = s₁ ++ Char.ofNat b.toNat :: s₂ ∧ as = utf8Bytes s₁ ∧ bs = utf8Bytes s₂
  | as, [], h => absurd h.symm (by simp [utf8Bytes])
  | as, c :: s, h => by
    rw [utf8Bytes_cons] at h
    rcases List.append_eq_append_iff.1 h with ⟨as', rfl, hs⟩ | ⟨cs, hcs, hs⟩
    · obtain ⟨s₁, s₂, rfl, rfl, rfl⟩ := cut_of_utf8Bytes hb hs
      exact ⟨c :: s₁, s₂, rfl, rfl, rfl⟩
    · cases cs with
      | nil =>
        rw [List.append_nil] at hcs
        obtain ⟨s₁, s₂, rfl, hnil, rfl⟩ := @cut_of_utf8Bytes b hb bs [] s hs.symm
        exact ⟨c :: s₁, s₂, rfl, by rw [← hcs, utf8Bytes_cons, ← hnil, List.append_nil], rfl⟩
      | cons x cs =>
        obtain ⟨rfl, rfl⟩ := List.cons.inj hs
        have hmem : b ∈ String.utf8EncodeChar c := by
          rw [hcs]
          exact List.mem_append_right _ List.mem_cons_self
        have hchar : c = Char.ofNat b.toNat := by rw [← eq_of_mem_utf8EncodeChar hb hmem, Char.ofNat_toNat]
        have hsingle : [b] = as ++ b :: cs := by rw [← hcs, hchar, utf8EncodeChar_byte hb]
        cases as with
        | nil =>
          obtain ⟨-, rfl⟩ := List.cons.inj hsingle
          exact ⟨[], s, by rw [hchar]; rfl, rfl, rfl⟩
        | cons a as => simp at hsingle

/-- **Decoding without errors** is the same before and after an ASCII byte. -/
theorem decodeStrict_cut {b : UInt8} (hb : b.toNat < 128) {as bs : List UInt8} {s : List Char} :
    decodeStrict (as ++ b :: bs) = some s ↔
      ∃ s₁ s₂, decodeStrict as = some s₁ ∧ decodeStrict bs = some s₂ ∧ s = s₁ ++ Char.ofNat b.toNat :: s₂ := by
  simp only [decodeStrict_eq_some]
  constructor
  · intro h
    obtain ⟨s₁, s₂, hs, has, hbs⟩ := cut_of_utf8Bytes hb h.symm
    exact ⟨s₁, s₂, has, hbs, hs⟩
  · rintro ⟨s₁, s₂, rfl, rfl, rfl⟩
    rw [utf8Bytes_append, utf8Bytes_cons, utf8EncodeChar_byte hb]
    rfl

theorem decodeStrict_nil : decodeStrict [] = some [] := decodeStrict_eq_some.2 rfl

theorem decodeStrict_concat {b : UInt8} (hb : b.toNat < 128) {as : List UInt8} {s : List Char} :
    decodeStrict (as ++ [b]) = some s ↔ ∃ s₁, decodeStrict as = some s₁ ∧ s = s₁ ++ [Char.ofNat b.toNat] := by
  rw [decodeStrict_cut hb]
  constructor
  · rintro ⟨s₁, s₂, has, hnil, rfl⟩
    rw [decodeStrict_nil] at hnil
    cases hnil
    exact ⟨s₁, has, rfl⟩
  · rintro ⟨s₁, has, rfl⟩
    exact ⟨s₁, [], has, decodeStrict_nil, rfl⟩

/-- What ends with an ASCII byte is decoded apart from what follows it. -/
theorem decodeStrict_concat_append {b : UInt8} (hb : b.toNat < 128) {as bs : List UInt8} {s : List Char} :
    decodeStrict (as ++ [b] ++ bs) = some s ↔
      ∃ s₁ s₂, decodeStrict (as ++ [b]) = some s₁ ∧ decodeStrict bs = some s₂ ∧ s = s₁ ++ s₂ := by
  rw [List.append_assoc, List.singleton_append, decodeStrict_cut hb]
  constructor
  · rintro ⟨s₁, s₂, has, hbs, rfl⟩
    exact ⟨_, s₂, (decodeStrict_concat hb).2 ⟨s₁, has, rfl⟩, hbs, by rw [List.append_assoc]; rfl⟩
  · rintro ⟨s₁, s₂, has, hbs, rfl⟩
    obtain ⟨s, hs, rfl⟩ := (decodeStrict_concat hb).1 has
    exact ⟨s, s₂, hs, hbs, by rw [List.append_assoc]; rfl⟩

theorem mem_of_mem_decodeReplace {bs : List UInt8} {c : Char} (hc : c.toNat < 128) (h : c ∈ decodeReplace bs) :
    UInt8.ofNat c.toNat ∈ bs := by
  fun_induction decodeReplace bs with
  | case1 => cases h
  | case2 b bs x hx ih =>
    rcases List.mem_cons.1 h with rfl | h
    · have hbyte : UInt8.ofNat c.toNat ∈ String.utf8EncodeChar c := by
        rw [utf8EncodeChar_ascii hc]
        exact List.mem_singleton_self _
      rw [utf8EncodeChar_eq_take hx] at hbyte
      exact List.mem_of_mem_take hbyte
    · exact List.mem_cons_of_mem _ (List.mem_of_mem_drop (ih h))
  | case3 b bs hx ih =>
    rcases List.mem_cons.1 h with rfl | h
    · exact absurd hc (by decide)
    · exact List.mem_cons_of_mem _ (List.mem_of_mem_drop (ih h))

theorem newline_not_mem_decodeReplace {bs : List UInt8} (h : 10 ∉ bs) : '\n' ∉ decodeReplace bs := fun hm =>
  h (mem_of_mem_decodeReplace (by decide) hm)

/-- What a decoded character other than the replacement stands for is among the bytes. -/
theorem infix_of_mem_decodeReplace {bs : List UInt8} {c : Char} (hc : c ≠ '\uFFFD') (h : c ∈ decodeReplace bs) :
    String.utf8EncodeChar c <:+: bs := by
  fun_induction decodeReplace bs with
  | case1 => cases h
  | case2 b bs x hx ih =>
    rcases List.mem_cons.1 h with rfl | h
    · rw [utf8EncodeChar_eq_take hx]
      exact (List.take_prefix _ _).isInfix
    · exact (ih h).trans ((List.drop_suffix _ bs).trans (List.suffix_cons b bs)).isInfix
  | case3 b bs hx ih =>
    rcases List.mem_cons.1 h with rfl | h
    · exact absurd rfl hc
    · exact (ih h).trans ((List.drop_suffix _ bs).trans (List.suffix_cons b bs)).isInfix

/-- An ASCII character that decoding starts with is the first byte. -/
theorem eq_cons_of_decodeReplace {bs : List UInt8} {c : Char} {s : List Char} (hc : c.toNat < 128)
    (h : decodeReplace bs = c :: s) : ∃ bs', bs = UInt8.ofNat c.toNat :: bs' ∧ decodeReplace bs' = s := by
  cases bs with
  | nil => rw [decodeReplace] at h; cases h
  | cons b bs =>
    rw [decodeReplace] at h
    split at h
    · rename_i x hx
      obtain ⟨rfl, hs⟩ := List.cons.inj h
      have hencode := utf8EncodeChar_ascii hc
      have hsize := String.length_utf8EncodeChar x
      rw [hencode, List.length_singleton] at hsize
      rw [utf8EncodeChar_eq_take hx, ← hsize, List.take_succ_cons, List.take_zero] at hencode
      rw [← hsize, Nat.sub_self, List.drop_zero] at hs
      exact ⟨bs, by rw [(List.cons.inj hencode).1], hs⟩
    · obtain ⟨rfl, -⟩ := List.cons.inj h
      exact absurd hc (by decide)

/-- **An ASCII text is a prefix** of the decoded text exactly if its bytes are one of the bytes. -/
theorem prefix_decodeReplace : ∀ {w : List Char} {bs : List UInt8}, (∀ c ∈ w, c.toNat < 128) →
    (w <+: decodeReplace bs ↔ utf8Bytes w <+: bs)
  | [], _, _ => iff_of_true List.nil_prefix List.nil_prefix
  | c :: w, bs, hw => by
    obtain ⟨hc, hw⟩ := List.forall_mem_cons.1 hw
    constructor
    · rintro ⟨s, hs⟩
      obtain ⟨bs', rfl, hbs'⟩ := eq_cons_of_decodeReplace hc hs.symm
      rw [utf8Bytes_cons, utf8EncodeChar_ascii hc]
      exact List.cons_prefix_cons.2 ⟨rfl, (prefix_decodeReplace hw).1 (by rw [hbs']; exact List.prefix_append w s)⟩
    · rintro ⟨bs', rfl⟩
      rw [decodeReplace_utf8Bytes_append]
      exact List.prefix_append _ _

theorem decodeReplace_eq_nil {bs : List UInt8} (h : decodeReplace bs = []) : bs = [] := by
  cases bs with
  | nil => rfl
  | cons b bs =>
    rw [decodeReplace] at h
    split at h <;> cases h

end Lib.Utf8
