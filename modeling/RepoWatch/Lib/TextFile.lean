import Mathlib.Data.List.Basic
/-!
# Lib.TextFile — a file of bytes read and written as text

A file is decoded as UTF-8; a byte that does not decode is kept as an escape, so that writing the text back gives the bytes
back (`encode_decode`).  Reading also turns every line ending into a line feed, and that is not undone: a file that is read
and written back is itself exactly when it has no carriage return (`encode_read_eq_iff`).
-/
namespace Lib.TextFile

/-- A text: characters, and bytes that did not decode. -/
abbrev Text := List (Char ⊕ UInt8)

def encodeUnit : Char ⊕ UInt8 → List UInt8
  | .inl c => String.utf8EncodeChar c
  | .inr b => [b]

def encode (t : Text) : List UInt8 := t.flatMap encodeUnit

/-- The text of characters. -/
def ofChars (s : List Char) : Text := s.map .inl

def decode : List UInt8 → Text
  | [] => []
  | b :: bs =>
    match (b :: bs).toByteArray.utf8DecodeChar? 0 with
    | some c => .inl c :: decode (bs.drop (c.utf8Size - 1))
    | none => .inr b :: decode bs
termination_by bs => bs.length

/-- Every line ending is a line feed. -/
def newlines : Text → Text
  | [] => []
  | .inl '\r' :: .inl '\n' :: t => .inl '\n' :: newlines t
  | .inl '\r' :: t => .inl '\n' :: newlines t
  | x :: t => x :: newlines t

def read (bs : List UInt8) : Text := newlines (decode bs)

/-! ## Decoding and encoding -/

/-- The bytes of a character outside ASCII are outside ASCII. -/
theorem le_of_mem_utf8EncodeChar {c : Char} (hc : ¬ c.toNat < 128) : ∀ b ∈ String.utf8EncodeChar c, 128 ≤ b.toNat := by
  intro b hb
  have hv : c.val.toNat = c.toNat := rfl
  unfold String.utf8EncodeChar at hb
  dsimp only at hb
  rw [hv, if_neg (by omega)] at hb
  split at hb
  · simp only [List.mem_cons, List.not_mem_nil, or_false] at hb
    rcases hb with rfl | rfl <;> simp only [UInt8.toNat_ofNat'] <;> omega
  split at hb
  · simp only [List.mem_cons, List.not_mem_nil, or_false] at hb
    rcases hb with rfl | rfl | rfl <;> simp only [UInt8.toNat_ofNat'] <;> omega
  · simp only [List.mem_cons, List.not_mem_nil, or_false] at hb
    rcases hb with rfl | rfl | rfl | rfl <;> simp only [UInt8.toNat_ofNat'] <;> omega

/-- A decoded character is the start of the bytes. -/
theorem utf8EncodeChar_eq_take {bs : List UInt8} {c : Char} (h : bs.toByteArray.utf8DecodeChar? 0 = some c) :
    String.utf8EncodeChar c = bs.take c.utf8Size := by
  have henc := String.toByteArray_utf8EncodeChar_of_utf8DecodeChar?_eq_some h
  refine List.toByteArray_inj.1 (henc.trans ?_)
  ext1
  rw [ByteArray.data_extract, List.data_toByteArray, List.data_toByteArray, List.extract_toArray, List.extract_eq_take_drop]
  simp

/-- **What was decoded is written back** byte for byte. -/
theorem encode_decode (bs : List UInt8) : encode (decode bs) = bs := by
  fun_induction decode with
  | case1 => rfl
  | case2 b bs c hc ih =>
    have hsize : c.utf8Size = c.utf8Size - 1 + 1 := (Nat.sub_add_cancel c.utf8Size_pos).symm
    have hhead := utf8EncodeChar_eq_take hc
    unfold encode at ih ⊢
    rw [List.flatMap_cons, ih, encodeUnit, hhead, hsize, List.take_succ_cons, Nat.add_sub_cancel, List.cons_append,
      List.take_append_drop]
  | case3 b bs hb ih =>
    unfold encode at ih ⊢
    rw [List.flatMap_cons, ih]
    rfl

theorem mem_encode {t : Text} {b : UInt8} : b ∈ encode t ↔ ∃ x ∈ t, b ∈ encodeUnit x := List.mem_flatMap

/-- The byte of an ASCII character is part of no other character. -/
theorem eq_of_mem_utf8EncodeChar {b : UInt8} (hb : b.toNat < 128) {c : Char} (h : b ∈ String.utf8EncodeChar c) :
    c.toNat = b.toNat := by
  by_cases hc : c.toNat < 128
  · have hv : c.val.toNat = c.toNat := rfl
    unfold String.utf8EncodeChar at h
    dsimp only at h
    rw [hv, if_pos (by omega), List.mem_singleton] at h
    rw [h, UInt8.toNat_ofNat']
    omega
  · exact absurd (le_of_mem_utf8EncodeChar hc b h) (by omega)

/-! ## Carriage returns -/

/-- A carriage return always decodes. -/
theorem escape_ne_return (bs : List UInt8) : .inr 13 ∉ decode bs := by
  fun_induction decode with
  | case1 => simp
  | case2 b bs c hc ih => simp [ih]
  | case3 b bs hb ih =>
    rw [List.mem_cons, not_or]
    refine ⟨fun he => ?_, ih⟩
    obtain rfl : (13 : UInt8) = b := by simpa using he
    have hdecode := ByteArray.utf8DecodeChar?_utf8EncodeChar_append (b := bs.toByteArray) (c := '\r')
    have hbytes : (13 :: bs).toByteArray = (String.utf8EncodeChar '\r').toByteArray ++ bs.toByteArray := by
      rw [← List.toByteArray_append]
      rfl
    rw [hbytes, hdecode] at hb
    cases hb

theorem newlines_of_not_mem : ∀ {t : Text}, .inl '\r' ∉ t → newlines t = t
  | [], _ => rfl
  | x :: t, h => by
    rw [List.mem_cons, not_or] at h
    rw [newlines, newlines_of_not_mem h.2]
    · rintro t' rfl rfl
      exact h.1 rfl
    · rintro rfl
      exact h.1 rfl

theorem mem_newlines {x : Char ⊕ UInt8} : ∀ {t : Text}, x ∈ newlines t → x ≠ .inl '\r' ∧ (x = .inl '\n' ∨ x ∈ t) := by
  intro t
  fun_induction newlines t with
  | case1 => simp
  | case2 t ih =>
    intro h
    rcases List.mem_cons.1 h with rfl | h
    · simp
    · exact ⟨(ih h).1, (ih h).2.imp_right fun hm => by simp [hm]⟩
  | case3 t hnot ih =>
    intro h
    rcases List.mem_cons.1 h with rfl | h
    · simp
    · exact ⟨(ih h).1, (ih h).2.imp_right fun hm => by simp [hm]⟩
  | case4 y t h1 h2 ih =>
    intro h
    rcases List.mem_cons.1 h with rfl | h
    · exact ⟨fun he => h2 he, Or.inr List.mem_cons_self⟩
    · exact ⟨(ih h).1, (ih h).2.imp_right fun hm => by simp [hm]⟩

/-- No carriage return is left in what was read. -/
theorem return_not_mem_encode_read (bs : List UInt8) : 13 ∉ encode (read bs) := by
  rw [mem_encode]
  rintro ⟨x, hx, hb⟩
  obtain ⟨hne, hmem⟩ := mem_newlines hx
  cases x with
  | inl c =>
    have hc := eq_of_mem_utf8EncodeChar (by decide) hb
    have : c = '\r' := by
      rw [← Char.ofNat_toNat c, hc]
      rfl
    exact hne (by rw [this])
  | inr b =>
    obtain rfl : (13 : UInt8) = b := by simpa [encodeUnit] using hb
    rcases hmem with h | h
    · cases h
    · exact escape_ne_return bs h

/-- **A file that is read and written back** is itself exactly when it has no carriage return. -/
theorem encode_read_eq_iff {bs : List UInt8} : encode (read bs) = bs ↔ 13 ∉ bs := by
  refine ⟨fun h => h ▸ return_not_mem_encode_read bs, fun h => ?_⟩
  have hno : .inl '\r' ∉ decode bs := fun hm => h (by
    rw [← encode_decode bs]
    exact mem_encode.2 ⟨_, hm, by decide⟩)
  rw [read, newlines_of_not_mem hno, encode_decode]

end Lib.TextFile
