import Mathlib.Data.List.Basic
/-!
# Lib.Percent — percent-encoding

Texts are lists of bytes, and a byte is the character of its code.  A client that sends a text quotes the bytes that are
not safe and leaves the escapes that are already there; the server undoes every escape.  So what arrives is shorter than the
text where that has escapes of its own (`length_le_of_unquote`), and otherwise the text itself, unless a `%` is sent that
starts no escape (`unquote_quote_iff`).
-/
namespace Lib.Percent

def hexDigit (n : Nat) : Char :=
  ['0', '1', '2', '3', '4', '5', '6', '7', '8', '9', 'A', 'B', 'C', 'D', 'E', 'F'].getD n '0'

def hexVal (c : Char) : Option Nat :=
  if '0' ≤ c ∧ c ≤ '9' then some (c.toNat - '0'.toNat)
  else if 'A' ≤ c ∧ c ≤ 'F' then some (c.toNat - 'A'.toNat + 10)
  else if 'a' ≤ c ∧ c ≤ 'f' then some (c.toNat - 'a'.toNat + 10)
  else none

def quoteByte (c : Char) : List Char := ['%', hexDigit (c.toNat / 16), hexDigit (c.toNat % 16)]

/-- The byte of an escape with these digits. -/
def escapedByte (a b : Char) : Option Char := (hexVal a).bind fun x => (hexVal b).map fun y => Char.ofNat (16 * x + y)

/-- The text starts with an escape. -/
def isEscape : List Char → Bool
  | '%' :: a :: b :: _ => (escapedByte a b).isSome
  | _ => false

def hasEscape : List Char → Bool
  | [] => false
  | c :: s => isEscape (c :: s) || hasEscape s

/-- Quote what is not safe; an escape is left as it is. -/
def quote (safe : Char → Bool) : List Char → List Char
  | [] => []
  | c :: s => if isEscape (c :: s) || safe c then c :: quote safe s else quoteByte c ++ quote safe s

/-- Undo the escapes; `none` where a `%` starts none. -/
def unquote : List Char → Option (List Char)
  | [] => some []
  | '%' :: a :: b :: s => (escapedByte a b).bind fun c => (unquote s).map (c :: ·)
  | c :: s => if c = '%' then none else (unquote s).map (c :: ·)

theorem hexVal_hexDigit : ∀ n < 16, hexVal (hexDigit n) = some n := by decide

theorem escapedByte_quoteByte {c : Char} (h : c.toNat < 256) :
    escapedByte (hexDigit (c.toNat / 16)) (hexDigit (c.toNat % 16)) = some c := by
  unfold escapedByte
  rw [hexVal_hexDigit _ (by omega), hexVal_hexDigit _ (by omega), Option.bind_some, Option.map_some,
    show 16 * (c.toNat / 16) + c.toNat % 16 = c.toNat by omega, Char.ofNat_toNat]

theorem isEscape_eq_true {s : List Char} (h : isEscape s = true) :
    ∃ a b x t, s = '%' :: a :: b :: t ∧ escapedByte a b = some x ∧ (hexVal a).isSome ∧ (hexVal b).isSome := by
  unfold isEscape at h
  split at h
  · rename_i a b t
    obtain ⟨x, hx⟩ := Option.isSome_iff_exists.1 h
    obtain ⟨m, hm, hb⟩ := Option.bind_eq_some_iff.1 hx
    obtain ⟨n, hn, -⟩ := Option.map_eq_some_iff.1 hb
    exact ⟨a, b, x, t, rfl, hx, by simp [hm], by simp [hn]⟩
  · cases h

theorem unquote_cons_of_ne {c : Char} (h : c ≠ '%') (s : List Char) : unquote (c :: s) = (unquote s).map (c :: ·) := by
  rw [unquote, if_neg h]
  rintro a b t rfl
  exact absurd rfl h

theorem unquote_append : ∀ {a : List Char}, '%' ∉ a → ∀ s, unquote (a ++ s) = (unquote s).map (a ++ ·)
  | [], _, s => by simp
  | c :: a, h, s => by
    rw [List.mem_cons, not_or] at h
    rw [List.cons_append, unquote_cons_of_ne (Ne.symm h.1), unquote_append h.2, Option.map_map]
    rfl

section Quote
variable {safe : Char → Bool}

theorem quote_cons_of_safe {c : Char} (h : safe c = true) (s : List Char) : quote safe (c :: s) = c :: quote safe s := by
  simp [quote, h]

theorem quote_append_of_safe : ∀ {a : List Char}, (∀ c ∈ a, safe c = true) → ∀ s,
    quote safe (a ++ s) = a ++ quote safe s
  | [], _, _ => rfl
  | c :: a, h, s => by
    rw [List.cons_append, quote_cons_of_safe (h c List.mem_cons_self),
      quote_append_of_safe fun x hx => h x (List.mem_cons_of_mem _ hx)]
    rfl

/-- A safe set has the hexadecimal digits. -/
structure Quotes (safe : Char → Bool) : Prop where
  digits : ∀ c, (hexVal c).isSome → safe c = true

/-- What is sent is of the text, or safe, or starts an escape. -/
theorem mem_quote (h : Quotes safe) : ∀ {s : List Char} {c : Char}, c ∈ quote safe s →
    c ∈ s ∧ safe c = true ∨ c = '%' ∨ (hexVal c).isSome
  | d :: s, c, hc => by
    have hlater : c ∈ quote safe s → c ∈ d :: s ∧ safe c = true ∨ c = '%' ∨ (hexVal c).isSome := fun hc =>
      (mem_quote h hc).imp_left fun hs => ⟨List.mem_cons_of_mem _ hs.1, hs.2⟩
    unfold quote at hc
    split at hc
    · rename_i hd
      rcases List.mem_cons.1 hc with rfl | hc
      · rw [Bool.or_eq_true] at hd
        rcases hd with hd | hd
        · obtain ⟨a, b, x, t, he, -⟩ := isEscape_eq_true hd
          exact .inr (.inl (List.cons_eq_cons.1 he).1)
        · exact .inl ⟨List.mem_cons_self, hd⟩
      · exact hlater hc
    · rcases List.mem_append.1 hc with hc | hc
      · have hdigit : ∀ n < 16, (hexVal (hexDigit n)).isSome := fun n hn => by rw [hexVal_hexDigit n hn]; rfl
        simp only [quoteByte, List.mem_cons, List.not_mem_nil, or_false] at hc
        rcases hc with rfl | rfl | rfl
        · exact .inr (.inl rfl)
        · by_cases hn : d.toNat / 16 < 16
          · exact .inr (.inr (hdigit _ hn))
          · have hzero : hexDigit (d.toNat / 16) = '0' := by
              unfold hexDigit
              rw [List.getD_eq_getElem?_getD, List.getElem?_eq_none (by simpa using hn)]
              rfl
            exact .inr (.inr (hzero ▸ by decide))
        · exact .inr (.inr (hdigit _ (by omega)))
      · exact hlater hc

/-- A digit that is sent stands for itself. -/
theorem of_quote_eq_cons : ∀ {s : List Char} {x : Char} {t : List Char}, quote safe s = x :: t → (hexVal x).isSome →
    ∃ s', s = x :: s' ∧ t = quote safe s'
  | c :: s, x, t, h, hx => by
    unfold quote at h
    split at h
    · cases h
      exact ⟨s, rfl, rfl⟩
    · cases h
      cases hx

/-- A `%` that is sent and starts no escape cannot be undone. -/
theorem unquote_percent {s : List Char} (h : isEscape ('%' :: s) = false) : unquote ('%' :: quote safe s) = none := by
  match hq : quote safe s with
  | [] => rfl
  | [a] => rfl
  | a :: b :: t =>
    have hnone : escapedByte a b = none := by
      by_contra hsome
      obtain ⟨x, hx⟩ := Option.ne_none_iff_exists'.1 hsome
      obtain ⟨m, hm, hb⟩ := Option.bind_eq_some_iff.1 hx
      obtain ⟨n, hn, -⟩ := Option.map_eq_some_iff.1 hb
      obtain ⟨s', rfl, hs'⟩ := of_quote_eq_cons hq (by rw [hm]; rfl)
      obtain ⟨s'', rfl, -⟩ := of_quote_eq_cons hs'.symm (by rw [hn]; rfl)
      rw [isEscape, hx] at h
      cases h
    rw [unquote, hnone]
    rfl

/-- **What arrives** is shorter where the text has escapes of its own. -/
theorem length_le_of_unquote (h : Quotes safe) : ∀ {s d : List Char}, unquote (quote safe s) = some d →
    d.length ≤ s.length ∧ (hasEscape s = true → d.length < s.length)
  | [], d, hd => by
    cases hd
    exact ⟨Nat.le_refl _, fun he => by cases he⟩
  | c :: s, d, hd => by
    by_cases he : isEscape (c :: s) = true
    · -- an escape arrives as one byte
      obtain ⟨a, b, x, t, heq, hx, ha, hb⟩ := isEscape_eq_true he
      cases heq
      rw [quote, if_pos (by simp [he]), quote_cons_of_safe (h.digits a ha), quote_cons_of_safe (h.digits b hb), unquote, hx,
        Option.bind_some] at hd
      obtain ⟨d', hd', rfl⟩ := Option.map_eq_some_iff.1 hd
      have := (length_le_of_unquote h hd').1
      simp only [List.length_cons]
      omega
    · have hescape : hasEscape (c :: s) = hasEscape s := by simp [hasEscape, he]
      obtain ⟨x, d', hd', rfl⟩ : ∃ x d', unquote (quote safe s) = some d' ∧ d = x :: d' := by
        unfold quote at hd
        split at hd
        · by_cases hc : c = '%'
          · rw [hc, unquote_percent (hc ▸ by simpa using he)] at hd
            cases hd
          · rw [unquote_cons_of_ne hc] at hd
            obtain ⟨d', hd', rfl⟩ := Option.map_eq_some_iff.1 hd
            exact ⟨c, d', hd', rfl⟩
        · simp only [quoteByte, List.cons_append, List.nil_append] at hd
          rw [unquote] at hd
          obtain ⟨x, -, hd⟩ := Option.bind_eq_some_iff.1 hd
          obtain ⟨d', hd', rfl⟩ := Option.map_eq_some_iff.1 hd
          exact ⟨x, d', hd', rfl⟩
      rw [hescape]
      simpa using length_le_of_unquote h hd'

/-- **What arrives** of a text without escapes is the text, if every `%` of it is quoted. -/
theorem unquote_quote_iff : ∀ {s : List Char}, (∀ c ∈ s, c.toNat < 256) → hasEscape s = false → ∀ {d : List Char},
    unquote (quote safe s) = some d ↔ d = s ∧ ('%' ∈ s → safe '%' = false)
  | [], _, _, d => by
    rw [quote, unquote, Option.some.injEq, eq_comm]
    exact (and_iff_left fun hm => absurd hm List.not_mem_nil).symm
  | c :: s, hs, hescape, d => by
    rw [hasEscape, Bool.or_eq_false_iff] at hescape
    have ih := fun {d} => unquote_quote_iff (fun y hy => hs y (List.mem_cons_of_mem _ hy)) hescape.2 (d := d)
    have hmap : (unquote (quote safe s)).map (c :: ·) = some d ↔ d = c :: s ∧ ('%' ∈ s → safe '%' = false) := by
      rw [Option.map_eq_some_iff]
      constructor
      · rintro ⟨d', hd', rfl⟩
        exact ⟨by rw [(ih.1 hd').1], (ih.1 hd').2⟩
      · rintro ⟨rfl, hpercent⟩
        exact ⟨s, ih.2 ⟨rfl, hpercent⟩, rfl⟩
    have hmem : c ≠ '%' → ('%' ∈ c :: s ↔ '%' ∈ s) := fun hc => by simp [Ne.symm hc]
    by_cases hsafe : safe c = true
    · rw [quote_cons_of_safe hsafe]
      by_cases hc : c = '%'
      · rw [hc, unquote_percent (hc ▸ hescape.1)]
        refine iff_of_false (fun hn => by cases hn) fun hd => ?_
        have hquoted := hd.2 List.mem_cons_self
        rw [← hc, hsafe] at hquoted
        cases hquoted
      · rw [unquote_cons_of_ne hc, hmap, hmem hc]
    · have hquote : quote safe (c :: s) = quoteByte c ++ quote safe s := if_neg (by simp [hescape.1, hsafe])
      rw [hquote]
      simp only [quoteByte, List.cons_append, List.nil_append]
      rw [unquote, escapedByte_quoteByte (hs c List.mem_cons_self), Option.bind_some, hmap]
      refine and_congr_right fun _ => ?_
      by_cases hc : c = '%'
      · have hfalse : safe '%' = false := by simpa [hc] using hsafe
        simp [hfalse]
      · rw [hmem hc]

/-- A text that is sent without a `%` is sent as it is. -/
theorem quote_eq_self : ∀ {s : List Char}, '%' ∉ quote safe s → quote safe s = s
  | [], _ => rfl
  | c :: s, h => by
    unfold quote at h ⊢
    split at h
    · rename_i hc
      rw [if_pos hc, quote_eq_self fun hm => h (List.mem_cons_of_mem _ hm)]
    · exact absurd (List.mem_append_left _ List.mem_cons_self) h

theorem isEscape_append {x : Char} (hx : hexVal x = none) (hne : x ≠ '%') (b : List Char) : ∀ a : List Char,
    isEscape (a ++ x :: b) = isEscape a
  | [] => by
    unfold isEscape
    split
    · rename_i he
      exact absurd (List.cons_eq_cons.1 he).1 hne
    · rfl
  | [c] => by
    by_cases hc : c = '%'
    · subst hc
      cases b with
      | nil => rfl
      | cons d b => simp [isEscape, escapedByte, hx]
    · simp [isEscape, hc]
  | [c, d] => by
    by_cases hc : c = '%'
    · subst hc
      cases hd : hexVal d <;> simp [isEscape, escapedByte, hx, hd]
    · simp [isEscape, hc]
  | c :: d :: e :: a => by
    by_cases hc : c = '%'
    · subst hc
      rfl
    · simp [isEscape, hc]

/-- A safe character that is no digit separates what is sent. -/
theorem quote_append_cons {x : Char} (hsafe : safe x = true) (hx : hexVal x = none) (hne : x ≠ '%') (b : List Char) :
    ∀ a : List Char, quote safe (a ++ x :: b) = quote safe a ++ x :: quote safe b
  | [] => quote_cons_of_safe hsafe b
  | c :: a => by
    have hescape := isEscape_append hx hne b (c :: a)
    rw [List.cons_append] at hescape ⊢
    rw [quote, quote, hescape, quote_append_cons hsafe hx hne b a]
    split <;> simp

end Quote
end Lib.Percent
