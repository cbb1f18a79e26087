import Mathlib.Data.Char
import RepoWatch.Lib.Radix
/-!
# Lib.Dumps — texts that say where they end

What is `Readable` can be told from whatever follows it, so that two values with the same text are the same value
(`Readable.injective`).  The property goes through pairs, through lists with a closing character, and through the escapes
that `json.dumps` writes for everything but printable ASCII (`readable_datum`).
-/
namespace Lib
namespace Dumps

variable {α β γ : Type}

/-- What `w` writes ends where it says, whatever follows. -/
def Readable (w : α → List β) : Prop := ∀ ⦃a b : α⦄ ⦃s t : List β⦄, w a ++ s = w b ++ t → a = b ∧ s = t

namespace Readable
variable {v : α → List β} {w : γ → List β}

theorem injective (h : Readable v) : Function.Injective v := fun a b hab =>
  (h (show v a ++ [] = v b ++ [] by rw [hab])).1

/-- A text that a reader takes back is readable. -/
theorem of_read (read : List β → Option (α × List β)) (h : ∀ a s, read (v a ++ s) = some (a, s)) : Readable v := by
  intro a b s t heq
  have hread := h a s
  rw [heq, h b t] at hread
  cases hread
  exact ⟨rfl, rfl⟩

theorem pair (hv : Readable v) (hw : Readable w) : Readable fun p : α × γ => v p.1 ++ w p.2 := by
  intro p q s t heq
  simp only [List.append_assoc] at heq
  obtain ⟨hfst, heq⟩ := hv heq
  obtain ⟨hsnd, heq⟩ := hw heq
  exact ⟨Prod.ext hfst hsnd, heq⟩

theorem after (hv : Readable v) (opening : List β) : Readable fun a => opening ++ v a := by
  intro a b s t heq
  simp only [List.append_assoc, List.append_cancel_left_eq] at heq
  exact hv heq

/-- **Items up to a closing character** that no item begins with. -/
theorem closed (hv : Readable v) {stop : β} (hstop : ∀ a s t, v a ++ s ≠ stop :: t) :
    Readable fun l : List α => l.flatMap v ++ [stop] := by
  intro l
  induction l with
  | nil =>
    intro m s t heq
    cases m with
    | nil => exact ⟨rfl, (List.cons.inj heq).2⟩
    | cons b m =>
      simp only [List.flatMap_cons, List.append_assoc] at heq
      exact absurd heq.symm (hstop b _ s)
  | cons a l ih =>
    intro m s t heq
    cases m with
    | nil =>
      simp only [List.flatMap_cons, List.append_assoc] at heq
      exact absurd heq (hstop a _ t)
    | cons b m =>
      simp only [List.flatMap_cons, List.append_assoc] at heq
      obtain ⟨rfl, heq⟩ := hv heq
      obtain ⟨rfl, hst⟩ := ih (show l.flatMap v ++ [stop] ++ s = m.flatMap v ++ [stop] ++ t by simpa using heq)
      exact ⟨rfl, hst⟩

end Readable

/-- The items between brackets, as `json.dumps` separates them. -/
def bracketed (opening closing : Char) (w : α → List Char) (l : List α) : List Char :=
  opening :: (", ".toList.intercalate (l.map w) ++ [closing])

theorem intercalate_cons (sep a : List β) : ∀ l : List (List β), sep.intercalate (a :: l) = a ++ l.flatMap fun b => sep ++ b
  | [] => by simp [List.intercalate]
  | b :: l => by
    rw [List.intercalate_cons_cons, intercalate_cons sep b l, List.flatMap_cons, List.append_assoc, List.append_assoc]

/-- **A list between brackets** whose items do not begin with the closing one. -/
theorem readable_bracketed {w : α → List Char} (hw : Readable w) (opening : Char) {closing : Char} (hcomma : closing ≠ ',')
    (hclosing : ∀ a s t, w a ++ s ≠ closing :: t) : Readable (bracketed opening closing w) := by
  have hitems : Readable fun l : List α => l.flatMap (fun a => ", ".toList ++ w a) ++ [closing] :=
    (hw.after ", ".toList).closed fun a s t heq => hcomma (List.cons.inj heq).1.symm
  have hcons : ∀ a (l : List α) s, ", ".toList.intercalate ((a :: l).map w) ++ [closing] ++ s =
      w a ++ (l.flatMap (fun a => ", ".toList ++ w a) ++ [closing] ++ s) := fun a l s => by
    rw [List.map_cons, intercalate_cons, List.flatMap_map]
    simp only [List.append_assoc]
  have hinner : Readable fun l : List α => ", ".toList.intercalate (l.map w) ++ [closing] := ?inner
  · exact hinner.after [opening]
  intro l m s t heq
  dsimp only at heq
  cases l with
  | nil =>
    cases m with
    | nil => exact ⟨rfl, (List.cons.inj heq).2⟩
    | cons b m =>
      rw [hcons] at heq
      exact absurd heq.symm (hclosing b _ s)
  | cons a l =>
    cases m with
    | nil =>
      rw [hcons] at heq
      exact absurd heq (hclosing a _ t)
    | cons b m =>
      rw [hcons, hcons] at heq
      obtain ⟨rfl, hrest⟩ := hw heq
      obtain ⟨rfl, hst⟩ := hitems hrest
      exact ⟨rfl, hst⟩

/-! ## Strings -/

def hexDigits : List Char := "0123456789abcdef".toList

/-- `'\\u{0:04x}'.format(n)`. -/
def escapeUnit (n : Nat) : List Char := '\\' :: 'u' :: (Radix.digits 16 4 n).map fun d => hexDigits.getD d '0'

/-- The characters with an escape of their own. -/
def escapes : List (Char × Char) :=
  [('"', '"'), ('\\', '\\'), ('\n', 'n'), ('\r', 'r'), ('\t', 't'), ('\x0c', 'f'), ('\x08', 'b')]

/-- How `json.dumps` writes a character: beyond ASCII by its UTF-16 code units. -/
def escapeChar (c : Char) : List Char :=
  match escapes.find? fun p => p.1 == c with
  | some (_, e) => ['\\', e]
  | none =>
    if 0x20 ≤ c.toNat ∧ c.toNat ≤ 0x7e then [c]
    else if c.toNat < 0x10000 then escapeUnit c.toNat
    else escapeUnit (0xd800 + (c.toNat - 0x10000) / 0x400) ++ escapeUnit (0xdc00 + (c.toNat - 0x10000) % 0x400)

/-- `json.dumps` of a string. -/
def dumpsText (s : List Char) : List Char := '"' :: (s.flatMap escapeChar ++ ['"'])

def readUnit : List Char → Option (Nat × List Char)
  | '\\' :: 'u' :: a :: b :: c :: d :: s => some (Radix.value 16 ([a, b, c, d].map hexDigits.idxOf), s)
  | _ => none

/-- The character that a text begins with. -/
def readChar (s : List Char) : Option (Char × List Char) :=
  match readUnit s with
  | some (n, s) =>
    if 0xd800 ≤ n ∧ n < 0xdc00 then
      (readUnit s).map fun p => (Char.ofNat (0x10000 + (n - 0xd800) * 0x400 + (p.1 - 0xdc00)), p.2)
    else some (Char.ofNat n, s)
  | none =>
    match s with
    | '\\' :: e :: s => (escapes.find? fun p => p.2 == e).map fun p => (p.1, s)
    | c :: s => some (c, s)
    | [] => none

theorem idxOf_hexDigits : ∀ d < 16, hexDigits.idxOf (hexDigits.getD d '0') = d := by decide

theorem readUnit_escapeUnit {n : Nat} (h : n < 0x10000) (s : List Char) : readUnit (escapeUnit n ++ s) = some (n, s) := by
  have hdigits := Radix.lt_of_mem_digits (show 0 < 16 by decide) 4 n
  have hlength := Radix.length_digits 16 4 n
  have hvalue : Radix.value 16 (Radix.digits 16 4 n) = n := Radix.value_digits h
  unfold escapeUnit
  generalize Radix.digits 16 4 n = ds at hdigits hlength hvalue
  match ds, hlength with
  | [a, b, c, d], _ =>
    have hback : ([a, b, c, d].map fun d => hexDigits.getD d '0').map hexDigits.idxOf = [a, b, c, d] := by
      rw [List.map_map]
      exact (List.map_congr_left fun d hd => idxOf_hexDigits d (hdigits d hd)).trans (List.map_id _)
    rw [← hvalue]
    refine (congrArg (fun l => some (Radix.value 16 l, s)) hback :)

/-- **A character is read back** from its escape. -/
theorem readChar_escapeChar (c : Char) (s : List Char) : readChar (escapeChar c ++ s) = some (c, s) := by
  unfold escapeChar
  split
  · rename_i c' e hfind
    have hmem := List.mem_of_find?_eq_some hfind
    obtain rfl : c' = c := by simpa using List.find?_some hfind
    simp only [escapes, List.mem_cons, Prod.mk.injEq, List.not_mem_nil, or_false] at hmem
    rcases hmem with ⟨rfl, rfl⟩ | ⟨rfl, rfl⟩ | ⟨rfl, rfl⟩ | ⟨rfl, rfl⟩ | ⟨rfl, rfl⟩ | ⟨rfl, rfl⟩ | ⟨rfl, rfl⟩ <;> rfl
  · rename_i hfind
    have hslash : c ≠ '\\' := fun h => by rw [h] at hfind; exact absurd hfind (by decide)
    have hvalid : c.toNat < 0xd800 ∨ 0xdfff < c.toNat ∧ c.toNat < 0x110000 := c.valid
    split
    · have hunit : readUnit (c :: s) = none := by
        unfold readUnit
        split
        · rename_i heq
          exact absurd (List.cons.inj heq).1 hslash
        · rfl
      unfold readChar
      rw [List.singleton_append, hunit]
      dsimp only
      split
      · rename_i heq
        exact absurd (List.cons.inj heq).1 hslash
      · rename_i heq
        obtain ⟨rfl, rfl⟩ := List.cons.inj heq
        rfl
      · rename_i heq
        cases heq
    · split
      · rename_i hsmall
        unfold readChar
        rw [readUnit_escapeUnit hsmall]
        dsimp only
        rw [if_neg (by omega), Char.ofNat_toNat]
      · rename_i hlarge
        have hhigh : 0xd800 + (c.toNat - 0x10000) / 0x400 < 0x10000 := by omega
        have hlow : 0xdc00 + (c.toNat - 0x10000) % 0x400 < 0x10000 := by omega
        have hcode : 0x10000 + (0xd800 + (c.toNat - 0x10000) / 0x400 - 0xd800) * 0x400 +
            (0xdc00 + (c.toNat - 0x10000) % 0x400 - 0xdc00) = c.toNat := by omega
        unfold readChar
        rw [List.append_assoc, readUnit_escapeUnit hhigh]
        dsimp only
        rw [if_pos (by omega), readUnit_escapeUnit hlow, Option.map_some, hcode, Char.ofNat_toNat]

theorem readable_escapeChar : Readable escapeChar := .of_read readChar readChar_escapeChar

/-- An escape does not begin with a quote. -/
theorem escapeChar_ne_quote (c : Char) (s t : List Char) : escapeChar c ++ s ≠ '"' :: t := by
  intro heq
  have hhead : (escapeChar c ++ s).head? = some '"' := by rw [heq]; rfl
  unfold escapeChar at hhead
  split at hhead
  · cases hhead
  · rename_i hfind
    split at hhead
    · obtain rfl : c = '"' := Option.some.inj hhead
      exact absurd hfind (by decide)
    · split at hhead <;> cases hhead

theorem readable_text : Readable dumpsText := (readable_escapeChar.closed escapeChar_ne_quote).after ['"']

theorem dumpsText_ne {c : Char} (h : c ≠ '"') (x s t : List Char) : dumpsText x ++ s ≠ c :: t :=
  fun heq => h (List.cons.inj heq).1.symm

/-! ## Values -/

/-- A JSON value of the shapes that an entry of a record has. -/
inductive Datum where
  | null
  | text (s : List Char)
  | list (items : List (List Char))
  | dict (pairs : List (List Char × List Char))
  deriving DecidableEq

/-- A key and its value. -/
def dumpsPair (w : α → List Char) (p : List Char × α) : List Char := dumpsText p.1 ++ (": ".toList ++ w p.2)

def Datum.dumps : Datum → List Char
  | .null => "null".toList
  | .text s => dumpsText s
  | .list items => bracketed '[' ']' dumpsText items
  | .dict pairs => bracketed '{' '}' (dumpsPair dumpsText) pairs

theorem readable_pair {w : α → List Char} (hw : Readable w) : Readable (dumpsPair w) :=
  readable_text.pair (hw.after ": ".toList)

theorem dumpsPair_ne {w : α → List Char} {c : Char} (h : c ≠ '"') (p : List Char × α) (s t : List Char) :
    dumpsPair w p ++ s ≠ c :: t := fun heq => h (List.cons.inj heq).1.symm

theorem readable_list : Readable (bracketed '[' ']' dumpsText) :=
  readable_bracketed readable_text '[' (by decide) (dumpsText_ne (by decide))

theorem readable_object {w : α → List Char} (hw : Readable w) : Readable (bracketed '{' '}' (dumpsPair w)) :=
  readable_bracketed (readable_pair hw) '{' (by decide) (dumpsPair_ne (by decide))

/-- The character that a value begins with. -/
def Datum.opening : Datum → Char
  | .null => 'n'
  | .text _ => '"'
  | .list _ => '['
  | .dict _ => '{'

theorem head_dumps (d : Datum) (s : List Char) : (d.dumps ++ s).head? = some d.opening := by
  cases d <;> rfl

/-- **A value is told from what follows it**: its first character says its shape. -/
theorem readable_datum : Readable Datum.dumps := by
  intro a b s t heq
  have hopening : a.opening = b.opening := by
    have hhead := congrArg List.head? heq
    rw [head_dumps, head_dumps] at hhead
    exact Option.some.inj hhead
  cases a <;> cases b <;> simp [Datum.opening] at hopening
  case null.null => exact ⟨rfl, List.append_cancel_left heq⟩
  case text.text x y =>
    obtain ⟨rfl, hst⟩ := readable_text heq
    exact ⟨rfl, hst⟩
  case list.list l m =>
    obtain ⟨rfl, hst⟩ := readable_list heq
    exact ⟨rfl, hst⟩
  case dict.dict l m =>
    obtain ⟨rfl, hst⟩ := readable_object readable_text heq
    exact ⟨rfl, hst⟩

/-- `json.dumps` of a record. -/
def dumps (fields : List (List Char × Datum)) : List Char := bracketed '{' '}' (dumpsPair Datum.dumps) fields

theorem dumps_injective : Function.Injective dumps := (readable_object readable_datum).injective

end Dumps
end Lib
