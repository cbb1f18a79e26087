import RepoWatch.Lib.Lines
import RepoWatch.Lib.Utf8
import RepoWatch.Splitlines
/-!
# Gentoo — the index of a binary package host, read in slices

`lines` decodes and splits the index slice by slice.  A slice ends right after a line feed, where neither a character nor
a line break can be cut, so that the size of the slices does not matter (`lines_eq_splitlines`).
-/
namespace RepoWatch
namespace Gentoo

open Lib.Utf8

/-- What a generator yields, and whether it then raises a `UnicodeDecodeError`. -/
structure Generated where
  yielded : List Str
  raised : Bool
  deriving DecidableEq

/-- `yield from`. -/
def Generated.after (ls : List Str) (g : Generated) : Generated := { g with yielded := ls ++ g.yielded }

section
variable (scanSlice : Nat) (raw : Bytes)

/-- The end of the slice at `position`: right after a line feed, or the end. -/
def sliceStop (position : Nat) : Nat :=
  match (raw.drop (position + scanSlice)).idxOf? 10 with
  | some n => position + scanSlice + n + 1
  | none => raw.length

def linesFrom (position : Nat) : Generated :=
  if position < raw.length then
    match decodeStrict (raw.extract position (sliceStop scanSlice raw position)) with
    | none => ⟨[], true⟩
    | some text => (linesFrom (sliceStop scanSlice raw position)).after (splitlines text)
  else ⟨[[]], false⟩
termination_by raw.length - position
decreasing_by
  have hstop : position < sliceStop scanSlice raw position := by
    unfold sliceStop
    split <;> omega
  omega

/-- `_lines`. -/
def lines : Generated := linesFrom scanSlice raw 0

end

/-! ## Slices -/

section
variable {scanSlice position : Nat} {raw : Bytes}

theorem lt_sliceStop (h : position < raw.length) : position < sliceStop scanSlice raw position := by
  unfold sliceStop
  split <;> omega

/-- **A slice is the last or ends with a line feed.** -/
theorem sliceStop_spec (scanSlice : Nat) (raw : Bytes) (position : Nat) :
    sliceStop scanSlice raw position = raw.length ∨
      ∃ as, raw.extract position (sliceStop scanSlice raw position) = as ++ [10] := by
  unfold sliceStop
  split
  · rename_i n hn
    have hfeed := Lib.getElem?_of_idxOf? hn
    have hlength : position + scanSlice + n + 1 - position = scanSlice + n + 1 := by omega
    rw [List.getElem?_drop, Nat.add_assoc, ← List.getElem?_drop] at hfeed
    refine .inr ⟨(raw.drop position).take (scanSlice + n), ?_⟩
    rw [List.extract_eq_take_drop, hlength, List.take_add_one, hfeed]
    rfl
  · exact .inl rfl

theorem sliceStop_le : sliceStop scanSlice raw position ≤ raw.length := by
  unfold sliceStop
  split
  · rename_i n hn
    obtain ⟨hlt, -⟩ := List.getElem?_eq_some_iff.1 (Lib.getElem?_of_idxOf? hn)
    rw [List.length_drop] at hlt
    omega
  · exact Nat.le_refl _

/-- A slice is decoded apart from what follows it. -/
theorem decodeStrict_drop (h : position < raw.length) {text : Str} :
    decodeStrict (raw.drop position) = some text ↔
      ∃ s₁ s₂, decodeStrict (raw.extract position (sliceStop scanSlice raw position)) = some s₁ ∧
        decodeStrict (raw.drop (sliceStop scanSlice raw position)) = some s₂ ∧ text = s₁ ++ s₂ := by
  rw [← Lib.extract_append_drop (Nat.le_of_lt (@lt_sliceStop scanSlice position raw h)) raw]
  rcases sliceStop_spec scanSlice raw position with hstop | ⟨as, has⟩
  · rw [hstop, List.drop_length, List.append_nil, decodeStrict_nil]
    constructor
    · intro htext
      exact ⟨text, [], htext, rfl, (List.append_nil text).symm⟩
    · rintro ⟨s₁, s₂, hs, hnil, rfl⟩
      cases hnil
      rwa [List.append_nil]
  · rw [has]
    exact decodeStrict_concat_append (by decide)

/-- A slice is split apart from what follows it. -/
theorem splitlines_slice {s₁ s₂ : Str}
    (h₁ : decodeStrict (raw.extract position (sliceStop scanSlice raw position)) = some s₁)
    (h₂ : decodeStrict (raw.drop (sliceStop scanSlice raw position)) = some s₂) :
    splitlines (s₁ ++ s₂) = splitlines s₁ ++ splitlines s₂ := by
  rcases sliceStop_spec scanSlice raw position with hstop | ⟨as, has⟩
  · rw [hstop, List.drop_length, decodeStrict_nil] at h₂
    cases h₂
    rw [List.append_nil]
    exact (List.append_nil _).symm
  · rw [has] at h₁
    obtain ⟨s, -, rfl⟩ := (decodeStrict_concat (by decide)).1 h₁
    rw [List.append_assoc]
    exact splitlines_append s s₂

/-- The slices from `position` on give the lines of what is left, and fail exactly if it does not decode. -/
theorem linesFrom_spec (h : position ≤ raw.length) :
    (∀ text, decodeStrict (raw.drop position) = some text → linesFrom scanSlice raw position = ⟨splitlines text ++ [[]], false⟩) ∧
      ((linesFrom scanSlice raw position).raised = true ↔ decodeStrict (raw.drop position) = none) := by
  revert h
  fun_induction linesFrom scanSlice raw position with
  | case1 position h hnone =>
    intro _
    have hdamaged : decodeStrict (raw.drop position) = none := by
      refine Option.eq_none_iff_forall_ne_some.2 fun text htext => ?_
      obtain ⟨s₁, s₂, hs, -⟩ := (decodeStrict_drop h).1 htext
      rw [hnone] at hs
      cases hs
    refine ⟨fun text htext => ?_, fun _ => hdamaged, fun _ => rfl⟩
    rw [hdamaged] at htext
    cases htext
  | case2 position h text htext ih =>
    intro _
    obtain ⟨hlines, hraised⟩ := ih sliceStop_le
    constructor
    · intro whole hwhole
      obtain ⟨s₁, s₂, hs, hrest, rfl⟩ := (decodeStrict_drop h).1 hwhole
      obtain rfl : text = s₁ := Option.some.inj (htext.symm.trans hs)
      rw [hlines s₂ hrest, splitlines_slice hs hrest, List.append_assoc]
      rfl
    · refine hraised.trans ⟨fun hrest => ?_, fun hwhole => ?_⟩
      · refine Option.eq_none_iff_forall_ne_some.2 fun whole hwhole => ?_
        obtain ⟨s₁, s₂, -, hs, -⟩ := (decodeStrict_drop h).1 hwhole
        rw [hrest] at hs
        cases hs
      · refine Option.eq_none_iff_forall_ne_some.2 fun rest hrest => ?_
        rw [(decodeStrict_drop h).2 ⟨text, rest, htext, hrest, rfl⟩] at hwhole
        cases hwhole
  | case3 position h =>
    intro hle
    obtain rfl : position = raw.length := Nat.le_antisymm hle (Nat.le_of_not_lt h)
    rw [List.drop_length, decodeStrict_nil]
    refine ⟨fun text htext => ?_, fun hraised => absurd hraised (by decide), fun hnone => by cases hnone⟩
    cases htext
    rfl

end

/-- **Slices do not change the lines.**  Whatever the size of the slices, a document that decodes gives its lines and an
empty one; and the generator raises a decoding error exactly if the document does not decode. -/
theorem lines_eq_splitlines (scanSlice : Nat) (raw : Bytes) :
    (∀ text, decodeStrict raw = some text → lines scanSlice raw = ⟨splitlines text ++ [[]], false⟩) ∧
      ((lines scanSlice raw).raised = true ↔ decodeStrict raw = none) :=
  linesFrom_spec (Nat.zero_le _)

/-- A carriage return and a line feed next to the end of a slice. -/
theorem lines_eq_splitlines_crlf : lines 1 [97, 13, 10, 98] = ⟨[['a'], ['b'], []], false⟩ :=
  (lines_eq_splitlines 1 [97, 13, 10, 98]).1 ['a', '\r', '\n', 'b'] (decodeStrict_eq_some.2 rfl)

end Gentoo
end RepoWatch
