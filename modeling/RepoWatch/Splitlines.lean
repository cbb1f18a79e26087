import RepoWatch.Narinfo
/-!
# Splitlines — the lines of a text that is cut at a line feed

A line feed ends a line whatever precedes it, so that a text can be split into lines piece by piece if each piece ends with
one (`splitlines_append`).
-/
namespace RepoWatch

open Lib

theorem splitlinesFrom_cons {c : Char} {s : Str} (line : Str) (h : c = '\r' → s.head? ≠ some '\n') :
    splitlinesFrom line (c :: s) =
      if isLineBreak c then line :: splitlinesFrom [] s else splitlinesFrom (line ++ [c]) s := by
  rw [splitlinesFrom]
  rintro s' rfl rfl
  exact h rfl rfl

theorem splitlinesFrom_append (b : Str) : ∀ a line : Str,
    splitlinesFrom line (a ++ '\n' :: b) = splitlinesFrom line (a ++ ['\n']) ++ splitlines b
  | [], line => by
    have hbreak : isLineBreak '\n' = true := rfl
    rw [List.nil_append, List.nil_append, splitlinesFrom_cons line (absurd · (by decide)),
      splitlinesFrom_cons line (absurd · (by decide)),
      if_pos hbreak, if_pos hbreak]
    rfl
  | c :: a, line => by
    by_cases hcr : c = '\r' ∧ (a ++ '\n' :: b).head? = some '\n'
    · obtain ⟨rfl, hhead⟩ := hcr
      cases a with
      | nil => rfl
      | cons x a =>
        cases hhead
        exact congrArg (line :: ·) (splitlinesFrom_append b a [])
    · have hhead : ∀ d : Str, c = '\r' → (a ++ '\n' :: d).head? ≠ some '\n' := by
        intro d hc hd
        refine hcr ⟨hc, ?_⟩
        cases a with
        | nil => rfl
        | cons x a => exact hd
      rw [List.cons_append, List.cons_append, splitlinesFrom_cons line (hhead b), splitlinesFrom_cons line (hhead []),
        splitlinesFrom_append b a, splitlinesFrom_append b a]
      split <;> rfl

/-- **A piece that ends with a line feed** is split on its own. -/
theorem splitlines_append (a b : Str) : splitlines (a ++ '\n' :: b) = splitlines (a ++ ['\n']) ++ splitlines b :=
  splitlinesFrom_append b a []

theorem ne_return {c : Char} (h : isLineBreak c = false) : c ≠ '\r' := by
  rintro rfl
  cases h

theorem splitlinesFrom_clean : ∀ l line : Str, (∀ c ∈ l, isLineBreak c = false) →
    splitlinesFrom line l = if line ++ l = [] then [] else [line ++ l]
  | [], line, _ => by rw [splitlinesFrom, List.append_nil]
  | c :: l, line, h => by
    obtain ⟨hc, hl⟩ := List.forall_mem_cons.1 h
    rw [splitlinesFrom_cons line fun hr => absurd hr (ne_return hc), hc, if_neg Bool.false_ne_true,
      splitlinesFrom_clean l _ hl, List.append_assoc]
    rfl

/-- A line without a break, and what follows the line feed after it. -/
theorem splitlinesFrom_clean_cons (b : Str) : ∀ l line : Str, (∀ c ∈ l, isLineBreak c = false) →
    splitlinesFrom line (l ++ '\n' :: b) = (line ++ l) :: splitlines b
  | [], line, _ => by
    have hbreak : isLineBreak '\n' = true := rfl
    rw [List.nil_append, splitlinesFrom_cons line (absurd · (by decide)), if_pos hbreak, List.append_nil]
    rfl
  | c :: l, line, h => by
    obtain ⟨hc, hl⟩ := List.forall_mem_cons.1 h
    rw [List.cons_append, splitlinesFrom_cons line fun hr => absurd hr (ne_return hc), hc, if_neg Bool.false_ne_true,
      splitlinesFrom_clean_cons b l _ hl, List.append_assoc]
    rfl

theorem splitlines_clean {l : Str} (h : ∀ c ∈ l, isLineBreak c = false) : splitlines l = if l = [] then [] else [l] :=
  splitlinesFrom_clean l [] h

theorem splitlines_clean_cons {l : Str} (h : ∀ c ∈ l, isLineBreak c = false) (b : Str) :
    splitlines (l ++ '\n' :: b) = l :: splitlines b :=
  splitlinesFrom_clean_cons b l [] h

end RepoWatch
