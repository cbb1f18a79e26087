import Mathlib.Data.List.Induction
/-!
# Lib.Run — finite runs of a labelled transition system

`Run step s as s'` is a run from `s` to `s'` through the actions `as`.  What one step preserves holds at the end of every
run (`Run.invariant`), and what one step preserves of the actions so far and the state holds of the whole run
(`Run.history`).  What actions add and remove is there as long as nothing has removed it since (`Run.mem_iff`).  A run can
be cut anywhere (`Run.split`), and when the step is a partial function it is that function folded over the actions
(`run_iff_foldlM`).
-/
namespace Lib

variable {σ α : Type}

inductive Run (step : σ → α → σ → Prop) : σ → List α → σ → Prop
  | nil (s : σ) : Run step s [] s
  | snoc {s s' s'' : σ} {as : List α} {a : α} : Run step s as s' → step s' a s'' → Run step s (as ++ [a]) s''

namespace Run
variable {step : σ → α → σ → Prop} {s s' s'' : σ} {as bs : List α}

theorem invariant (Inv : σ → Prop) (hstep : ∀ s a s', Inv s → step s a s' → Inv s') (h : Run step s as s')
    (h₀ : Inv s) : Inv s' := by
  induction h with
  | nil => exact h₀
  | snoc _ hs ih => exact hstep _ _ _ ih hs

/-- **What each step preserves of the actions so far and the state** holds at the end of the run. -/
theorem history (P : List α → σ → Prop) (h₀ : P [] s)
    (hstep : ∀ as s₁ a s₂, Run step s as s₁ → P as s₁ → step s₁ a s₂ → P (as ++ [a]) s₂) (h : Run step s as s') :
    P as s' := by
  induction h with
  | nil => exact h₀
  | snoc hr hs ih => exact hstep _ _ _ _ hr ih hs

theorem append (h : Run step s as s') (h' : Run step s' bs s'') : Run step s (as ++ bs) s'' := by
  induction h' with
  | nil => rwa [List.append_nil]
  | snoc _ hs ih =>
    rw [← List.append_assoc]
    exact .snoc ih hs

theorem cons {a : α} (h : step s a s') (h' : Run step s' as s'') : Run step s (a :: as) s'' :=
  have h₁ : Run step s ([] ++ [a]) s' := .snoc (.nil s) h
  append h₁ h'

theorem snoc_inv {a : α} (h : Run step s (as ++ [a]) s'') : ∃ s', Run step s as s' ∧ step s' a s'' := by
  generalize hcs : as ++ [a] = cs at h
  cases h with
  | nil => simp at hcs
  | snoc hr hs =>
    obtain ⟨rfl, ha⟩ := List.append_inj' hcs rfl
    cases ha
    exact ⟨_, hr, hs⟩

theorem nil_inv (h : Run step s [] s') : s' = s := by
  generalize hcs : ([] : List α) = cs at h
  cases h with
  | nil => rfl
  | snoc => simp at hcs

/-- **A run can be cut anywhere.** -/
theorem split (h : Run step s (as ++ bs) s'') : ∃ s', Run step s as s' ∧ Run step s' bs s'' := by
  induction bs using List.reverseRecOn generalizing s'' with
  | nil => exact ⟨s'', by simpa using h, .nil _⟩
  | append_singleton bs b ih =>
    rw [← List.append_assoc] at h
    obtain ⟨s₁, h₁, hs⟩ := snoc_inv h
    obtain ⟨s', hs', hb⟩ := ih h₁
    exact ⟨s', hs', .snoc hb hs⟩

/-- The step that an action of a run is. -/
theorem step_of_mem {a : α} (h : Run step s (as ++ a :: bs) s'') :
    ∃ s₁ s₂, Run step s as s₁ ∧ step s₁ a s₂ ∧ Run step s₂ bs s'' := by
  rw [List.append_cons] at h
  obtain ⟨s₂, h₂, h₃⟩ := split h
  obtain ⟨s₁, h₁, hs⟩ := snoc_inv h₂
  exact ⟨s₁, s₂, h₁, hs, h₃⟩

end Run

section
variable {ρ : Type} {P : σ → ρ → Prop} {adds keeps : α → ρ → Prop}

/-- **What is there at the end of a run**: something was added and every later action has kept it. -/
theorem Run.mem_iff {step : σ → α → σ → Prop} {s s' : σ} {as : List α} {r : ρ}
    (hstep : ∀ s a s', step s a s' → (P s' r ↔ adds a r ∨ (P s r ∧ keeps a r))) (h : Run step s as s') (h₀ : ¬ P s r) :
    P s' r ↔ ∃ before a after, as = before ++ a :: after ∧ adds a r ∧ ∀ b ∈ after, keeps b r := by
  induction h with
  | nil => exact iff_of_false h₀ fun ⟨before, a, after, hsplit, _⟩ => by simp at hsplit
  | @snoc s₁ s₂ as a hrun hs ih =>
    rw [hstep _ _ _ hs, ih]
    constructor
    · rintro (hadds | ⟨⟨before, b, after, rfl, hadds, hkept⟩, hkeeps⟩)
      · exact ⟨as, a, [], rfl, hadds, by simp⟩
      · refine ⟨before, b, after ++ [a], by simp, hadds, fun c hc => ?_⟩
        rcases List.mem_append.1 hc with hc | hc
        · exact hkept c hc
        · rw [List.mem_singleton.1 hc]
          exact hkeeps
    · rintro ⟨before, b, after, hsplit, hadds, hkept⟩
      rcases List.eq_nil_or_concat after with rfl | ⟨after, c, rfl⟩
      · obtain ⟨-, hab⟩ := List.append_inj' hsplit rfl
        obtain rfl := (List.cons.inj hab).1
        exact Or.inl hadds
      · rw [List.concat_eq_append] at hsplit hkept
        obtain ⟨has, hc⟩ := List.append_inj' (show as ++ [a] = (before ++ b :: after) ++ [c] by simpa using hsplit) rfl
        obtain rfl := (List.cons.inj hc).1
        exact Or.inr ⟨⟨before, b, after, has, hadds, fun d hd => hkept d (by simp [hd])⟩, hkept a (by simp)⟩

end

/-- A run of a partial function is that function folded over the actions. -/
theorem run_iff_foldlM {f : σ → α → Option σ} {s s' : σ} {as : List α} :
    Run (fun s a s' => f s a = some s') s as s' ↔ as.foldlM f s = some s' := by
  induction as using List.reverseRecOn generalizing s' with
  | nil => exact ⟨fun h => by rw [Run.nil_inv h]; rfl, fun h => by cases h; exact .nil _⟩
  | append_singleton as a ih =>
    simp only [List.foldlM_append, List.foldlM_cons, List.foldlM_nil, Option.bind_eq_bind, Option.bind_eq_some_iff]
    constructor
    · intro h
      obtain ⟨s₁, h₁, hs⟩ := Run.snoc_inv h
      exact ⟨s₁, ih.1 h₁, s', hs, rfl⟩
    · rintro ⟨s₁, h₁, s₂, hs, hp⟩
      cases hp
      exact .snoc (ih.2 h₁) hs

end Lib
