import RepoWatch.Lib.Loop
/-!
# Lib.Agree — two runs that may both fail

Two computations agree when they give the same result wherever both succeed.  What only raises an error agrees with anything
like it, and agreement goes through sequencing and loops, so a program whose settings decide only when it fails gives one
result under all settings.
-/
namespace Lib

variable {α β σ ε : Type}

/-- Where both succeed, the results are the same. -/
def Agree (x y : Except ε α) : Prop := ∀ ⦃a b⦄, x = .ok a → y = .ok b → a = b

namespace Agree
variable {x y : Except ε α}

theorem refl (x : Except ε α) : Agree x x := by
  intro a b ha hb
  rw [ha] at hb
  exact Except.ok.inj hb

theorem of_eq (h : x = y) : Agree x y := h ▸ refl x

theorem symm (h : Agree x y) : Agree y x := fun _ _ hb ha => (h ha hb).symm

/-- A check returns nothing that could differ. -/
theorem check (x y : Except ε Unit) : Agree x y := fun _ _ _ _ => rfl

theorem error_left (e : ε) : Agree (.error e) y := by
  intro a b ha _
  cases ha

theorem error_right (e : ε) : Agree x (.error e) := (error_left e).symm

theorem bind {f g : α → Except ε β} (h : Agree x y) (hfg : ∀ a, Agree (f a) (g a)) : Agree (x >>= f) (y >>= g) := by
  intro b b' hb hb'
  obtain ⟨a, ha, hb⟩ := bind_eq_ok.1 hb
  obtain ⟨a', ha', hb'⟩ := bind_eq_ok.1 hb'
  obtain rfl := h ha ha'
  exact hfg a hb hb'

/-- **What a check pins down**: two inputs that may differ, and agree where both pass. -/
theorem pinned {γ δ : Type} {check : α → Except ε γ} {check' : α → Except ε δ} {f g : α → Except ε β}
    (hpin : ∀ ⦃a a' c c'⦄, x = .ok a → y = .ok a' → check a = .ok c → check' a' = .ok c' → a = a')
    (hfg : ∀ a, Agree (f a) (g a)) :
    Agree (x >>= fun a => check a >>= fun _ => f a) (y >>= fun a => check' a >>= fun _ => g a) := by
  intro b b' hb hb'
  obtain ⟨a, ha, hb⟩ := bind_eq_ok.1 hb
  obtain ⟨a', ha', hb'⟩ := bind_eq_ok.1 hb'
  obtain ⟨c, hc, hb⟩ := bind_eq_ok.1 hb
  obtain ⟨c', hc', hb'⟩ := bind_eq_ok.1 hb'
  obtain rfl := hpin ha ha' hc hc'
  exact hfg a hb hb'

/-- **A computation behind two different guards** that raise. -/
theorem guard {p q : Prop} [Decidable p] [Decidable q] {e e' : ε} (h : Agree x y) :
    Agree (if p then .error e else x) (if q then .error e' else y) := by
  split
  · exact error_left e
  · split
    · exact error_right e'
    · exact h

/-- **A loop whose rounds agree.** -/
theorem foldlM {f g : σ → α → Except ε σ} (h : ∀ s a, Agree (f s a) (g s a)) : ∀ (l : List α) (s : σ),
    Agree (l.foldlM f s) (l.foldlM g s)
  | [], s => refl _
  | a :: l, s => by
    rw [List.foldlM_cons, List.foldlM_cons]
    exact (h s a).bind fun s' => foldlM h l s'

end Agree
end Lib
