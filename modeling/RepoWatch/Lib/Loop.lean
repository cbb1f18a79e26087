import Mathlib.Data.List.Basic
/-!
# Lib.Loop — what a loop over a list establishes

A loop is a left fold, and what it establishes is a predicate of the elements already visited and the state reached.
`foldl_inv` and `foldlM_inv` turn what one round preserves into what the whole loop ends with; the second is for rounds
that can fail.
-/
namespace Lib

variable {σ α β ε : Type}

theorem bind_eq_ok {x : Except ε α} {f : α → Except ε β} {b : β} :
    (x >>= f) = .ok b ↔ ∃ a, x = .ok a ∧ f a = .ok b := by
  cases x with
  | error e => simp [bind, Except.bind]
  | ok a => simp [bind, Except.bind]

theorem bind_eq_error {x : Except ε α} {f : α → Except ε β} {e : ε} :
    (x >>= f) = .error e ↔ x = .error e ∨ ∃ a, x = .ok a ∧ f a = .error e := by
  cases x with
  | error e => simp [bind, Except.bind]
  | ok a => simp [bind, Except.bind]

/-- What goes on from a result need only agree where there is one. -/
theorem bind_congr_of_ok {x : Except ε α} {f g : α → Except ε β} (h : ∀ a, x = .ok a → f a = g a) : (x >>= f) = (x >>= g) := by
  cases x with
  | error e => rfl
  | ok a => exact h a rfl

/-- **A map whose elements can fail**: when it succeeds, every element did, and the results are theirs. -/
theorem mem_of_mapM_eq_ok {f : α → Except ε β} : ∀ {l : List α} {bs : List β}, l.mapM f = .ok bs →
    (∀ b ∈ bs, ∃ a ∈ l, f a = .ok b) ∧ ∀ a ∈ l, ∃ b ∈ bs, f a = .ok b
  | [], bs, h => by
    cases h
    simp
  | a :: l, bs, h => by
    rw [List.mapM_cons, bind_eq_ok] at h
    obtain ⟨b, hb, h⟩ := h
    obtain ⟨bs', hbs, h⟩ := bind_eq_ok.1 h
    cases h
    obtain ⟨h1, h2⟩ := mem_of_mapM_eq_ok hbs
    refine ⟨fun x hx => ?_, fun x hx => ?_⟩
    · rcases List.mem_cons.1 hx with rfl | hx
      · exact ⟨a, by simp, hb⟩
      · obtain ⟨y, hy, hf⟩ := h1 x hx
        exact ⟨y, by simp [hy], hf⟩
    · rcases List.mem_cons.1 hx with rfl | hx
      · exact ⟨b, by simp, hb⟩
      · obtain ⟨y, hy, hf⟩ := h2 x hx
        exact ⟨y, by simp [hy], hf⟩

theorem mapM_id_eq_some {β : Type} : ∀ {xs : List (Option β)} {ys : List β}, xs.mapM id = some ys ↔ xs = ys.map some
  | [], ys => by cases ys <;> simp
  | x :: xs, ys => by
    rw [List.mapM_cons]
    cases x with
    | none => cases ys <;> simp
    | some x =>
      cases ys with
      | nil => simp [Option.bind_eq_some_iff]
      | cons y ys =>
        simp only [id_eq, Option.pure_def, Option.bind_eq_bind, Option.bind_some, Option.bind_eq_some_iff,
          Option.some.injEq, List.cons.injEq, List.map_cons, @mapM_id_eq_some β xs]
        constructor
        · rintro ⟨zs, hzs, rfl, rfl⟩
          exact ⟨rfl, hzs⟩
        · rintro ⟨rfl, hys⟩
          exact ⟨ys, hys, rfl, rfl⟩

/-- **A map of options** succeeds when all of them are there, with what they hold. -/
theorem mapM_eq_some_iff {f : α → Option β} : ∀ {l : List α} {ys : List β},
    l.mapM f = some ys ↔ (∀ x ∈ l, (f x).isSome) ∧ ys = l.filterMap f
  | [], ys => ⟨fun h => ⟨fun _ hx => (nomatch hx), (Option.some.inj h).symm⟩, fun h => congrArg some h.2.symm⟩
  | x :: l, ys => by
    rw [List.mapM_cons, List.forall_mem_cons]
    cases hx : f x with
    | none => exact ⟨fun h => (nomatch h), fun h => (nomatch h.1.1)⟩
    | some y =>
      rw [List.filterMap_cons_some hx]
      change ((l.mapM f).bind fun zs => some (y :: zs)) = some ys ↔ _
      constructor
      · intro h
        obtain ⟨zs, hzs, h⟩ := Option.bind_eq_some_iff.1 h
        obtain ⟨hall, rfl⟩ := mapM_eq_some_iff.1 hzs
        exact ⟨⟨rfl, hall⟩, (Option.some.inj h).symm⟩
      · rintro ⟨⟨_, hall⟩, rfl⟩
        exact Option.bind_eq_some_iff.2 ⟨_, mapM_eq_some_iff.2 ⟨hall, rfl⟩, rfl⟩

theorem mapM_ok {f : α → Except ε β} : ∀ {l : List α}, (∀ a ∈ l, ∃ b, f a = .ok b) → ∃ bs, l.mapM f = .ok bs
  | [], _ => ⟨[], rfl⟩
  | a :: l, h => by
    obtain ⟨b, hb⟩ := h a List.mem_cons_self
    obtain ⟨bs, hbs⟩ := mapM_ok fun x hx => h x (List.mem_cons_of_mem _ hx)
    exact ⟨b :: bs, by rw [List.mapM_cons, hb, hbs]; rfl⟩

/-- A map whose elements all succeed with a property succeeds with it, element by element. -/
theorem mapM_forall₂ {f : α → Except ε β} {R : α → β → Prop} : ∀ {l : List α}, (∀ a ∈ l, ∃ b, f a = .ok b ∧ R a b) →
    ∃ bs, l.mapM f = .ok bs ∧ List.Forall₂ R l bs
  | [], _ => ⟨[], rfl, .nil⟩
  | a :: l, h => by
    obtain ⟨b, hb, hab⟩ := h a List.mem_cons_self
    obtain ⟨bs, hbs, hall⟩ := mapM_forall₂ fun x hx => h x (List.mem_cons_of_mem _ hx)
    exact ⟨b :: bs, by rw [List.mapM_cons, hb, hbs]; rfl, .cons hab hall⟩

theorem foldl_inv_from (P : List α → σ → Prop) (f : σ → α → σ)
    (hstep : ∀ pre a s, P pre s → P (pre ++ [a]) (f s a)) : ∀ (l pre : List α) (s : σ), P pre s → P (pre ++ l) (l.foldl f s)
  | [], pre, s, h => by simpa using h
  | a :: l, pre, s, h => by
    have := foldl_inv_from P f hstep l (pre ++ [a]) (f s a) (hstep pre a s h)
    simpa using this

/-- **A loop that cannot fail**: what each round preserves holds of the whole list. -/
theorem foldl_inv (P : List α → σ → Prop) {f : σ → α → σ} {z : σ} (h₀ : P [] z)
    (hstep : ∀ pre a s, P pre s → P (pre ++ [a]) (f s a)) (l : List α) : P l (l.foldl f z) :=
  foldl_inv_from P f hstep l [] z h₀

theorem foldlM_inv_from (P : List α → σ → Prop) (f : σ → α → Except ε σ)
    (hstep : ∀ pre a s s', P pre s → f s a = .ok s' → P (pre ++ [a]) s') :
    ∀ (l pre : List α) (s s' : σ), P pre s → l.foldlM f s = .ok s' → P (pre ++ l) s'
  | [], pre, s, s', h, hrun => by
    cases hrun
    simpa using h
  | a :: l, pre, s, s', h, hrun => by
    rw [List.foldlM_cons, bind_eq_ok] at hrun
    obtain ⟨s₁, h₁, hrun⟩ := hrun
    have := foldlM_inv_from P f hstep l (pre ++ [a]) s₁ s' (hstep pre a s s₁ h h₁) hrun
    simpa using this

/-- **A loop on its own list**: each round knows what was visited and what is left. -/
theorem foldl_inv_on (P : List α → σ → Prop) {f : σ → α → σ} {z : σ} {l : List α} (h₀ : P [] z)
    (hstep : ∀ pre a post s, l = pre ++ a :: post → P pre s → P (pre ++ [a]) (f s a)) : P l (l.foldl f z) := by
  have hfrom : ∀ (post pre : List α) (s : σ), l = pre ++ post → P pre s → P l (post.foldl f s) := by
    intro post
    induction post with
    | nil => exact fun pre s hl hs => by rwa [hl, List.append_nil]
    | cons a post ih =>
      exact fun pre s hl hs => ih (pre ++ [a]) (f s a) (by rw [hl, List.append_assoc]; rfl) (hstep pre a post s hl hs)
  exact hfrom l [] z rfl h₀

/-- **A loop whose rounds all succeed** on its list: it returns, with what the rounds preserve. -/
theorem foldlM_ok (P : List α → σ → Prop) {f : σ → α → Except ε σ} {z : σ} {l : List α} (h₀ : P [] z)
    (hstep : ∀ pre a post s, l = pre ++ a :: post → P pre s → ∃ s', f s a = .ok s' ∧ P (pre ++ [a]) s') :
    ∃ s, l.foldlM f z = .ok s ∧ P l s := by
  have hfrom : ∀ (post pre : List α) (s : σ), l = pre ++ post → P pre s → ∃ s', post.foldlM f s = .ok s' ∧ P l s' := by
    intro post
    induction post with
    | nil => exact fun pre s hl hs => ⟨s, rfl, by rwa [hl, List.append_nil]⟩
    | cons a post ih =>
      intro pre s hl hs
      obtain ⟨s₁, hround, hs₁⟩ := hstep pre a post s hl hs
      obtain ⟨s', hrest, hs'⟩ := ih (pre ++ [a]) s₁ (by rw [hl, List.append_assoc]; rfl) hs₁
      exact ⟨s', by rw [List.foldlM_cons, hround]; exact hrest, hs'⟩
  exact hfrom l [] z rfl h₀

/-- **A loop whose rounds can fail**: what each successful round preserves holds when the loop returns. -/
theorem foldlM_inv (P : List α → σ → Prop) {f : σ → α → Except ε σ} {z : σ} (h₀ : P [] z)
    (hstep : ∀ pre a s s', P pre s → f s a = .ok s' → P (pre ++ [a]) s') {l : List α} {s : σ}
    (hrun : l.foldlM f z = .ok s) : P l s :=
  foldlM_inv_from P f hstep l [] z s h₀ hrun

end Lib
