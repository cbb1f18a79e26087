import Mathlib.Data.List.Basic
import RepoWatch.Lib.Run
/-!
# Lib.Program — a program as the requests it waits for

A program that waits for answers is the tree of its requests: each holds what happens for every answer.  `Safe P log p`
says that `p`, whatever it is answered, makes a request only when `P` allows it after the answers so far, and `Path p log`
that `log` is a whole execution of it.  A system that interleaves many programs keeps the first by `Safe.answer`; a
program that runs alone on a state that answers it is `Executed`.
-/
namespace Lib

inductive Program (ρ : Type) (α : ρ → Type) where
  | done
  | request (r : ρ) (next : α r → Program ρ α)

namespace Program
variable {ρ : Type} {α : ρ → Type} {P : List (Σ r, α r) → ρ → Prop} {log : List (Σ r, α r)}

/-- The requests of a whole execution with their answers, in order. -/
def Path : Program ρ α → List (Σ r, α r) → Prop
  | done, log => log = []
  | request r next, log => ∃ a rest, log = ⟨r, a⟩ :: rest ∧ Path (next a) rest

/-- The requests of a log. -/
def requests (log : List (Σ r, α r)) : List ρ := log.map Sigma.fst

@[simp] theorem requests_cons (r : ρ) (a : α r) (log : List (Σ r, α r)) : requests (⟨r, a⟩ :: log) = r :: requests log :=
  rfl

@[simp] theorem requests_append (log log' : List (Σ r, α r)) : requests (log ++ log') = requests log ++ requests log' :=
  List.map_append

def Safe (P : List (Σ r, α r) → ρ → Prop) : List (Σ r, α r) → Program ρ α → Prop
  | _, done => True
  | log, request r next => P log r ∧ ∀ a, Safe P (log ++ [⟨r, a⟩]) (next a)

theorem Safe.allowed {r : ρ} {next : α r → Program ρ α} (h : Safe P log (request r next)) : P log r := h.1

theorem Safe.answer {r : ρ} {next : α r → Program ρ α} (h : Safe P log (request r next)) (a : α r) :
    Safe P (log ++ [⟨r, a⟩]) (next a) := h.2 a

/-- As `Safe`, and whenever the program ends, `Q` holds of all its answers. -/
def Meets (P : List (Σ r, α r) → ρ → Prop) (Q : List (Σ r, α r) → Prop) : List (Σ r, α r) → Program ρ α → Prop
  | log, done => Q log
  | log, request r next => P log r ∧ ∀ a, Meets P Q (log ++ [⟨r, a⟩]) (next a)

variable {Q : List (Σ r, α r) → Prop}

theorem Meets.allowed {r : ρ} {next : α r → Program ρ α} (h : Meets P Q log (request r next)) : P log r := h.1

theorem Meets.answer {r : ρ} {next : α r → Program ρ α} (h : Meets P Q log (request r next)) (a : α r) :
    Meets P Q (log ++ [⟨r, a⟩]) (next a) := h.2 a

/-- Every request of a log was allowed after the answers before it. -/
def Lawful (P : List (Σ r, α r) → ρ → Prop) (log : List (Σ r, α r)) : Prop :=
  ∀ before r a after, log = before ++ ⟨r, a⟩ :: after → P before r

theorem lawful_nil : Lawful P [] := by
  intro before r a after heq
  simp at heq

theorem Lawful.answer {r : ρ} (h : Lawful P log) (hr : P log r) (a : α r) : Lawful P (log ++ [⟨r, a⟩]) := by
  intro before r' a' after heq
  rcases List.eq_nil_or_concat after with rfl | ⟨after, last, rfl⟩
  · obtain ⟨rfl, hlast⟩ := List.append_inj' heq rfl
    cases hlast
    exact hr
  · rw [List.concat_eq_append, ← List.cons_append, ← List.append_assoc] at heq
    exact h before r' a' after (List.append_inj' heq rfl).1

/-- **A program made of rounds**: what each round hands on to the rounds after it is enough for the last to end well. -/
theorem Meets.foldr {γ : Type} {round : γ → Program ρ α → Program ρ α} (I : List γ → List (Σ r, α r) → Prop)
    (hround : ∀ g gs log rest, I (g :: gs) log → (∀ log', I gs log' → Meets P Q log' rest) →
      Meets P Q log (round g rest))
    (hdone : ∀ log, I [] log → Q log) : ∀ (gs : List γ) (log : List (Σ r, α r)), I gs log →
      Meets P Q log (gs.foldr round done)
  | [], log, h => hdone log h
  | g :: gs, log, h => hround g gs log _ h fun log' h' => Meets.foldr I hround hdone gs log' h'

/-! ## Executions on a state -/

section Executed
variable {σ : Type} {step : σ → (r : ρ) → α r → σ → Prop}

/-- A whole execution of the program on a state that answers its requests. -/
def Executed (step : σ → (r : ρ) → α r → σ → Prop) (p : Program ρ α) (log : List (Σ r, α r)) (s s' : σ) : Prop :=
  Path p log ∧ Run (fun s e s' => step s e.1 e.2 s') s log s'

/-- Every program can be executed, with answers of any kind that the state can always give. -/
theorem exists_executed {G : (Σ r, α r) → Prop} (h : ∀ s r, ∃ a s', step s r a s' ∧ G ⟨r, a⟩) :
    ∀ (p : Program ρ α) (s : σ), ∃ log s', Executed step p log s s' ∧ ∀ e ∈ log, G e
  | done, s => ⟨[], s, ⟨rfl, .nil s⟩, fun _ he => absurd he List.not_mem_nil⟩
  | request r next, s => by
    obtain ⟨a, s₁, hstep, hgood⟩ := h s r
    obtain ⟨log, s', ⟨hpath, hrun⟩, hall⟩ := exists_executed h (next a) s₁
    refine ⟨⟨r, a⟩ :: log, s', ⟨⟨a, log, rfl, hpath⟩, hrun.cons (a := ⟨r, a⟩) hstep⟩, fun e he => ?_⟩
    rcases List.mem_cons.1 he with rfl | he
    · exact hgood
    · exact hall e he

end Executed

/-- What a safe program requests in a whole execution. -/
theorem Safe.path : ∀ {p : Program ρ α} {log₀ log : List (Σ r, α r)}, Safe P log₀ p → Path p log →
    ∀ before r a after, log = before ++ ⟨r, a⟩ :: after → P (log₀ ++ before) r
  | done, _, log, _, hpath, before, r, a, after, heq => by
    rw [show log = [] from hpath] at heq
    simp at heq
  | request r₀ next, log₀, log, hsafe, hpath, before, r, a, after, heq => by
    obtain ⟨a₀, rest, rfl, hrest⟩ := hpath
    rcases before with _ | ⟨e, before⟩
    · obtain ⟨he, -⟩ := List.cons.inj heq
      cases he
      rw [List.append_nil]
      exact hsafe.allowed
    · obtain ⟨rfl, hlog⟩ := List.cons.inj heq
      have := (hsafe.answer a₀).path hrest before r a after hlog
      rwa [List.append_assoc] at this

theorem Meets.safe : ∀ {p : Program ρ α} {log : List (Σ r, α r)}, Meets P Q log p → Safe P log p
  | done, _, _ => trivial
  | request _ _, _, h => ⟨h.allowed, fun a => (h.answer a).safe⟩

/-- What holds of all the answers when a whole execution has ended. -/
theorem Meets.ended : ∀ {p : Program ρ α} {log₀ log : List (Σ r, α r)}, Meets P Q log₀ p → Path p log → Q (log₀ ++ log)
  | done, log₀, log, h, hpath => by
    rw [show log = [] from hpath, List.append_nil]
    exact h
  | request _ _, log₀, _, h, hpath => by
    obtain ⟨a, rest, rfl, hrest⟩ := hpath
    have := (h.answer a).ended hrest
    rwa [List.append_assoc] at this

end Program
end Lib
