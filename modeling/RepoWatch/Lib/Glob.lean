import Mathlib.Data.List.Infix
/-!
# Lib.Glob — shell patterns

A pattern is matched against a whole text, case by case.  `*` is any text, `?` any character and `[…]` one character of a
set; a bracket that nothing closes is itself.  `fullMatch_iff` says what a match is: the text cut into one part for each
piece of the pattern.
-/
namespace Lib
namespace Glob

/-- What stands between the brackets. -/
inductive Member where
  | one (c : Char)
  | range (a b : Char)
  deriving DecidableEq

def Member.has (c : Char) : Member → Bool
  | one a => c == a
  | range a b => decide (a ≤ c) && decide (c ≤ b)

/-- A range with its ends the wrong way round. -/
def Member.isVoid : Member → Bool
  | one _ => false
  | range a b => decide (b < a)

inductive Piece where
  | lit (c : Char)
  | any
  | star
  | set (negated : Bool) (members : List Member)
  deriving DecidableEq

def Piece.takes (c : Char) : Piece → Bool
  | lit a => c == a
  | any => true
  | star => false
  | set negated members => members.any (Member.has c) != negated

def members : List Char → List Member
  | a :: '-' :: b :: rest => .range a b :: members rest
  | c :: rest => .one c :: members rest
  | [] => []

def kept (content : List Char) : List Member := (members content).filter fun m => !m.isVoid

/-- The set that a bracket's content stands for.  Void ranges are dropped before the rest is read as a regular expression,
so a `!` that they preceded negates it. -/
def bracket : List Char → Piece
  | '!' :: content => .set true (kept content)
  | content =>
    match kept content with
    | .one '!' :: ms => .set true ms
    | .range '!' b :: ms => .set true (.one '-' :: .one b :: ms)
    | ms => .set false ms

def untilBracket : List Char → Option (List Char × List Char)
  | [] => none
  | c :: s => if c = ']' then some ([], s) else (untilBracket s).map fun r => (c :: r.1, r.2)

/-- A closing bracket in the first place is a member. -/
def fromFirst : List Char → Option (List Char × List Char)
  | ']' :: s => (untilBracket s).map fun r => (']' :: r.1, r.2)
  | s => untilBracket s

/-- The content of a bracket, and what follows it. -/
def closing : List Char → Option (List Char × List Char)
  | '!' :: s => (fromFirst s).map fun r => ('!' :: r.1, r.2)
  | s => fromFirst s

theorem length_untilBracket : ∀ {s : List Char} {r : List Char × List Char}, untilBracket s = some r → r.2.length ≤ s.length
  | [], r, h => by cases h
  | c :: s, r, h => by
    unfold untilBracket at h
    split at h
    · cases h
      simp
    · obtain ⟨q, hq, rfl⟩ := Option.map_eq_some_iff.1 h
      have := length_untilBracket hq
      simp only [List.length_cons]
      omega

theorem length_fromFirst {s : List Char} {r : List Char × List Char} (h : fromFirst s = some r) : r.2.length ≤ s.length := by
  unfold fromFirst at h
  split at h
  · obtain ⟨q, hq, rfl⟩ := Option.map_eq_some_iff.1 h
    have := length_untilBracket hq
    simp only [List.length_cons]
    omega
  · exact length_untilBracket h

theorem length_closing {s : List Char} {r : List Char × List Char} (h : closing s = some r) : r.2.length ≤ s.length := by
  unfold closing at h
  split at h
  · obtain ⟨q, hq, rfl⟩ := Option.map_eq_some_iff.1 h
    have := length_fromFirst hq
    simp only [List.length_cons]
    omega
  · exact length_fromFirst h

/-- `fnmatch.translate`. -/
def parse : List Char → List Piece
  | [] => []
  | c :: s =>
    if c = '*' then .star :: parse s
    else if c = '?' then .any :: parse s
    else if c = '[' then
      match _h : closing s with
      | none => .lit '[' :: parse s
      | some r => bracket r.1 :: parse r.2
    else .lit c :: parse s
termination_by s => s.length
decreasing_by
  all_goals simp only [List.length_cons]
  all_goals first
    | omega
    | exact Nat.lt_succ_of_le (length_closing ‹_›)

def fullMatch : List Piece → List Char → Bool
  | [], s => s.isEmpty
  | p :: ps, s =>
    if p = .star then s.tails.any (fullMatch ps)
    else match s with
      | [] => false
      | c :: s => p.takes c && fullMatch ps s

/-! ## What a match is -/

/-- The part of a text that a piece stands for. -/
def Piece.Covers : Piece → List Char → Prop
  | .star, _ => True
  | p, part => ∃ c, part = [c] ∧ p.takes c = true

theorem covers_of_ne_star {p : Piece} (hp : p ≠ .star) {part : List Char} :
    p.Covers part ↔ ∃ c, part = [c] ∧ p.takes c = true := by
  cases p with
  | star => exact absurd rfl hp
  | lit _ => exact Iff.rfl
  | any => exact Iff.rfl
  | set _ _ => exact Iff.rfl

/-- **A match cuts the text into one part for each piece.** -/
theorem fullMatch_iff : ∀ {ps : List Piece} {s : List Char},
    fullMatch ps s = true ↔ ∃ parts, s = parts.flatten ∧ List.Forall₂ Piece.Covers ps parts
  | [], s => by
    constructor
    · intro h
      exact ⟨[], by simpa [fullMatch] using h, .nil⟩
    · rintro ⟨parts, rfl, hparts⟩
      cases hparts
      rfl
  | p :: ps, s => by
    by_cases hp : p = .star
    · subst hp
      have hm : fullMatch (.star :: ps) s = s.tails.any (fullMatch ps) := by simp [fullMatch]
      rw [hm, List.any_eq_true]
      constructor
      · rintro ⟨t, ht, hmt⟩
        obtain ⟨part, rfl⟩ := (List.mem_tails _ _).1 ht
        obtain ⟨parts, rfl, hparts⟩ := fullMatch_iff.1 hmt
        exact ⟨part :: parts, rfl, .cons trivial hparts⟩
      · rintro ⟨_, rfl, hparts⟩
        cases hparts with
        | @cons _ part _ parts _ hparts =>
          exact ⟨parts.flatten, (List.mem_tails _ _).2 ⟨part, rfl⟩, fullMatch_iff.2 ⟨parts, rfl, hparts⟩⟩
    · cases s with
      | nil =>
        constructor
        · intro h
          simp [fullMatch, hp] at h
        · rintro ⟨_, hs, hparts⟩
          cases hparts with
          | cons hcovers _ =>
            obtain ⟨c, rfl, -⟩ := (covers_of_ne_star hp).1 hcovers
            simp at hs
      | cons c s =>
        have hm : fullMatch (p :: ps) (c :: s) = (p.takes c && fullMatch ps s) := by simp [fullMatch, hp]
        rw [hm, Bool.and_eq_true]
        constructor
        · rintro ⟨hc, hmt⟩
          obtain ⟨parts, rfl, hparts⟩ := fullMatch_iff.1 hmt
          exact ⟨[c] :: parts, rfl, .cons ((covers_of_ne_star hp).2 ⟨c, rfl, hc⟩) hparts⟩
        · rintro ⟨_, hs, hparts⟩
          cases hparts with
          | @cons _ part _ parts hcovers hparts =>
            obtain ⟨d, rfl, hd⟩ := (covers_of_ne_star hp).1 hcovers
            obtain ⟨rfl, rfl⟩ := List.cons.inj hs
            exact ⟨hd, fullMatch_iff.2 ⟨parts, rfl, hparts⟩⟩

end Glob
end Lib
