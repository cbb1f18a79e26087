import Mathlib.Data.List.Basic
/-!
# Lib.Regex — regular expressions matched at the start of a text

A match is said by what it leaves: `rests r s` is the list of all ends of `s` that remain after a match of `r` at its start.
`$` and the negative lookahead take nothing, so they fit in as expressions that leave the text or nothing at all.
-/
namespace Lib

inductive Regex where
  | empty
  | char (p : Char → Bool)
  | seq (a b : Regex)
  | alt (a b : Regex)
  | star (a : Regex)
  /-- `$`: the end, or before a last line break. -/
  | eos
  /-- `(?!a)`. -/
  | notAhead (a : Regex)

namespace Regex

/-- What `n` rounds at most may leave, where every round takes something. -/
def repeats (once : List Char → List (List Char)) : Nat → List Char → List (List Char)
  | 0, s => [s]
  | n + 1, s => s :: ((once s).filter fun t => t.length < s.length).flatMap (repeats once n)

def rests : Regex → List Char → List (List Char)
  | empty, s => [s]
  | char _, [] => []
  | char p, c :: s => if p c then [s] else []
  | seq a b, s => (a.rests s).flatMap b.rests
  | alt a b, s => a.rests s ++ b.rests s
  | star a, s => repeats a.rests s.length s
  | eos, s => if s = [] ∨ s = ['\n'] then [s] else []
  | notAhead a, s => if (a.rests s).isEmpty then [s] else []

/-- The expression matches at the start of the text. -/
def matchesStart (r : Regex) (s : List Char) : Bool := !(r.rests s).isEmpty

def seqs (rs : List Regex) : Regex := rs.foldr seq empty

def opt (r : Regex) : Regex := alt r empty

def plus (r : Regex) : Regex := seq r (star r)

/-- Characters that stand for themselves. -/
def lit (w : List Char) : Regex := seqs (w.map fun c => char (· == c))

def words (ws : List (List Char)) : Regex := (ws.map lit).foldr alt (notAhead empty)

/-- `.`: no line break. -/
def dot : Regex := char (· != '\n')

end Regex
end Lib
