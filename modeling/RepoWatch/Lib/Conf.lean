import Mathlib.Data.List.Basic
/-!
# Lib.Conf — the configuration language of nginx

A configuration is read character by character into words, and words into directives: blanks separate words, a quoted
word runs to the closing quote, a backslash keeps the next character from ending a word, and `;` ends a directive.
`Reader.quoted_run` says what a quoted word comes to.  A value is text with variables in it, `parseValue`, and
`evalValue` replaces them; a value without a `$` is itself in every request (`evalValue_of_not_mem`), and no other value
is (`not_mem_of_evalValue`).
-/
namespace Lib.Conf

/-! ## Words -/

/-- What a backslash and the character after it stand for in a word. -/
def escapeOf (c : Char) : List Char :=
  if c = '"' ∨ c = '\'' ∨ c = '\\' then [c]
  else if c = 't' then ['\t']
  else if c = 'r' then ['\r']
  else if c = 'n' then ['\n']
  else ['\\', c]

/-- The text of a word; the flag tells that a backslash has been read. -/
def unescape : Bool → List Char → List Char
  | false, [] => []
  | true, [] => ['\\']
  | false, c :: s => if c = '\\' then unescape true s else c :: unescape false s
  | true, c :: s => escapeOf c ++ unescape false s

def isBlank (c : Char) : Bool := c == ' ' || c == '\t' || c == '\r' || c == '\n'

/-- Where the reader stands. -/
inductive Mode where
  | gap
  | comment
  | bare (raw : List Char) (escaped dollar : Bool)
  | quoted (mark : Char) (raw : List Char) (escaped : Bool)
  | closed
  deriving DecidableEq

inductive Item where
  | directive (words : List (List Char))
  | blockStart (words : List (List Char))
  | blockEnd
  deriving DecidableEq

structure Reader where
  mode : Mode := .gap
  words : List (List Char) := []
  items : List Item := []
  deriving DecidableEq

namespace Reader

/-- `;` or `{` after the words of a directive. -/
def finish (r : Reader) (c : Char) : Option Reader :=
  if r.words = [] then none
  else some ⟨.gap, [], r.items ++ [if c = ';' then .directive r.words else .blockStart r.words]⟩

def endWord (r : Reader) (raw : List Char) (mode : Mode) : Reader :=
  { r with mode := mode, words := r.words ++ [unescape false raw] }

/-- A character between two words. -/
def start (r : Reader) (c : Char) : Option Reader :=
  if isBlank c then some { r with mode := .gap }
  else if c = ';' ∨ c = '{' then r.finish c
  else if c = '}' then if r.words = [] then some { r with mode := .gap, items := r.items ++ [.blockEnd] } else none
  else if c = '#' then some { r with mode := .comment }
  else if c = '\\' then some { r with mode := .bare [c] true false }
  else if c = '"' ∨ c = '\'' then some { r with mode := .quoted c [] false }
  else some { r with mode := .bare [c] false (c == '$') }

/-- One character; `none` where nginx refuses the file. -/
def next (r : Reader) (c : Char) : Option Reader :=
  match r.mode with
  | .gap => r.start c
  | .comment => some (if c = '\n' then { r with mode := .gap } else r)
  | .closed =>
    if c = ';' ∨ c = '{' then r.finish c
    else if isBlank c ∨ c = ')' then r.start c
    else none
  | .bare raw escaped dollar =>
    if escaped then some { r with mode := .bare (raw ++ [c]) false false }
    else if c = '{' ∧ dollar then some { r with mode := .bare (raw ++ [c]) false true }
    else if c = '\\' then some { r with mode := .bare (raw ++ [c]) true false }
    else if c = '$' then some { r with mode := .bare (raw ++ [c]) false true }
    else if isBlank c then some (r.endWord raw .gap)
    else if c = ';' ∨ c = '{' then (r.endWord raw .gap).finish c
    else some { r with mode := .bare (raw ++ [c]) false false }
  | .quoted mark raw escaped =>
    if escaped then some { r with mode := .quoted mark (raw ++ [c]) false }
    else if c = '\\' then some { r with mode := .quoted mark (raw ++ [c]) true }
    else if c = mark then some (r.endWord raw .closed)
    else some { r with mode := .quoted mark (raw ++ [c]) false }

def run (r : Reader) (text : List Char) : Option Reader := text.foldlM next r

theorem run_append (r : Reader) (s t : List Char) : r.run (s ++ t) = (r.run s).bind fun r' => r'.run t := by
  unfold run
  rw [List.foldlM_append]
  rfl

theorem run_cons (r : Reader) (c : Char) (s : List Char) : r.run (c :: s) = (r.next c).bind fun r' => r'.run s := by
  unfold run
  rw [List.foldlM_cons]
  rfl

end Reader

/-- The items of a file that is read to its end. -/
def read (text : List Char) : Option (List Item) :=
  (Reader.run {} text).bind fun r =>
    match r.mode with
    | .gap | .comment => if r.words = [] then some r.items else none
    | _ => none

/-! ## Quoted words -/

/-- A backslash before every backslash and double quote. -/
def escape (s : List Char) : List Char := s.flatMap fun c => if c = '\\' ∨ c = '"' then ['\\', c] else [c]

theorem escape_cons (c : Char) (s : List Char) :
    escape (c :: s) = (if c = '\\' ∨ c = '"' then ['\\', c] else [c]) ++ escape s := rfl

theorem unescape_escape : ∀ s : List Char, unescape false (escape s) = s
  | [] => rfl
  | c :: s => by
    rw [escape_cons]
    split
    · rename_i hc
      have : escapeOf c = [c] := by
        unfold escapeOf
        rw [if_pos (by tauto)]
      rw [List.cons_append, List.cons_append, List.nil_append, unescape, if_pos rfl, unescape, this, unescape_escape s]
      rfl
    · rename_i hc
      rw [List.cons_append, List.nil_append, unescape, if_neg (fun h => hc (Or.inl h)), unescape_escape s]

namespace Reader

/-- Reading escaped text inside double quotes only gathers it. -/
theorem run_escape (words : List (List Char)) (items : List Item) : ∀ (s raw : List Char),
    run ⟨.quoted '"' raw false, words, items⟩ (escape s) = some ⟨.quoted '"' (raw ++ escape s) false, words, items⟩
  | [], raw => by simp [escape, run]
  | c :: s, raw => by
    rw [escape_cons, run_append]
    have hstep : run ⟨.quoted '"' raw false, words, items⟩ (if c = '\\' ∨ c = '"' then ['\\', c] else [c]) =
        some ⟨.quoted '"' (raw ++ if c = '\\' ∨ c = '"' then ['\\', c] else [c]) false, words, items⟩ := by
      split
      · simp [run, next]
      · rename_i hc
        rw [not_or] at hc
        simp [run, next, hc.1, hc.2]
    rw [hstep, Option.bind_some, run_escape words items s]
    simp

/-- **A quoted word** is read back as the text that was escaped. -/
theorem quoted_run (words : List (List Char)) (items : List Item) (s : List Char) :
    run ⟨.gap, words, items⟩ ('"' :: escape s ++ ['"']) = some ⟨.closed, words ++ [s], items⟩ := by
  rw [List.cons_append, run_cons]
  have hopen : next ⟨.gap, words, items⟩ '"' = some ⟨.quoted '"' [] false, words, items⟩ := rfl
  rw [hopen, Option.bind_some, run_append, run_escape, Option.bind_some, List.nil_append]
  have hclose : next ⟨.quoted '"' (escape s) false, words, items⟩ '"' =
      some ⟨.closed, words ++ [unescape false (escape s)], items⟩ := rfl
  rw [run_cons, hclose, unescape_escape]
  rfl

end Reader

/-! ## Values -/

/-- A piece of a value: a character, a capture of the last match, or a variable. -/
inductive Part where
  | text (c : Char)
  | capture (n : Nat)
  | var (name : List Char)
  deriving DecidableEq

def isNameChar (c : Char) : Bool := c.isAlphanum || c == '_'

/-- Where the reader of a value stands. -/
inductive ValueMode where
  | text
  | dollar
  | braced (name : List Char)
  | named (name : List Char)

/-- The pieces of a value; `none` where nginx refuses it. -/
def parseValue : ValueMode → List Char → Option (List Part)
  | .text, [] => some []
  | .dollar, [] => none
  | .braced _, [] => none
  | .named name, [] => some [.var name]
  | .text, c :: s => if c = '$' then parseValue .dollar s else (parseValue .text s).map (.text c :: ·)
  | .dollar, c :: s =>
    if '1' ≤ c ∧ c ≤ '9' then (parseValue .text s).map (.capture (c.toNat - '0'.toNat) :: ·)
    else if c = '{' then parseValue (.braced []) s
    else if isNameChar c then parseValue (.named [c]) s
    else none
  | .braced name, c :: s =>
    if c = '}' then if name = [] then none else (parseValue .text s).map (.var name :: ·)
    else if isNameChar c then parseValue (.braced (name ++ [c])) s
    else none
  | .named name, c :: s =>
    if isNameChar c then parseValue (.named (name ++ [c])) s
    else if c = '$' then (parseValue .dollar s).map (.var name :: ·)
    else (parseValue .text s).map fun ps => .var name :: .text c :: ps

/-- The variables of a request; a name without a value is unknown to the configuration. -/
structure Variables where
  named : List Char → Option (List Char)
  capture : Nat → List Char := fun _ => []

def Part.eval (vars : Variables) : Part → Option (List Char)
  | .text c => some [c]
  | .capture n => some (vars.capture n)
  | .var name => vars.named name

def evalParts (vars : Variables) : List Part → Option (List Char)
  | [] => some []
  | p :: ps => (p.eval vars).bind fun a => (evalParts vars ps).map (a ++ ·)

/-- A value in a request. -/
def evalValue (vars : Variables) (value : List Char) : Option (List Char) :=
  (parseValue .text value).bind (evalParts vars)

theorem parseValue_append : ∀ {a : List Char}, '$' ∉ a → ∀ b,
    parseValue .text (a ++ b) = (parseValue .text b).map (a.map .text ++ ·)
  | [], _, b => by simp
  | c :: a, h, b => by
    rw [List.mem_cons, not_or] at h
    rw [List.cons_append, parseValue, if_neg (Ne.symm h.1), parseValue_append h.2, Option.map_map]
    rfl

theorem evalParts_text_append (vars : Variables) (ps : List Part) : ∀ s : List Char,
    evalParts vars (s.map .text ++ ps) = (evalParts vars ps).map (s ++ ·)
  | [] => by simp
  | c :: s => by
    rw [List.map_cons, List.cons_append, evalParts, evalParts_text_append vars ps s, Part.eval, Option.bind_some,
      Option.map_map]
    rfl

/-- **Text before a value** stays before it. -/
theorem evalValue_append (vars : Variables) {a : List Char} (h : '$' ∉ a) (b : List Char) :
    evalValue vars (a ++ b) = (evalValue vars b).map (a ++ ·) := by
  unfold evalValue
  rw [parseValue_append h]
  cases parseValue .text b with
  | none => rfl
  | some ps => rw [Option.map_some, Option.bind_some, Option.bind_some, evalParts_text_append]

/-- **A value without variables** is itself in every request. -/
theorem evalValue_of_not_mem (vars : Variables) {value : List Char} (h : '$' ∉ value) :
    evalValue vars value = some value := by
  rw [← List.append_nil value, evalValue_append vars h]
  rfl

/-- A value whose pieces are all text is read as text from its start to its end. -/
theorem parseValue_all_text : ∀ (s : List Char) (mode : ValueMode) {ps : List Part}, parseValue mode s = some ps →
    (∀ p ∈ ps, ∃ c, p = .text c) → mode = .text ∧ '$' ∉ s
  | [], mode, ps, h, hall => by
    cases mode with
    | text => simp
    | dollar => cases h
    | braced name => cases h
    | named name =>
      cases h
      obtain ⟨c, hc⟩ := hall _ List.mem_cons_self
      cases hc
  | c :: s, mode, ps, h, hall => by
    have hcons : ∀ p qs, ps = p :: qs → (∀ c, p ≠ .text c) → mode = .text ∧ '$' ∉ c :: s := fun p qs he hne => by
      obtain ⟨c, hc⟩ := hall p (he ▸ List.mem_cons_self)
      exact absurd hc (hne c)
    cases mode with
    | text =>
      rw [parseValue] at h
      split at h
      · have := (parseValue_all_text s _ h hall).1
        cases this
      · rename_i hc
        obtain ⟨qs, hqs, rfl⟩ := Option.map_eq_some_iff.1 h
        have := (parseValue_all_text s _ hqs fun p hp => hall p (List.mem_cons_of_mem _ hp)).2
        exact ⟨rfl, by simp [this, Ne.symm hc]⟩
    | dollar =>
      rw [parseValue] at h
      split at h
      · obtain ⟨qs, hqs, he⟩ := Option.map_eq_some_iff.1 h
        exact hcons _ _ he.symm (by simp)
      split at h
      · have := (parseValue_all_text s _ h hall).1
        cases this
      split at h
      · have := (parseValue_all_text s _ h hall).1
        cases this
      · cases h
    | braced name =>
      rw [parseValue] at h
      split at h
      · split at h
        · cases h
        · obtain ⟨qs, hqs, he⟩ := Option.map_eq_some_iff.1 h
          exact hcons _ _ he.symm (by simp)
      split at h
      · have := (parseValue_all_text s _ h hall).1
        cases this
      · cases h
    | named name =>
      rw [parseValue] at h
      split at h
      · have := (parseValue_all_text s _ h hall).1
        cases this
      split at h
      · obtain ⟨qs, hqs, he⟩ := Option.map_eq_some_iff.1 h
        exact hcons _ _ he.symm (by simp)
      · obtain ⟨qs, hqs, he⟩ := Option.map_eq_some_iff.1 h
        exact hcons _ _ he.symm (by simp)

theorem length_evalParts {vars : Variables} : ∀ {ps : List Part} {p : Part} {a r : List Char}, p ∈ ps →
    p.eval vars = some a → evalParts vars ps = some r → a.length ≤ r.length
  | q :: ps, p, a, r, hp, ha, h => by
    obtain ⟨b, hb, h⟩ := Option.bind_eq_some_iff.1 h
    obtain ⟨t, ht, rfl⟩ := Option.map_eq_some_iff.1 h
    rw [List.length_append]
    rcases List.mem_cons.1 hp with rfl | hp
    · rw [ha] at hb
      cases hb
      omega
    · have := length_evalParts hp ha ht
      omega

/-- **A value with variables** is as long as one likes in some request. -/
theorem evalValue_long {value : List Char} (h : '$' ∈ value) (n : Nat) :
    ∃ vars, ∀ r, evalValue vars value = some r → n ≤ r.length := by
  refine ⟨⟨fun _ => some (List.replicate n 'x'), fun _ => List.replicate n 'x'⟩, fun r hr => ?_⟩
  obtain ⟨ps, hps, hev⟩ := Option.bind_eq_some_iff.1 hr
  by_cases hall : ∀ p ∈ ps, ∃ c, p = Part.text c
  · exact absurd h (parseValue_all_text value _ hps hall).2
  · push Not at hall
    obtain ⟨p, hp, hne⟩ := hall
    have hval : p.eval ⟨fun _ => some (List.replicate n 'x'), fun _ => List.replicate n 'x'⟩ =
        some (List.replicate n 'x') := by
      cases p with
      | text c => exact absurd rfl (hne c)
      | capture k => rfl
      | var name => rfl
    simpa using length_evalParts hp hval hev

/-- **A value that is itself in every request** has no variables. -/
theorem not_mem_of_evalValue {value : List Char} (h : ∀ vars, evalValue vars value = some value) : '$' ∉ value := by
  intro hm
  obtain ⟨vars, hvars⟩ := evalValue_long hm (value.length + 1)
  have := hvars value (h vars)
  omega

/-! ## Maps -/

/-- An entry of a `map` block. -/
inductive MapItem where
  | hostnames
  | volatile
  | file (path : List Char)
  | default (value : List Char)
  | regex (pattern : List Char) (caseless : Bool) (value : List Char)
  | literal (key value : List Char)
  deriving DecidableEq

/-- A directive of a `map` block. -/
def mapItem : List (List Char) → Option MapItem
  | [word] =>
    if word = "hostnames".toList then some .hostnames
    else if word = "volatile".toList then some .volatile
    else none
  | [key, value] =>
    if key = "include".toList then some (.file value)
    else if key = "default".toList then some (.default value)
    else match key with
      | '~' :: '*' :: pattern => some (.regex pattern true value)
      | '~' :: pattern => some (.regex pattern false value)
      | '\\' :: key => some (.literal key value)
      | key => some (.literal key value)
  | _ => none

def mapEntry : Item → Option MapItem
  | .directive words => mapItem words
  | _ => none

/-- The entries of a file that is included in a `map` block. -/
def mapBody (text : List Char) : Option (List MapItem) := (read text).bind fun items => items.mapM mapEntry

end Lib.Conf
