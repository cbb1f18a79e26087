import Mathlib.Data.Char
import Mathlib.Data.List.Infix
import Mathlib.Data.List.Lex
import Mathlib.Data.Prod.Lex
import RepoWatch.Database
import RepoWatch.Lib.Keyset
import RepoWatch.Rollups
/-!
# Pagination — pages of packages, warm records and requests

`get_page` builds its query from clauses and a list of parameters that are bound by position.  Whatever plan it takes, the
rows it selects are the rows that match the filter behind the cursor, so a page is a page of `Lib.Keyset` and a chain of
pages loses and repeats nothing (`getPage_run`).
-/
namespace RepoWatch

open Lib

/-- A column or a parameter of a query. -/
inductive SqlValue where
  | null
  | int (n : Int)
  | text (s : Str)
  deriving DecidableEq

namespace SqlValue

/-- NULL comes first, then integers, then texts by code point. -/
def rank : SqlValue → Nat ×ₗ (Int ×ₗ Str)
  | null => toLex (0, toLex (0, []))
  | int n => toLex (1, toLex (n, []))
  | text s => toLex (2, toLex (0, s))

theorem rank_injective : Function.Injective rank := by
  intro a b h
  cases a <;> cases b <;> simp_all [rank]

instance : LinearOrder SqlValue := LinearOrder.lift' rank rank_injective

def ofText : Option Str → SqlValue
  | none => null
  | some s => text s

/-- `COALESCE(x, '')`. -/
def coalesce : SqlValue → SqlValue
  | null => text []
  | v => v

/-- `instr(lower(hay), lower(needle)) > 0`; SQLite lowers ASCII letters only. -/
def contains : SqlValue → SqlValue → Bool
  | text hay, text needle => decide (asciiLower needle <:+: asciiLower hay)
  | _, _ => false

end SqlValue

inductive Column where
  | packageKey | packageName | filename | warmedAt | status | httpStatus
  | id | ts | repoId | clientIp | method | path | cacheStatus
  deriving DecidableEq

/-- A row by its columns; a column that its table does not have is NULL. -/
abbrev SqlRow := Column → SqlValue

open SqlValue in
def PackageRow.sql (r : PackageRow) : SqlRow
  | .repoId => text r.repoId
  | .packageKey => text r.packageKey
  | .packageName => ofText r.packageName
  | .filename => text r.filename
  | _ => null

open SqlValue in
def WarmedRow.sql (r : WarmedRow) : SqlRow
  | .repoId => text r.repoId
  | .packageKey => text r.packageKey
  | .filename => text r.filename
  | .warmedAt => text r.warmedAt
  | .status => text (if r.ok then "ok".toList else "failed".toList)
  | .httpStatus => match r.httpStatus with
    | none => null
    | some n => int n
  | _ => null

open SqlValue in
def RequestRow.sql (r : RequestRow) : SqlRow
  | .id => int r.id
  | .ts => text r.ts
  | .repoId => ofText r.repoId
  | .clientIp => ofText r.clientIp
  | .method => text r.method
  | .path => text r.path
  | .status => ofText r.status
  | .cacheStatus => ofText r.cacheStatus
  | _ => null

inductive Direction where
  | asc | desc
  deriving DecidableEq

inductive PageKind where
  | packages | warmed | requests
  deriving DecidableEq

namespace PageKind

def name : PageKind → Str
  | packages => "packages".toList
  | warmed => "warmed".toList
  | requests => "requests".toList

def columns : PageKind → List Column
  | packages => [.packageKey, .packageName, .filename]
  | warmed => [.packageKey, .filename, .warmedAt, .status, .httpStatus]
  | requests => [.id, .ts, .repoId, .clientIp, .method, .path, .status, .cacheStatus]

def keys : PageKind → List Column
  | packages => [.packageKey]
  | warmed => [.warmedAt, .packageKey]
  | requests => [.id]

def direction : PageKind → Direction
  | packages => .asc
  | warmed => .desc
  | requests => .desc

end PageKind

/-- The tables, and `package_search` where SQLite has it: the rows that match a term. -/
structure PageStore where
  db : Database
  log : RequestLog
  searchIndex : Option (Str → List (Str × Str))

def PageStore.rows (store : PageStore) : PageKind → List SqlRow
  | .packages => store.db.repoPackages.rows.map PackageRow.sql
  | .warmed => store.db.warmedPackages.rows.map WarmedRow.sql
  | .requests => store.log.events.rows.map RequestRow.sql

/-! ## Clauses and their parameters -/

inductive Clause where
  /-- `repo_id = ?`. -/
  | repo
  /-- `rowid IN (SELECT rowid FROM package_search WHERE package_search MATCH ?)`. -/
  | search
  | packageFilter
  | warmedFilter
  /-- `(keys) > (?, …)` or `(keys) < (?, …)`. -/
  | after (keys : List Column) (direction : Direction)
  deriving DecidableEq

namespace Clause

def arity : Clause → Nat
  | repo => 1
  | search => 1
  | packageFilter => 2
  | warmedFilter => 2
  | after keys _ => keys.length

def holds (store : PageStore) (row : SqlRow) : Clause → List SqlValue → Bool
  | repo, [repoId] => row .repoId != .null && row .repoId == repoId
  | search, [.text term] => match row .repoId, row .packageKey with
    | .text repoId, .text key => decide ((repoId, key) ∈ (store.searchIndex.getD fun _ => []) term)
    | _, _ => false
  | packageFilter, [q, q'] =>
    (row .packageKey).contains q || (row .packageName).coalesce.contains q'
  | warmedFilter, [q, q'] => (row .packageKey).contains q || (row .filename).contains q'
  | after keys .asc, values => decide (values < keys.map row)
  | after keys .desc, values => decide (keys.map row < values)
  | _, _ => false

/-- Parameters are bound by position; what is left over follows the clauses. -/
def bind : List Clause → List SqlValue → Option (List (Clause × List SqlValue) × List SqlValue)
  | [], args => some ([], args)
  | c :: cs, args =>
    if args.length < c.arity then none
    else (bind cs (args.drop c.arity)).map fun (bound, rest) => ((c, args.take c.arity) :: bound, rest)

end Clause

/-! ## Cursors -/

/-- A JSON value, as far as cursors differ by it. -/
inductive Json where
  | null
  | bool (b : Bool)
  | int (n : Int)
  | float
  | string (s : Str)
  | array (xs : List Json)
  | object (fields : List (Str × Json))

namespace Json

def ofSql : SqlValue → Json
  | .null => null
  | .int n => int n
  | .text s => string s

def ofOption : Option Str → Json
  | none => null
  | some s => string s

/-- `data["scope"] == [kind, repo_id, q]`. -/
def isScope (kind : PageKind) (repoId : Option Str) (q : Str) : Json → Bool
  | array [string kind', repoId', string q'] =>
    decide (kind' = kind.name) && decide (q' = q) &&
      match repoId, repoId' with
      | none, null => true
      | some r, string r' => decide (r' = r)
      | _, _ => false
  | _ => false

/-- A value of the type that is expected for a kind: `int` for requests, `str` otherwise. -/
def value : PageKind → Json → Option SqlValue
  | .requests, int n => some (.int n)
  | .packages, string s => some (.text s)
  | .warmed, string s => some (.text s)
  | _, _ => none

end Json

/-- The text of a cursor: its length, and what base64 and JSON read from it. -/
structure Cursor where
  length : Nat
  data : Option Json

/-- The values to go on from, or `Invalid cursor for this filter`. -/
def Cursor.read (cursor : Cursor) (kind : PageKind) (repoId : Option Str) (q : Str) : Option (List SqlValue) :=
  if 4096 < cursor.length then none
  else match cursor.data with
  | some (.object fields) =>
    match fields.lookup "after".toList, fields.lookup "scope".toList with
    | some (.array values), some scope =>
      if !scope.isScope kind repoId q || decide (values.length ≠ kind.keys.length) then none
      else values.mapM (Json.value kind)
    | _, _ => none
  | _ => none

/-! ## `get_page` -/

inductive PageError where
  | arguments | cursor | bindings

/-- The text of a `ValueError`; the last one is SQLite's. -/
def PageError.text : PageError → Str
  | arguments => "limit must be 1..200; q must be at most 200 characters".toList
  | cursor => "Invalid cursor for this filter".toList
  | bindings => "Incorrect number of bindings supplied".toList

abbrev Item := List (Column × SqlValue)

/-- `dict(zip(names, row))`. -/
def PageKind.item (kind : PageKind) (row : SqlRow) : Item := kind.columns.map fun c => (c, row c)

structure Page where
  items : List Item
  nextCursor : Option Cursor

/-- The sort key of an item. -/
def PageKind.keyOf (kind : PageKind) (item : Item) : List SqlValue :=
  kind.keys.map fun c => (item.lookup c).getD .null

/-- `q` as one phrase of a search. -/
def searchTerm (q : Str) : Str := '"' :: q.flatMap (fun c => if c = '"' then ['"', '"'] else [c]) ++ ['"']

def searchable (q : Str) : Bool := decide (3 ≤ q.length) && !q.contains '\x00'

/-- Whether the search index narrows a query down. -/
def PageStore.searches (store : PageStore) (kind : PageKind) (q : Str) : Bool :=
  decide (kind = .packages) && !q.isEmpty && store.searchIndex.isSome && searchable q

/-- The clauses of scope and filter, with their parameters. -/
def PageStore.filterClauses (store : PageStore) (kind : PageKind) (repoId : Option Str) (q : Str) :
    List Clause × List SqlValue :=
  let (clauses, args) := match repoId with
    | none => ([], [])
    | some repoId => ([Clause.repo], [SqlValue.text repoId])
  let (clauses, args) := if decide (kind = .warmed) && !q.isEmpty then
      (clauses ++ [Clause.warmedFilter], args ++ [SqlValue.text q, SqlValue.text q])
    else (clauses, args)
  if decide (kind = .packages) && !q.isEmpty then
    let (clauses, args) := if store.searchIndex.isSome && searchable q then
        (clauses ++ [Clause.search], args ++ [SqlValue.text (searchTerm q)])
      else (clauses, args)
    (clauses ++ [Clause.packageFilter], args ++ [SqlValue.text q, SqlValue.text q])
  else (clauses, args)

/-- A frequent term is not looked up: its clause goes, and the parameter at its place. -/
def PageStore.planned (probe store : PageStore) (kind : PageKind) (repoId : Option Str) (q : Str)
    (clauses : List Clause) (args : List SqlValue) : List Clause × List SqlValue :=
  if store.searches kind q then
    let found := ((probe.searchIndex.getD fun _ => []) (searchTerm q)).take 1001
    if found.length ≤ 1000 then (clauses, args)
    else (clauses.eraseIdx (clauses.idxOf .search), args.eraseIdx (if repoId.isSome then 1 else 0))
  else (clauses, args)

def Direction.le (direction : Direction) (a b : List SqlValue) : Prop :=
  match direction with
  | .asc => a ≤ b
  | .desc => b ≤ a

instance : (direction : Direction) → DecidableRel direction.le
  | .asc => fun a b => inferInstanceAs (Decidable (a ≤ b))
  | .desc => fun a b => inferInstanceAs (Decidable (b ≤ a))

section
variable (encodedLength : Json → Nat)

/-- The cursor after an item with this sort key. -/
def cursorAfter (kind : PageKind) (repoId : Option Str) (q : Str) (values : List SqlValue) : Cursor :=
  let data := Json.object [("scope".toList, .array [.string kind.name, .ofOption repoId, .string q]),
    ("after".toList, .array (values.map .ofSql))]
  ⟨encodedLength data, some data⟩

/-- The query of `get_page`, from its clauses and parameters: `probe` is the store at the time of the probe, `store` at the
time of the query. -/
def selectPage (probe store : PageStore) (kind : PageKind) (repoId : Option Str) (q : Str) (limit : Int)
    (clauses : List Clause) (args : List SqlValue) : Except PageError Page :=
  let (clauses, args) := probe.planned store kind repoId q clauses args
  match Clause.bind clauses (args ++ [.int (limit + 1)]) with
  | some (bound, [.int n]) =>
    let rows := (((store.rows kind).filter fun row => bound.all fun p => p.1.holds store row p.2).insertionSort
      fun r r' => kind.direction.le (kind.keys.map r) (kind.keys.map r')).take n.toNat
    let items := (rows.take limit.toNat).map kind.item
    .ok ⟨items, if limit < rows.length then
      items.getLast?.map fun item => cursorAfter encodedLength kind repoId q (kind.keyOf item) else none⟩
  | _ => .error .bindings

def getPage (probe store : PageStore) (kind : PageKind) (repoId : Option Str) (q : Str) (limit : Int)
    (cursor : Option Cursor) : Except PageError Page :=
  if !(decide (1 ≤ limit ∧ limit ≤ 200)) || decide (200 < q.length) then .error .arguments
  else
    let (clauses, args) := store.filterClauses kind repoId q
    match cursor with
    | none => selectPage encodedLength probe store kind repoId q limit clauses args
    | some cursor => match cursor.read kind repoId q with
      | none => .error .cursor
      | some values =>
        selectPage encodedLength probe store kind repoId q limit (clauses ++ [.after kind.keys kind.direction]) (args ++ values)

end

/-! ## The rows of a filter -/

/-- The scope and the filter of a page, apart from how they are queried. -/
def PageKind.matchesRow (kind : PageKind) (repoId : Option Str) (q : Str) (row : SqlRow) : Bool :=
  repoId.all (fun repoId => decide (row .repoId = .text repoId)) &&
  (q.isEmpty || match kind with
    | .packages => (row .packageKey).contains (.text q) || (row .packageName).coalesce.contains (.text q)
    | .warmed => (row .packageKey).contains (.text q) || (row .filename).contains (.text q)
    | .requests => true)

def PageStore.matching (store : PageStore) (kind : PageKind) (repoId : Option Str) (q : Str) : List SqlRow :=
  (store.rows kind).filter (kind.matchesRow repoId q)

/-- The search finds each row in which a substring search would find the term. -/
def PageStore.SearchComplete (store : PageStore) : Prop :=
  ∀ index, store.searchIndex = some index → ∀ q, searchable q = true → ∀ row ∈ store.db.repoPackages.rows,
    PageKind.packages.matchesRow none q row.sql = true → row.pk ∈ index (searchTerm q)

/-! ## Clauses with their parameters -/

abbrev Bound := List (Clause × List SqlValue)

def scopeBound : Option Str → Bound
  | none => []
  | some repoId => [(.repo, [.text repoId])]

def searchBound (search : Bool) (q : Str) : Bound := if search then [(.search, [.text (searchTerm q)])] else []

def filterBound (kind : PageKind) (q : Str) : Bound :=
  if q.isEmpty then [] else match kind with
  | .packages => [(.packageFilter, [.text q, .text q])]
  | .warmed => [(.warmedFilter, [.text q, .text q])]
  | .requests => []

def afterBound (kind : PageKind) : Option (List SqlValue) → Bound
  | none => []
  | some values => [(.after kind.keys kind.direction, values)]

theorem bind_bound : ∀ (bound : Bound) (rest : List SqlValue), (∀ p ∈ bound, p.2.length = p.1.arity) →
    Clause.bind (bound.map Prod.fst) (bound.flatMap Prod.snd ++ rest) = some (bound, rest)
  | [], _, _ => rfl
  | (c, args) :: bound, rest, h => by
    have harity : args.length = c.arity := h _ List.mem_cons_self
    have ih := bind_bound bound rest fun p hp => h p (List.mem_cons_of_mem _ hp)
    rw [List.map_cons, List.flatMap_cons, List.append_assoc, Clause.bind, ← harity, List.drop_left, List.take_left, ih,
      if_neg (by simp)]
    rfl

theorem filterClauses_eq (store : PageStore) (kind : PageKind) (repoId : Option Str) (q : Str) :
    store.filterClauses kind repoId q =
      ((scopeBound repoId ++ searchBound (store.searches kind q) q ++ filterBound kind q).map Prod.fst,
        (scopeBound repoId ++ searchBound (store.searches kind q) q ++ filterBound kind q).flatMap Prod.snd) := by
  unfold PageStore.filterClauses PageStore.searches searchBound filterBound
  cases hq : q.isEmpty with
  | true => cases repoId <;> cases kind <;> simp [scopeBound]
  | false =>
    cases hsearch : (store.searchIndex.isSome && searchable q) <;> cases repoId <;> cases kind <;>
      simp_all [scopeBound]

/-- **What the plan drops is the clause of the search and its parameter.** -/
theorem planned_eq (probe store : PageStore) (kind : PageKind) (repoId : Option Str) (q : Str) (rest : Bound) :
    ∃ search, (search = true → store.searches kind q = true) ∧
      probe.planned store kind repoId q ((scopeBound repoId ++ searchBound (store.searches kind q) q ++ rest).map Prod.fst)
        ((scopeBound repoId ++ searchBound (store.searches kind q) q ++ rest).flatMap Prod.snd) =
      ((scopeBound repoId ++ searchBound search q ++ rest).map Prod.fst,
        (scopeBound repoId ++ searchBound search q ++ rest).flatMap Prod.snd) := by
  unfold PageStore.planned
  cases hsearch : store.searches kind q with
  | false => exact ⟨false, fun h => Bool.noConfusion h, if_neg Bool.false_ne_true⟩
  | true =>
    by_cases hfew : (((probe.searchIndex.getD fun _ => []) (searchTerm q)).take 1001).length ≤ 1000
    · exact ⟨true, fun _ => rfl, by rw [if_pos rfl]; exact if_pos hfew⟩
    · refine ⟨false, fun _ => rfl, ?_⟩
      rw [if_pos rfl]
      refine (if_neg hfew).trans ?_
      cases repoId <;> rfl

/-- The rows that the clauses select are the rows of the filter behind the cursor. -/
theorem holds_bound {store : PageStore} {kind : PageKind} {repoId : Option Str} {q : Str} {search : Bool}
    {after : Option (List SqlValue)} {row : SqlRow} (hcomplete : store.SearchComplete) (hrow : row ∈ store.rows kind)
    (hsearch : search = true → store.searches kind q = true) :
    (scopeBound repoId ++ searchBound search q ++ (filterBound kind q ++ afterBound kind after)).all
        (fun p => p.1.holds store row p.2) =
      (kind.matchesRow repoId q row && (afterBound kind after).all fun p => p.1.holds store row p.2) := by
  have hscope : (scopeBound repoId).all (fun p => p.1.holds store row p.2) =
      repoId.all fun repoId => decide (row .repoId = .text repoId) := by
    cases repoId with
    | none => rfl
    | some repoId => by_cases h : row .repoId = .text repoId <;> simp [scopeBound, Clause.holds, h]
  have hfilter : (filterBound kind q).all (fun p => p.1.holds store row p.2) = kind.matchesRow none q row := by
    unfold filterBound PageKind.matchesRow
    cases q.isEmpty <;> cases kind <;> simp [Clause.holds]
  have hfound : kind.matchesRow none q row = true → (searchBound search q).all (fun p => p.1.holds store row p.2) = true := by
    intro hmatches
    cases search with
    | false => rfl
    | true =>
      have hs := hsearch rfl
      unfold PageStore.searches at hs
      rw [Bool.and_eq_true, Bool.and_eq_true, Bool.and_eq_true, decide_eq_true_eq] at hs
      obtain ⟨⟨⟨rfl, -⟩, hindex⟩, hsearchable⟩ := hs
      obtain ⟨index, hindex⟩ := Option.isSome_iff_exists.1 hindex
      obtain ⟨r, hr, rfl⟩ := List.mem_map.1 hrow
      have hmem : (r.repoId, r.packageKey) ∈ index (searchTerm q) := hcomplete index hindex q hsearchable r hr hmatches
      simp [searchBound, Clause.holds, PackageRow.sql, hindex, hmem]
  have hsplit : kind.matchesRow repoId q row =
      ((repoId.all fun repoId => decide (row .repoId = .text repoId)) && kind.matchesRow none q row) := rfl
  rw [List.all_append, List.all_append, List.all_append, hscope, hfilter, hsplit]
  cases hmatches : kind.matchesRow none q row with
  | false => simp
  | true => rw [hfound hmatches, Bool.and_true, Bool.true_and]

/-! ## Pages of a keyset -/

namespace Direction

/-- Sort keys in the order of a direction. -/
def Key : Direction → Type
  | asc => List SqlValue
  | desc => (List SqlValue)ᵒᵈ

instance : (direction : Direction) → LinearOrder direction.Key
  | asc => inferInstanceAs (LinearOrder (List SqlValue))
  | desc => inferInstanceAs (LinearOrder (List SqlValue)ᵒᵈ)

def toKey : (direction : Direction) → List SqlValue → direction.Key
  | asc, values => values
  | desc, values => OrderDual.toDual values

def ofKey : (direction : Direction) → direction.Key → List SqlValue
  | asc, key => key
  | desc, key => OrderDual.ofDual key

def lt (direction : Direction) (a b : List SqlValue) : Prop :=
  match direction with
  | asc => a < b
  | desc => b < a

variable {direction : Direction} {a b : List SqlValue}

@[simp] theorem ofKey_toKey : direction.ofKey (direction.toKey a) = a := by
  cases direction <;> rfl

@[simp] theorem toKey_ofKey {key : direction.Key} : direction.toKey (direction.ofKey key) = key := by
  cases direction <;> rfl

theorem toKey_injective : Function.Injective direction.toKey := fun a b h => by
  rw [← @ofKey_toKey direction a, h, ofKey_toKey]

theorem toKey_le : direction.toKey a ≤ direction.toKey b ↔ direction.le a b := by
  cases direction <;> rfl

theorem toKey_lt : direction.toKey a < direction.toKey b ↔ direction.lt a b := by
  cases direction <;> rfl

end Direction

def PageKind.key (kind : PageKind) (row : SqlRow) : kind.direction.Key := kind.direction.toKey (kind.keys.map row)

theorem insertionSort_congr {α : Type} {r r' : α → α → Prop} [DecidableRel r] [DecidableRel r'] (h : ∀ a b, r a b ↔ r' a b)
    (l : List α) : l.insertionSort r = l.insertionSort r' := by
  obtain rfl : r = r' := funext fun a => funext fun b => propext (h a b)
  congr

theorem keyOf_item (kind : PageKind) (row : SqlRow) : kind.keyOf (kind.item row) = kind.keys.map row := by
  cases kind <;> rfl

/-- What a cursor stands for, and no cursor. -/
def readCursor (kind : PageKind) (repoId : Option Str) (q : Str) : Option Cursor → Option (Option (List SqlValue))
  | none => some none
  | some cursor => (cursor.read kind repoId q).map some

section
variable {encodedLength : Json → Nat} {probe store : PageStore} {kind : PageKind} {repoId : Option Str} {q : Str} {limit : Int}
  {cursor : Option Cursor} {after : Option (List SqlValue)}

theorem length_of_mapM {α β : Type} {f : α → Option β} : ∀ {l : List α} {l' : List β}, l.mapM f = some l' → l'.length = l.length
  | [], _, h => by
    cases h
    rfl
  | a :: l, l', h => by
    rw [List.mapM_cons] at h
    obtain ⟨b, -, h⟩ := Option.bind_eq_some_iff.1 h
    obtain ⟨bs, hbs, h⟩ := Option.bind_eq_some_iff.1 h
    cases h
    rw [List.length_cons, List.length_cons, length_of_mapM hbs]

theorem length_read {cursor : Cursor} {values : List SqlValue} (h : cursor.read kind repoId q = some values) :
    values.length = kind.keys.length := by
  unfold Cursor.read at h
  split at h
  · cases h
  split at h
  · split at h
    · split at h
      · cases h
      · rename_i hscope
        rw [Bool.or_eq_true, not_or, decide_eq_true_eq, not_not] at hscope
        rw [length_of_mapM h]
        exact hscope.2
    · cases h
  · cases h

/-- The page of a keyset, as `get_page` returns it. -/
def pageOf (encodedLength : Json → Nat) (kind : PageKind) (repoId : Option Str) (q : Str)
    (p : List SqlRow × Option kind.direction.Key) : Page :=
  ⟨p.1.map kind.item, p.2.map fun k => cursorAfter encodedLength kind repoId q (kind.direction.ofKey k)⟩

theorem holds_afterBound {row : SqlRow} : (afterBound kind after).all (fun p => p.1.holds store row p.2) =
    (after.map kind.direction.toKey).all fun k => decide (k < kind.key row) := by
  cases after with
  | none => rfl
  | some values =>
    have hlt : ∀ values' : List SqlValue, kind.direction.toKey values < kind.direction.toKey values' ↔
        kind.direction.lt values values' := fun _ => Direction.toKey_lt
    unfold PageKind.key
    simp only [afterBound, List.all_cons, List.all_nil, Bool.and_true, Option.map_some, Option.all_some, hlt]
    cases kind <;> exact decide_eq_decide.2 Iff.rfl

/-- **The query returns the page of a keyset**, whatever its plan. -/
theorem selectPage_eq (encodedLength : Json → Nat) (probe : PageStore) (kind : PageKind) (repoId : Option Str) (q : Str)
    (after : Option (List SqlValue)) (hcomplete : store.SearchComplete) (hlimit : 1 ≤ limit ∧ limit ≤ 200)
    (hafter : ∀ values, after = some values → values.length = kind.keys.length) :
    selectPage encodedLength probe store kind repoId q limit
      ((scopeBound repoId ++ searchBound (store.searches kind q) q ++ (filterBound kind q ++ afterBound kind after)).map Prod.fst)
      ((scopeBound repoId ++ searchBound (store.searches kind q) q ++ (filterBound kind q ++ afterBound kind after)).flatMap
        Prod.snd) =
    .ok (pageOf encodedLength kind repoId q
      (Keyset.page kind.key (after.map kind.direction.toKey) limit.toNat (store.matching kind repoId q))) := by
  obtain ⟨search, hsearch, hplanned⟩ := planned_eq probe store kind repoId q (filterBound kind q ++ afterBound kind after)
  have harity : ∀ p ∈ scopeBound repoId ++ searchBound search q ++ (filterBound kind q ++ afterBound kind after),
      p.2.length = p.1.arity := by
    intro p hp
    rw [List.mem_append, List.mem_append, List.mem_append] at hp
    rcases hp with (hp | hp) | hp | hp
    · cases repoId with
      | none => cases hp
      | some repoId =>
        rw [List.mem_singleton.1 hp]
        rfl
    · unfold searchBound at hp
      split at hp
      · rw [List.mem_singleton.1 hp]
        rfl
      · cases hp
    · unfold filterBound at hp
      split at hp
      · cases hp
      · cases kind with
        | requests => cases hp
        | _ =>
          rw [List.mem_singleton.1 hp]
          rfl
    · cases after with
      | none => cases hp
      | some values =>
        rw [List.mem_singleton.1 hp]
        exact hafter values rfl
  have hbehind : ((store.rows kind).filter fun row => (scopeBound repoId ++ searchBound search q ++
      (filterBound kind q ++ afterBound kind after)).all fun p => p.1.holds store row p.2).insertionSort
      (fun r r' => kind.direction.le (kind.keys.map r) (kind.keys.map r')) =
      Keyset.behind kind.key (after.map kind.direction.toKey) (store.matching kind repoId q) := by
    unfold Keyset.behind PageStore.matching
    rw [List.filter_filter, insertionSort_congr fun r r' => (@Direction.toKey_le kind.direction _ _).symm]
    refine congrArg _ (List.filter_congr fun row hrow => ?_)
    rw [holds_bound hcomplete hrow hsearch, holds_afterBound, Bool.and_comm]
  unfold selectPage
  rw [hplanned]
  dsimp only
  rw [bind_bound _ _ harity]
  dsimp only
  rw [hbehind]
  unfold pageOf Keyset.page
  generalize Keyset.behind kind.key (after.map kind.direction.toKey) (store.matching kind repoId q) = found
  have htoNat : (limit + 1).toNat = limit.toNat + 1 := by omega
  have hmore : limit < ((found.take (limit.toNat + 1)).length : Int) ↔ limit.toNat < (found.take (limit.toNat + 1)).length := by
    omega
  dsimp only
  rw [htoNat]
  simp only [hmore]
  split
  · have hcursor : (fun item => cursorAfter encodedLength kind repoId q (kind.keyOf item)) ∘ kind.item =
        (fun k => cursorAfter encodedLength kind repoId q (kind.direction.ofKey k)) ∘ kind.key := by
      funext row
      exact congrArg _ ((keyOf_item kind row).trans Direction.ofKey_toKey.symm)
    rw [List.getLast?_map, Option.map_map, Option.map_map, hcursor]
  · rfl

/-- **A page is the page of a keyset**, whatever the plan. -/
theorem getPage_eq (hcomplete : store.SearchComplete) (hlimit : 1 ≤ limit ∧ limit ≤ 200) (hq : q.length ≤ 200) :
    getPage encodedLength probe store kind repoId q limit cursor =
      match readCursor kind repoId q cursor with
      | none => .error .cursor
      | some after => .ok (pageOf encodedLength kind repoId q
        (Keyset.page kind.key (after.map kind.direction.toKey) limit.toNat (store.matching kind repoId q))) := by
  unfold getPage
  rw [if_neg (by simp [hlimit]; exact hq), filterClauses_eq]
  dsimp only
  cases cursor with
  | none =>
    have h := selectPage_eq encodedLength probe kind repoId q none hcomplete hlimit (fun _ h => by cases h)
    simpa [afterBound, readCursor] using h
  | some cursor =>
    dsimp only [readCursor]
    cases hread : cursor.read kind repoId q with
    | none => rfl
    | some values =>
      have h := selectPage_eq encodedLength probe kind repoId q (some values) hcomplete hlimit fun values' h =>
        Option.some.inj h ▸ length_read hread
      simpa [afterBound] using h

/-! ## Chains of pages -/

/-- The values that a kind sorts by are read back from a cursor. -/
def PageKind.Typed (kind : PageKind) (values : List SqlValue) : Prop :=
  values.length = kind.keys.length ∧ ∀ v ∈ values, Json.value kind (Json.ofSql v) = some v

theorem typed_keys {row : SqlRow} (hrow : row ∈ store.rows kind) : kind.Typed (kind.keys.map row) := by
  refine ⟨List.length_map _, fun v hv => ?_⟩
  cases kind with
  | packages =>
    obtain ⟨r, -, rfl⟩ := List.mem_map.1 hrow
    rw [List.mem_singleton.1 hv]
    rfl
  | warmed =>
    obtain ⟨r, -, rfl⟩ := List.mem_map.1 hrow
    rcases List.mem_cons.1 hv with rfl | hv
    · rfl
    · rw [List.mem_singleton.1 hv]
      rfl
  | requests =>
    obtain ⟨r, -, rfl⟩ := List.mem_map.1 hrow
    rw [List.mem_singleton.1 hv]
    rfl

theorem mapM_value (kind : PageKind) : ∀ values : List SqlValue, (∀ v ∈ values, Json.value kind (Json.ofSql v) = some v) →
    (values.map Json.ofSql).mapM (Json.value kind) = some values
  | [], _ => rfl
  | v :: values, h => by
    rw [List.map_cons, List.mapM_cons, h v List.mem_cons_self, mapM_value kind values fun w hw => h w (List.mem_cons_of_mem _ hw)]
    rfl

theorem isScope_scope (kind : PageKind) (repoId : Option Str) (q : Str) :
    (Json.array [.string kind.name, .ofOption repoId, .string q]).isScope kind repoId q = true := by
  cases repoId <;> simp [Json.isScope, Json.ofOption]

/-- **A cursor gives back the values that it was made of**, unless it is too long. -/
theorem read_cursorAfter (encodedLength : Json → Nat) (repoId : Option Str) (q : Str) {values : List SqlValue}
    (h : kind.Typed values) : (cursorAfter encodedLength kind repoId q values).read kind repoId q =
      if 4096 < (cursorAfter encodedLength kind repoId q values).length then none else some values := by
  unfold Cursor.read
  split
  · rfl
  · show (if !(Json.array [.string kind.name, .ofOption repoId, .string q]).isScope kind repoId q ||
      decide ((values.map Json.ofSql).length ≠ kind.keys.length) then none else _) = _
    rw [isScope_scope, if_neg (by simp [h.1])]
    exact mapM_value kind values h.2

end

/-- A call: the stores that its probe and its query find, and its limit. -/
structure PageRead where
  probe : PageStore
  store : PageStore
  limit : Int

/-- Calls that follow the cursor, what they have returned and the cursor to go on from. -/
inductive PageRun (encodedLength : Json → Nat) (kind : PageKind) (repoId : Option Str) (q : Str) :
    List PageRead → List Item → Option Cursor → Prop
  | first {read : PageRead} {page : Page} :
      getPage encodedLength read.probe read.store kind repoId q read.limit none = .ok page →
      PageRun encodedLength kind repoId q [read] page.items page.nextCursor
  | next {reads : List PageRead} {items : List Item} {cursor : Cursor} {read : PageRead} {page : Page} :
      PageRun encodedLength kind repoId q reads items (some cursor) →
      getPage encodedLength read.probe read.store kind repoId q read.limit (some cursor) = .ok page →
      PageRun encodedLength kind repoId q (reads ++ [read]) (items ++ page.items) page.nextCursor

section
variable {encodedLength : Json → Nat} {probe store : PageStore} {kind : PageKind} {repoId : Option Str} {q : Str} {limit : Int}
  {cursor : Option Cursor} {page : Page} {reads : List PageRead} {items : List Item} {next : Option Cursor}

/-- What a call that returns has been given. -/
theorem getPage_ok (hcomplete : store.SearchComplete)
    (h : getPage encodedLength probe store kind repoId q limit cursor = .ok page) :
    1 ≤ limit ∧ limit ≤ 200 ∧ q.length ≤ 200 ∧ ∃ after, readCursor kind repoId q cursor = some after ∧
      page = pageOf encodedLength kind repoId q
        (Keyset.page kind.key (after.map kind.direction.toKey) limit.toNat (store.matching kind repoId q)) := by
  by_cases hargs : (1 ≤ limit ∧ limit ≤ 200) ∧ q.length ≤ 200
  · rw [getPage_eq hcomplete hargs.1 hargs.2] at h
    cases hread : readCursor kind repoId q cursor with
    | none =>
      rw [hread] at h
      cases h
    | some after =>
      rw [hread] at h
      cases h
      exact ⟨hargs.1.1, hargs.1.2, hargs.2, after, rfl, rfl⟩
  · unfold getPage at h
    rw [if_pos (by
      rw [Bool.or_eq_true, Bool.not_eq_true', decide_eq_false_iff_not, decide_eq_true_eq]
      omega)] at h
    cases h

/-- **A chain of calls is a chain of pages of a keyset.** -/
theorem pages_of_run (hrun : PageRun encodedLength kind repoId q reads items next)
    (hcomplete : ∀ read ∈ reads, read.store.SearchComplete) : ∃ rows next',
      Keyset.Pages kind.key (reads.map fun read => read.store.matching kind repoId q) rows next' ∧
      items = rows.map kind.item ∧
      next = next'.map (fun k => cursorAfter encodedLength kind repoId q (kind.direction.ofKey k)) ∧
      (∀ k, next' = some k → kind.Typed (kind.direction.ofKey k)) ∧ q.length ≤ 200 := by
  have htyped : ∀ (store : PageStore) after limit k,
      (Keyset.page kind.key after limit (store.matching kind repoId q)).2 = some k → kind.Typed (kind.direction.ofKey k) := by
    intro store after limit k hk
    obtain ⟨front, row, hfront, rfl⟩ := Keyset.exists_of_next_page hk
    have hrow := (Keyset.of_mem_page (hfront ▸ List.mem_append_right _ List.mem_cons_self)).1
    unfold PageKind.key
    rw [Direction.ofKey_toKey]
    exact typed_keys (List.mem_filter.1 hrow).1
  induction hrun with
  | @first read page h =>
    obtain ⟨hlimit, -, hq, after, hafter, rfl⟩ := getPage_ok (hcomplete read List.mem_cons_self) h
    cases hafter
    exact ⟨_, _, .first (by omega), rfl, rfl, htyped _ _ _, hq⟩
  | @next reads items cursor read page hrun h ih =>
    obtain ⟨rows, next', hpages, rfl, hnext, hkey, hq⟩ := ih fun read hread => hcomplete read (List.mem_append_left _ hread)
    obtain ⟨k, rfl, rfl⟩ := Option.map_eq_some_iff.1 hnext.symm
    obtain ⟨hlimit, -, -, after, hafter, rfl⟩ := getPage_ok (hcomplete read (List.mem_append_right _ List.mem_cons_self)) h
    obtain ⟨values, hread, rfl⟩ := Option.map_eq_some_iff.1 hafter
    rw [read_cursorAfter encodedLength repoId q (hkey k rfl)] at hread
    split at hread
    · cases hread
    · cases hread
      have hk : (some (kind.direction.ofKey k)).map kind.direction.toKey = some k := congrArg some Direction.toKey_ofKey
      rw [hk]
      refine ⟨rows ++ (Keyset.page kind.key (some k) read.limit.toNat (read.store.matching kind repoId q)).1, _, ?_, ?_, rfl,
        htyped _ _ _, hq⟩
      · rw [List.map_append]
        exact .next hpages (by omega)
      · rw [List.map_append]
        rfl

/-! ## Rows and their keys -/

end

/-- The column that tells the rows of a repository apart. -/
def PageKind.identity : PageKind → Column
  | .requests => .id
  | _ => .packageKey

section
variable {encodedLength : Json → Nat} {store : PageStore} {kind : PageKind} {repoId : Option Str} {q : Str}
  {reads : List PageRead} {items : List Item} {next : Option Cursor} {row row' : SqlRow}

theorem nodup_rows (store : PageStore) (kind : PageKind) : (store.rows kind).Nodup := by
  cases kind with
  | packages =>
    refine store.db.repoPackages.keysNodup.of_map.map_on fun r hr r' hr' h => ?_
    have hrepo := congrFun h .repoId
    have hkey := congrFun h .packageKey
    exact List.inj_on_of_nodup_map store.db.repoPackages.keysNodup hr hr'
      (Prod.ext (SqlValue.text.inj hrepo) (SqlValue.text.inj hkey))
  | warmed =>
    refine store.db.warmedPackages.keysNodup.of_map.map_on fun r hr r' hr' h => ?_
    have hrepo := congrFun h .repoId
    have hkey := congrFun h .packageKey
    exact List.inj_on_of_nodup_map store.db.warmedPackages.keysNodup hr hr'
      (Prod.ext (SqlValue.text.inj hrepo) (SqlValue.text.inj hkey))
  | requests =>
    refine store.log.events.keysNodup.of_map.map_on fun r hr r' hr' h => ?_
    exact List.inj_on_of_nodup_map store.log.events.keysNodup hr hr' (Int.ofNat.inj (SqlValue.int.inj (congrFun h .id)))

/-- **In the rows of a page a row is known by its identity.** -/
theorem eq_of_identity (hscope : kind ≠ .requests → repoId.isSome = true) (hrow : row ∈ store.matching kind repoId q)
    (hrow' : row' ∈ store.matching kind repoId q) (h : row kind.identity = row' kind.identity) : row = row' := by
  obtain ⟨hmem, hmatch⟩ := List.mem_filter.1 hrow
  obtain ⟨hmem', hmatch'⟩ := List.mem_filter.1 hrow'
  have hrepo : kind ≠ .requests → row .repoId = row' .repoId := by
    intro hkind
    obtain ⟨repoId, rfl⟩ := Option.isSome_iff_exists.1 (hscope hkind)
    unfold PageKind.matchesRow at hmatch hmatch'
    rw [Bool.and_eq_true, Option.all_some, decide_eq_true_eq] at hmatch hmatch'
    exact hmatch.1.trans hmatch'.1.symm
  cases kind with
  | packages =>
    obtain ⟨r, hr, rfl⟩ := List.mem_map.1 hmem
    obtain ⟨r', hr', rfl⟩ := List.mem_map.1 hmem'
    exact congrArg _ (List.inj_on_of_nodup_map store.db.repoPackages.keysNodup hr hr'
      (Prod.ext (SqlValue.text.inj (hrepo (by decide))) (SqlValue.text.inj h)))
  | warmed =>
    obtain ⟨r, hr, rfl⟩ := List.mem_map.1 hmem
    obtain ⟨r', hr', rfl⟩ := List.mem_map.1 hmem'
    exact congrArg _ (List.inj_on_of_nodup_map store.db.warmedPackages.keysNodup hr hr'
      (Prod.ext (SqlValue.text.inj (hrepo (by decide))) (SqlValue.text.inj h)))
  | requests =>
    obtain ⟨r, hr, rfl⟩ := List.mem_map.1 hmem
    obtain ⟨r', hr', rfl⟩ := List.mem_map.1 hmem'
    exact congrArg _ (List.inj_on_of_nodup_map store.log.events.keysNodup hr hr' (Int.ofNat.inj (SqlValue.int.inj h)))

theorem identity_of_key (h : kind.key row = kind.key row') : row kind.identity = row' kind.identity := by
  have hkeys : kind.keys.map row = kind.keys.map row' := Direction.toKey_injective h
  cases kind with
  | packages => exact List.head_eq_of_cons_eq hkeys
  | warmed => exact List.head_eq_of_cons_eq (List.tail_eq_of_cons_eq hkeys)
  | requests => exact List.head_eq_of_cons_eq hkeys

theorem nodup_keys (hscope : kind ≠ .requests → repoId.isSome = true) :
    ((store.matching kind repoId q).map kind.key).Nodup :=
  ((nodup_rows store kind).filter _).map_on fun _ hrow _ hrow' h => eq_of_identity hscope hrow hrow' (identity_of_key h)

theorem lookup_item (kind : PageKind) (row : SqlRow) : (kind.item row).lookup kind.identity = some (row kind.identity) := by
  cases kind <;> rfl

/-- What holds of the items of calls that follow the cursor. -/
structure PageRun.Exact (kind : PageKind) (repoId : Option Str) (q : Str) (reads : List PageRead) (items : List Item)
    (next : Option Cursor) : Prop where
  sorted : items.Pairwise fun item item' => kind.direction.lt (kind.keyOf item) (kind.keyOf item')
  source : ∀ item ∈ items, ∃ read ∈ reads, ∃ row ∈ read.store.matching kind repoId q, item = kind.item row
  once : ∀ identity values, (∀ read ∈ reads, ∃ row ∈ read.store.matching kind repoId q, row kind.identity = identity ∧
    kind.keys.map row = values) → next = none →
    ∃ item, items.filter (fun item => decide (item.lookup kind.identity = some identity)) = [item] ∧ kind.keyOf item = values

/-- **Keyset pagination loses and repeats nothing**, a cursor of its own is read again, and no page depends on the search
index. -/
theorem getPage_run (hrun : PageRun encodedLength kind repoId q reads items next)
    (hscope : kind ≠ .requests → repoId.isSome = true) (hcomplete : ∀ read ∈ reads, read.store.SearchComplete) :
    PageRun.Exact kind repoId q reads items next ∧
    (∀ cursor probe store limit, next = some cursor → cursor.length ≤ 4096 → 1 ≤ limit ∧ limit ≤ 200 →
      store.SearchComplete → ∃ page, getPage encodedLength probe store kind repoId q limit (some cursor) = .ok page) ∧
    ∀ (probe probe' store : PageStore) limit cursor, store.SearchComplete →
      getPage encodedLength probe store kind repoId q limit cursor =
        getPage encodedLength probe' { store with searchIndex := none } kind repoId q limit cursor := by
  obtain ⟨rows, next', hpages, rfl, rfl, htyped, hq⟩ := pages_of_run hrun hcomplete
  have hcovers := hpages.covers fun table htable => by
    obtain ⟨read, -, rfl⟩ := List.mem_map.1 htable
    exact nodup_keys hscope
  refine ⟨⟨?_, fun item hitem => ?_, fun identity values hthroughout hnone => ?_⟩, ?_, ?_⟩
  · refine List.pairwise_map.2 (hcovers.sorted.imp fun hlt => ?_)
    rw [keyOf_item, keyOf_item]
    exact Direction.toKey_lt.1 hlt
  · obtain ⟨row, hrow, rfl⟩ := List.mem_map.1 hitem
    obtain ⟨table, htable, hmem⟩ := hcovers.source row hrow
    obtain ⟨read, hread, rfl⟩ := List.mem_map.1 htable
    exact ⟨read, hread, row, hmem, rfl⟩
  · have hnone : next' = none := Option.map_eq_none_iff.1 hnone
    obtain ⟨row, hrow, hkey⟩ := hcovers.found (kind.direction.toKey values) (fun table htable => by
      obtain ⟨read, hread, rfl⟩ := List.mem_map.1 htable
      obtain ⟨row, hrow, -, rfl⟩ := hthroughout read hread
      exact ⟨row, hrow, rfl⟩) fun k hk => by
        rw [hnone] at hk
        cases hk
    -- a row is the one looked for by its identity as by its sort key
    have hsame : ∀ row' ∈ rows, row' kind.identity = identity ↔ kind.key row' = kind.key row := by
      intro row' hrow'
      obtain ⟨table, htable, hmem⟩ := hcovers.source row' hrow'
      obtain ⟨read, hread, rfl⟩ := List.mem_map.1 htable
      obtain ⟨row'', hrow'', hidentity, hvalues⟩ := hthroughout read hread
      have hkey'' : kind.key row'' = kind.key row := (congrArg _ hvalues).trans hkey.symm
      constructor
      · intro h
        rw [eq_of_identity hscope hmem hrow'' (h.trans hidentity.symm), hkey'']
      · intro h
        rw [identity_of_key (h.trans hkey''.symm), hidentity]
    refine ⟨kind.item row, ?_, (keyOf_item kind row).trans (Direction.toKey_injective hkey)⟩
    rw [List.filter_map, List.filter_congr (q := fun row' => decide (kind.key row' = kind.key row)) fun row' hrow' => ?_,
      hcovers.once hrow]
    · rfl
    · rw [Function.comp_apply, lookup_item, decide_eq_decide, Option.some.injEq]
      exact hsame row' hrow'
  · rintro cursor probe store limit hnext hlength hlimit hcomplete
    obtain ⟨k, rfl, rfl⟩ := Option.map_eq_some_iff.1 hnext
    rw [getPage_eq hcomplete hlimit hq, readCursor, read_cursorAfter encodedLength repoId q (htyped k rfl),
      if_neg (not_lt.2 hlength)]
    exact ⟨_, rfl⟩
  · intro probe probe' store limit cursor hcomplete
    have hwithout : ({ store with searchIndex := none } : PageStore).SearchComplete := fun _ h => by cases h
    by_cases hlimit : 1 ≤ limit ∧ limit ≤ 200
    · rw [getPage_eq hcomplete hlimit hq, getPage_eq hwithout hlimit hq]
      rfl
    · have hbad : (!(decide (1 ≤ limit ∧ limit ≤ 200)) || decide (200 < q.length)) = true := by
        rw [decide_eq_false hlimit]
        rfl
      unfold getPage
      rw [if_pos hbad, if_pos hbad]

def bash : PackageRow := ⟨"r".toList, "bash-5".toList, none, "b.deb".toList, none⟩

def base : PackageRow := ⟨"r".toList, "base-1".toList, some "base".toList, "a.deb".toList, none⟩

def twoPackages : PageStore where
  db := { Database.empty with repoPackages := Table.upsertAll .empty [bash, base] }
  log := RequestLog.new
  searchIndex := some fun _ => [bash.pk, base.pk]

theorem twoPackages_complete : twoPackages.SearchComplete := by
  intro index hindex q _ row hrow _
  obtain rfl := Option.some.inj hindex
  rcases List.mem_cons.1 hrow with rfl | hrow
  · exact List.mem_cons_self
  · rw [List.mem_singleton.1 hrow]
    exact List.mem_cons_of_mem _ List.mem_cons_self

theorem getPage_run_twoPackages : PageRun.Exact .packages (some "r".toList) "BAS".toList
    [⟨twoPackages, twoPackages, 1⟩, ⟨twoPackages, twoPackages, 200⟩]
    [PageKind.packages.item base.sql, PageKind.packages.item bash.sql] none := by
  have hfirst : getPage (fun _ => 100) twoPackages twoPackages .packages (some "r".toList) "BAS".toList 1 none =
      .ok ⟨[PageKind.packages.item base.sql],
        some (cursorAfter (fun _ => 100) .packages (some "r".toList) "BAS".toList [.text base.packageKey])⟩ := rfl
  have hsecond : getPage (fun _ => 100) twoPackages twoPackages .packages (some "r".toList) "BAS".toList 200
      (some (cursorAfter (fun _ => 100) .packages (some "r".toList) "BAS".toList [.text base.packageKey])) =
      .ok ⟨[PageKind.packages.item bash.sql], none⟩ := rfl
  have hone : PageRun (fun _ => 100) .packages _ _ [⟨twoPackages, twoPackages, 1⟩] _ _ := .first hfirst
  have htwo : PageRun (fun _ => 100) .packages _ _ ([⟨twoPackages, twoPackages, 1⟩] ++ [⟨twoPackages, twoPackages, 200⟩]) _ _ :=
    .next hone hsecond
  refine (getPage_run htwo (fun _ => rfl) fun read hread => ?_).1
  rcases List.mem_cons.1 hread with rfl | hread
  · exact twoPackages_complete
  · rw [List.mem_singleton.1 hread]
    exact twoPackages_complete

end
end RepoWatch
