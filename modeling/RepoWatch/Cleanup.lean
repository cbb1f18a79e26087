import RepoWatch.Dedup
import RepoWatch.Repositories
/-!
# Cleanup — which cached copies a cleanup plan may remove

`evidence` streams what every configured owner says of its file: the keys it may be stored under, the key it is served
from, and whether anything about it is uncertain.  `makePlan` draws a bounded window of keys that some owner no longer is
served from, and streams the evidence once more to strike out every key that any owner still needs.  The fingerprint of a
repository's source and the name of an nginx generation are parameters.
-/
namespace RepoWatch

open Lib

/-! ## Evidence -/

/-- A row of `cleanup_rows`. -/
structure CleanupRow where
  repoId : Str
  packageKey : Str
  filename : Str
  lastCheck : Option Str
  sourceIdentity : Option Str
  pending : Bool
  warmed : Bool
  artifact : Bool

/-- `queries.cleanup_rows`. -/
def Database.cleanupRows (db : Database) (repoIds : List Str) : List CleanupRow :=
  repoIds.flatMap fun id =>
    let state := db.repoState.get id
    let lastCheck := state.map RepoState.lastCheck
    let sourceIdentity := state.bind RepoState.sourceIdentity
    (db.packagesOf id).map (fun p => ⟨id, p.packageKey, p.filename, lastCheck, sourceIdentity,
      (db.pendingReplacements.get p.pk).isSome, (db.warmedPackages.get p.pk).any WarmedRow.ok, false⟩) ++
    (db.nixArtifacts.rows.filter fun a =>
      a.repoId = id ∧ (db.repoPackages.get (a.repoId, a.packageKey)).isSome).map fun a =>
        ⟨id, a.packageKey, a.filename, lastCheck, sourceIdentity, false, false, true⟩

/-- What one row says: the keys of the file, the key it is served from, and whether it blocks or may be cleaned. -/
structure CleanupEvidence where
  repoId : Str
  filename : Str
  keys : List Str
  target : Str
  blocked : Bool
  eligible : Bool
  warmed : Bool
  deriving DecidableEq

section Parameters
variable (lower : Str → Str) (identity : RepoConfig → Str)

/-- One round of `_evidence`; the artifacts of a repository that is not Nix are passed over. -/
def evidenceOf (config : Config) (redirects : Dict Str Str) (repo : RepoConfig) (keyFor : BoundKey) (row : CleanupRow) :
    Option CleanupEvidence :=
  if row.artifact then
    if repo.type = .nix then some ⟨row.repoId, row.filename, [], keyFor.key row.filename, false, false, false⟩ else none
  else
    let direct := keyFor.key row.filename
    let target := (redirects.lookup (lower (packagePath repo row.filename))).getD direct
    let opposite := keyFor.key row.filename (some !config.nginx.enableDedup)
    let blocked := !known row.lastCheck || row.sourceIdentity != some (identity repo) || row.pending || target == []
    some ⟨row.repoId, row.filename, [direct].insert opposite, target, blocked, repo.type ≠ .nix, row.warmed⟩

/-- `_evidence`. -/
def evidence (config : Config) (db : Database) (builder : CacheKeyBuilder) (redirects : Dict Str Str) :
    Except Error (List CleanupEvidence) := do
  let bound ← boundKeys config builder
  return (db.cleanupRows (sortedStr (config.repos.map fun repo => repo.id))).filterMap fun row =>
    (config.repoById row.repoId).bind fun repo => (bound.lookup row.repoId).bind fun keyFor =>
      evidenceOf lower identity config redirects repo keyFor row

end Parameters

/-! ## Windows -/

structure PlanRow where
  key : Str
  repoId : Str
  filename : Str
  canonicalKey : Str
  deriving DecidableEq

/-- The order of `(bool, str)`. -/
def rankLt (a b : Bool × Str) : Bool :=
  match a.1, b.1 with
  | false, true => true
  | true, false => false
  | _, _ => decide (a.2 < b.2)

/-- `bisect.insort`. -/
def insort (rank : Bool × Str) : List (Bool × Str) → List (Bool × Str)
  | [] => [rank]
  | x :: xs => if rankLt rank x then rank :: x :: xs else x :: insort rank xs

/-- `_Window`: the next distinct keys after a cursor, wrapping around. -/
structure Window where
  limit : Option Int
  after : Str
  ranks : List (Bool × Str) := []
  rows : Dict Str PlanRow := .empty

namespace Window

def place (w : Window) (rank : Bool × Str) (row : PlanRow) : Window :=
  { w with ranks := insort rank w.ranks, rows := w.rows.set rank.2 row }

/-- `_Window.add`; a full window has a last rank, as its limit is positive. -/
def add (w : Window) (key : Str) (row : PlanRow) : Window :=
  if w.limit = some 0 ∨ key ∈ w.rows.keys then w
  else match w.limit with
    | none => { w with rows := w.rows.set key row }
    | some limit =>
      let rank := (decide (key ≤ w.after), key)
      if limit ≤ w.rows.rows.length then
        match w.ranks.getLast? with
        | none => w.place rank row
        | some last =>
          if !rankLt rank last then w
          else { w with ranks := w.ranks.dropLast, rows := w.rows.delete last.2 }.place rank row
      else w.place rank row

def cursor (w : Window) : Str := (w.ranks.getLast?.map Prod.snd).getD w.after

end Window

/-! ## Plans -/

/-- The keyword arguments of `make_plan`. -/
structure CleanupArgs where
  limit : Option Int := none
  after : Str := []
  priorityAfter : Str := []
  selected : Option (List Str) := none
  excluded : Option (List Str) := none

/-- `[A-Za-z0-9_./:+~-]+`. -/
def isPlainKey (key : Str) : Bool :=
  key != [] && key.all fun c => c.isAlphanum || ['_', '.', '/', ':', '+', '~', '-'].contains c

def CleanupArgs.admits (args : CleanupArgs) (key : Str) : Bool :=
  args.selected.all (·.contains key) && !args.excluded.any (·.contains key) && isPlainKey key

/-- What the first pass has drawn. -/
structure Drawn where
  fair : Window
  priority : Window
  scanned : Nat := 0

def Drawn.drawKey (args : CleanupArgs) (e : CleanupEvidence) (d : Drawn) (key : Str) : Drawn :=
  if !args.admits key then d
  else
    let row : PlanRow := ⟨key, e.repoId, e.filename, e.target⟩
    { d with
      fair := d.fair.add key row
      priority := if e.warmed then d.priority.add key row else d.priority }

/-- One round of the first pass. -/
def Drawn.draw (args : CleanupArgs) (d : Drawn) (e : CleanupEvidence) : Drawn :=
  let d := { d with scanned := d.scanned + 1 }
  if e.blocked || !e.eligible then d else (e.keys.filter (· ≠ e.target)).foldl (drawKey args e) d

def drawAll (args : CleanupArgs) (evidence : List CleanupEvidence) : Drawn :=
  evidence.foldl (Drawn.draw args)
    { fair := ⟨args.limit, args.after, [], .empty⟩
      priority := ⟨some (match args.limit with | none => 0 | some n => n - max 1 (n / 2)), args.priorityAfter, [], .empty⟩ }

/-- The loop that fills the priority window up with the keys of the fair one. -/
def fillUp (limit : Option Int) (fair : Dict Str PlanRow) :
    List Str → Dict Str PlanRow → Str → Dict Str PlanRow × Str
  | [], possible, cursor => (possible, cursor)
  | key :: keys, possible, cursor =>
    if limit.any (fun n => n ≤ (possible.rows.length : Int)) then (possible, cursor)
    else
      let possible := match possible.lookup key, fair.lookup key with
        | none, some row => possible.set key row
        | _, _ => possible
      fillUp limit fair keys possible key

/-- What the second pass has found. -/
structure Findings where
  possible : Dict Str PlanRow
  unsafeKeys : List Str := []
  active : List Str := []
  conflicts : List Str := []
  attributed : List Str := []

/-- `possible[key].update(repo_id=repo_id, filename=filename)`, once for each key. -/
def Findings.attributeTo (e : CleanupEvidence) (f : Findings) (key : Str) : Findings :=
  if key ∈ f.attributed then f
  else match f.possible.lookup key with
    | none => f
    | some row =>
      { f with
        possible := f.possible.set key { row with repoId := e.repoId, filename := e.filename }
        attributed := key :: f.attributed }

/-- A key of an owner that is not served from it. -/
def Findings.own (e : CleanupEvidence) (f : Findings) (key : Str) : Findings :=
  if key = e.target then f
  else
    let f := f.attributeTo e key
    if (f.possible.lookup key).any (·.canonicalKey ≠ e.target) then { f with conflicts := key :: f.conflicts } else f

def Findings.noteActive (f : Findings) (e : CleanupEvidence) : Findings :=
  if e.target ∈ f.possible.keys then { f with active := e.target :: f.active } else f

def Findings.noteBlocked (watched : List Str) (f : Findings) (e : CleanupEvidence) : Findings :=
  if e.blocked then { f with unsafeKeys := (e.target :: e.keys).filter (· ∈ watched) ++ f.unsafeKeys } else f

/-- One round of the second pass. -/
def Findings.note (watched : List Str) (f : Findings) (e : CleanupEvidence) : Findings :=
  let f := (f.noteActive e).noteBlocked watched e
  if e.eligible && !e.blocked then (e.keys.filter (· ∈ f.possible.keys)).foldl (own e) f else f

/-- The keys that were drawn, and the keys they are now served from. -/
def watchedKeys (possible : Dict Str PlanRow) : List Str :=
  possible.keys ++ possible.rows.map fun p => p.2.canonicalKey

def noteAll (possible : Dict Str PlanRow) (evidence : List CleanupEvidence) : Findings :=
  evidence.foldl (Findings.note (watchedKeys possible)) { possible := possible }

/-- Neither the key nor the key it is now served from was struck out. -/
def Findings.keeps (f : Findings) (key : Str) (row : PlanRow) : Bool :=
  !(f.unsafeKeys ++ f.active ++ f.conflicts).contains key && !f.unsafeKeys.contains row.canonicalKey

def Findings.candidates (f : Findings) : Dict Str PlanRow :=
  .ofPairs ((sortedStr f.possible.keys).filterMap fun key =>
    (f.possible.lookup key).bind fun row => if f.keeps key row then some (key, row) else none)

structure CleanupPlan where
  config : Config
  revisions : Dict Str Nat
  generation : Str
  candidates : Dict Str PlanRow
  cursor : Str
  priorityCursor : Str
  scanned : Nat

/-- `make_plan`, reading one database until it reads the revisions again from `later`. -/
def makePlan (lower : Str → Str) (identity : RepoConfig → Str)
    (dedupGeneration : Config → List (Str × Str) → Except Error Str) (config : Config) (db later : Database)
    (args : CleanupArgs) : Except Error CleanupPlan :=
  if args.limit.any (· < 1) then .error (.valueError "cleanup limit must be positive".toList)
  else do
    let revisions := db.getSnapshotRevisions
    let rows := db.findDuplicateFiles
    let pairs := acceptedPairs lower config db rows
    let builder ← CacheKeyBuilder.new config
    let redirects ← dedupKeys lower config rows builder pairs
    let generation ← dedupGeneration config pairs
    let first ← evidence lower identity config db builder redirects
    let drawn := drawAll args first
    let fairKeys := match args.limit with
      | none => drawn.fair.rows.keys
      | some _ => drawn.fair.ranks.map Prod.snd
    let (possible, cursor) := fillUp args.limit drawn.fair.rows fairKeys drawn.priority.rows args.after
    let second ← evidence lower identity config db builder redirects
    let candidates := (noteAll possible second).candidates
    if !revisions.eqv later.getSnapshotRevisions then
      .error (.cleanupChanged "Repository catalogs changed; retry the cleanup.".toList)
    else return ⟨config, revisions, generation, candidates, cursor, drawn.priority.cursor, drawn.scanned⟩

/-- The databases that the reads of `make_plan` see: its revisions, the duplicate query, the owners of the proposed pairs,
the two passes, and the revisions again. -/
structure PlanReads where
  revisions : Database
  duplicates : Database
  owners : Database
  first : Database
  second : Database
  again : Database

/-- `make_plan`, whatever is written between its reads. -/
def makePlanFrom (lower : Str → Str) (identity : RepoConfig → Str)
    (dedupGeneration : Config → List (Str × Str) → Except Error Str) (config : Config) (reads : PlanReads)
    (args : CleanupArgs) : Except Error CleanupPlan :=
  if args.limit.any (· < 1) then .error (.valueError "cleanup limit must be positive".toList)
  else do
    let revisions := reads.revisions.getSnapshotRevisions
    let rows := reads.duplicates.findDuplicateFiles
    let pairs := acceptedPairs lower config reads.owners rows
    let builder ← CacheKeyBuilder.new config
    let redirects ← dedupKeys lower config rows builder pairs
    let generation ← dedupGeneration config pairs
    let first ← evidence lower identity config reads.first builder redirects
    let drawn := drawAll args first
    let fairKeys := match args.limit with
      | none => drawn.fair.rows.keys
      | some _ => drawn.fair.ranks.map Prod.snd
    let (possible, cursor) := fillUp args.limit drawn.fair.rows fairKeys drawn.priority.rows args.after
    let second ← evidence lower identity config reads.second builder redirects
    let candidates := (noteAll possible second).candidates
    if !revisions.eqv reads.again.getSnapshotRevisions then
      .error (.cleanupChanged "Repository catalogs changed; retry the cleanup.".toList)
    else return ⟨config, revisions, generation, candidates, cursor, drawn.priority.cursor, drawn.scanned⟩

theorem makePlan_eq (lower : Str → Str) (identity : RepoConfig → Str)
    (dedupGeneration : Config → List (Str × Str) → Except Error Str) (config : Config) (db later : Database)
    (args : CleanupArgs) : makePlan lower identity dedupGeneration config db later args =
      makePlanFrom lower identity dedupGeneration config ⟨db, db, db, db, db, later⟩ args := rfl

/-! ## What the first pass draws -/

/-- Every row was drawn for an owner that is served from another key, its canonical key. -/
def DrawnFrom (seen : List CleanupEvidence) (rows : Dict Str PlanRow) : Prop :=
  ∀ k row, rows.lookup k = some row → ∃ e ∈ seen, k ≠ e.target ∧ row.canonicalKey = e.target

namespace DrawnFrom
variable {seen : List CleanupEvidence} {rows : Dict Str PlanRow}

theorem append (h : DrawnFrom seen rows) (e : CleanupEvidence) : DrawnFrom (seen ++ [e]) rows := by
  intro k row hl
  obtain ⟨e', he', hk⟩ := h k row hl
  exact ⟨e', List.mem_append_left _ he', hk⟩

theorem set (h : DrawnFrom seen rows) {e : CleanupEvidence} (he : e ∈ seen) {key : Str} (hk : key ≠ e.target)
    {row : PlanRow} (hrow : row.canonicalKey = e.target) : DrawnFrom seen (rows.set key row) := by
  intro k row' hl
  rw [Dict.lookup_set] at hl
  split at hl
  · rename_i hkey
    cases hl
    exact ⟨e, he, hkey ▸ hk, hrow⟩
  · exact h k row' hl

theorem delete (h : DrawnFrom seen rows) (key : Str) : DrawnFrom seen (rows.delete key) := by
  intro k row hl
  refine h k row ?_
  unfold Dict.lookup at hl ⊢
  rw [Table.get_delete] at hl
  split at hl
  · cases hl
  · exact hl

theorem add {w : Window} (h : DrawnFrom seen w.rows) {e : CleanupEvidence} (he : e ∈ seen) {key : Str}
    (hk : key ≠ e.target) {row : PlanRow} (hrow : row.canonicalKey = e.target) : DrawnFrom seen (w.add key row).rows := by
  unfold Window.add
  split
  · exact h
  split
  · exact h.set he hk hrow
  dsimp only
  split
  · split
    · exact h.set he hk hrow
    · split
      · exact h
      · exact (h.delete _).set he hk hrow
  · exact h.set he hk hrow

end DrawnFrom

theorem drawAll_drawnFrom (args : CleanupArgs) (evidence : List CleanupEvidence) :
    DrawnFrom evidence (drawAll args evidence).fair.rows ∧ DrawnFrom evidence (drawAll args evidence).priority.rows := by
  refine foldl_inv (fun seen (d : Drawn) => DrawnFrom seen d.fair.rows ∧ DrawnFrom seen d.priority.rows)
    ⟨fun _ _ h => by (cases h), fun _ _ h => by (cases h)⟩ (fun seen e d ⟨hf, hp⟩ => ?_) evidence
  have he : e ∈ seen ++ [e] := by simp
  unfold Drawn.draw
  dsimp only
  split
  · exact ⟨hf.append e, hp.append e⟩
  -- the keys of one owner, each different from the key it is served from
  suffices ∀ (keys : List Str) (d : Drawn), (∀ k ∈ keys, k ≠ e.target) → DrawnFrom (seen ++ [e]) d.fair.rows →
      DrawnFrom (seen ++ [e]) d.priority.rows → DrawnFrom (seen ++ [e]) (keys.foldl (Drawn.drawKey args e) d).fair.rows ∧
        DrawnFrom (seen ++ [e]) (keys.foldl (Drawn.drawKey args e) d).priority.rows from
    this _ _ (fun k hk => by simpa using (List.mem_filter.1 hk).2) (hf.append e) (hp.append e)
  intro keys
  induction keys with
  | nil => exact fun d _ hf hp => ⟨hf, hp⟩
  | cons key keys ih =>
    intro d hkeys hf hp
    have hkey := hkeys key (by simp)
    refine ih (Drawn.drawKey args e d key) (fun k hk => hkeys k (by simp [hk])) ?_ ?_
    all_goals
      unfold Drawn.drawKey
      split
    · exact hf
    · exact hf.add he hkey rfl
    · exact hp
    · dsimp only
      split
      · exact hp.add he hkey rfl
      · exact hp

theorem fillUp_drawnFrom {seen : List CleanupEvidence} {fair : Dict Str PlanRow} (hfair : DrawnFrom seen fair)
    (limit : Option Int) : ∀ (keys : List Str) (possible : Dict Str PlanRow) (cursor : Str), DrawnFrom seen possible →
      DrawnFrom seen (fillUp limit fair keys possible cursor).1
  | [], possible, cursor, h => h
  | key :: keys, possible, cursor, h => by
    unfold fillUp
    split
    · exact h
    · refine fillUp_drawnFrom hfair limit keys _ _ ?_
      split
      · rename_i row _ hrow
        obtain ⟨e, he, hk, hc⟩ := hfair key row hrow
        exact h.set he hk hc
      · exact h

/-! ## What the second pass strikes out -/

/-- The keys now served from are those of the first pass: only the owner that is shown may change. -/
def SameKeys (possible possible' : Dict Str PlanRow) : Prop :=
  ∀ k, (possible'.lookup k).map PlanRow.canonicalKey = (possible.lookup k).map PlanRow.canonicalKey

theorem SameKeys.mem_keys {possible possible' : Dict Str PlanRow} (h : SameKeys possible possible') {k : Str} :
    k ∈ possible'.keys ↔ k ∈ possible.keys := by
  have := h k
  rw [← not_iff_not, ← Dict.lookup_eq_none_iff, ← Dict.lookup_eq_none_iff]
  constructor <;> intro hn <;> simpa [hn] using this

/-- What the owners seen so far have struck out. -/
structure Findings.Struck (possible : Dict Str PlanRow) (seen : List CleanupEvidence) (f : Findings) : Prop where
  same : SameKeys possible f.possible
  active : ∀ e ∈ seen, e.target ∈ possible.keys → e.target ∈ f.active
  blocked : ∀ e ∈ seen, e.blocked = true → ∀ k ∈ e.target :: e.keys, k ∈ watchedKeys possible → k ∈ f.unsafeKeys
  conflicts : ∀ e ∈ seen, e.eligible = true → e.blocked = false → ∀ k ∈ e.keys, k ≠ e.target →
    ∀ row, possible.lookup k = some row → row.canonicalKey ≠ e.target → k ∈ f.conflicts

theorem Findings.attributeTo_spec (e : CleanupEvidence) (f : Findings) (key : Str) :
    SameKeys f.possible (f.attributeTo e key).possible ∧ (f.attributeTo e key).unsafeKeys = f.unsafeKeys ∧
      (f.attributeTo e key).active = f.active ∧ (f.attributeTo e key).conflicts = f.conflicts := by
  unfold attributeTo
  split
  · exact ⟨fun k => rfl, rfl, rfl, rfl⟩
  split
  · exact ⟨fun k => rfl, rfl, rfl, rfl⟩
  · rename_i row hrow
    refine ⟨fun k => ?_, rfl, rfl, rfl⟩
    rw [Dict.lookup_set]
    split
    · rename_i hk
      rw [hk, hrow]
      rfl
    · rfl

/-- **The keys of one owner**: a key that is drawn for another canonical key becomes a conflict. -/
theorem Findings.own_all (e : CleanupEvidence) (f : Findings) (keys : List Str) :
    SameKeys f.possible (keys.foldl (own e) f).possible ∧ (keys.foldl (own e) f).unsafeKeys = f.unsafeKeys ∧
      (keys.foldl (own e) f).active = f.active ∧ f.conflicts ⊆ (keys.foldl (own e) f).conflicts ∧
      ∀ k ∈ keys, k ≠ e.target → ∀ row, f.possible.lookup k = some row → row.canonicalKey ≠ e.target →
        k ∈ (keys.foldl (own e) f).conflicts := by
  refine foldl_inv (fun pre (g : Findings) => SameKeys f.possible g.possible ∧ g.unsafeKeys = f.unsafeKeys ∧
    g.active = f.active ∧ f.conflicts ⊆ g.conflicts ∧ ∀ k ∈ pre, k ≠ e.target → ∀ row, f.possible.lookup k = some row →
      row.canonicalKey ≠ e.target → k ∈ g.conflicts) ⟨fun k => rfl, rfl, rfl, fun _ h => h, by simp⟩ ?_ keys
  rintro pre key g ⟨hsame, hu, ha, hc, hall⟩
  obtain ⟨hsame', hu', ha', hc'⟩ := attributeTo_spec e g key
  have hsame'' : SameKeys f.possible (g.attributeTo e key).possible := fun k => (hsame' k).trans (hsame k)
  unfold own
  split
  · rename_i hkey
    refine ⟨hsame, hu, ha, hc, fun k hk hne row hrow hcan => ?_⟩
    rcases List.mem_append.1 hk with hk | hk
    · exact hall k hk hne row hrow hcan
    · exact absurd ((List.mem_singleton.1 hk).trans hkey) hne
  dsimp only
  split
  · refine ⟨hsame'', hu'.trans hu, ha'.trans ha, fun k hk => ?_, fun k hk hne row hrow hcan => ?_⟩
    · rw [List.mem_cons, hc']
      exact Or.inr (hc hk)
    · rw [List.mem_cons, hc']
      rcases List.mem_append.1 hk with hk | hk
      · exact Or.inr (hall k hk hne row hrow hcan)
      · exact Or.inl (List.mem_singleton.1 hk)
  · rename_i hnone
    refine ⟨hsame'', hu'.trans hu, ha'.trans ha, hc' ▸ hc, fun k hk hne row hrow hcan => ?_⟩
    rw [hc']
    rcases List.mem_append.1 hk with hk | hk
    · exact hall k hk hne row hrow hcan
    · obtain rfl := List.mem_singleton.1 hk
      have := hsame'' k
      rw [hrow] at this
      obtain ⟨row', hrow', hcan'⟩ := Option.map_eq_some_iff.1 this
      rw [hrow', Option.any_some, hcan'] at hnone
      exact absurd hcan (by simpa using hnone)

theorem Findings.noteActive_spec (f : Findings) (e : CleanupEvidence) : (f.noteActive e).possible = f.possible ∧
    (∀ k, k ∈ (f.noteActive e).active ↔ k ∈ f.active ∨ (k = e.target ∧ e.target ∈ f.possible.keys)) ∧
      (f.noteActive e).unsafeKeys = f.unsafeKeys ∧ (f.noteActive e).conflicts = f.conflicts := by
  unfold noteActive
  split
  · rename_i ht
    exact ⟨rfl, fun k => by simp [ht, or_comm], rfl, rfl⟩
  · rename_i ht
    exact ⟨rfl, fun k => by simp [ht], rfl, rfl⟩

theorem Findings.noteBlocked_spec (watched : List Str) (f : Findings) (e : CleanupEvidence) :
    (f.noteBlocked watched e).possible = f.possible ∧ (f.noteBlocked watched e).active = f.active ∧
      f.unsafeKeys ⊆ (f.noteBlocked watched e).unsafeKeys ∧ (f.noteBlocked watched e).conflicts = f.conflicts ∧
      (e.blocked = true → ∀ k ∈ e.target :: e.keys, k ∈ watched → k ∈ (f.noteBlocked watched e).unsafeKeys) := by
  unfold noteBlocked
  split
  · refine ⟨rfl, rfl, List.subset_append_right _ _, rfl, fun _ k hk hw => ?_⟩
    exact List.mem_append_left _ (List.mem_filter.2 ⟨hk, by simpa using hw⟩)
  · rename_i hb
    exact ⟨rfl, rfl, fun _ h => h, rfl, fun h => absurd h hb⟩

/-- **One owner strikes out** what it needs, and leaves what others have struck out. -/
theorem Findings.note_struck {possible : Dict Str PlanRow} {seen : List CleanupEvidence} {f : Findings}
    (h : f.Struck possible seen) (e : CleanupEvidence) :
    (f.note (watchedKeys possible) e).Struck possible (seen ++ [e]) := by
  obtain ⟨hpos, hactive, hrisky, hconf⟩ := noteActive_spec f e
  obtain ⟨hpos', hactive', hrisky', hconf', hblocked⟩ := noteBlocked_spec (watchedKeys possible) (f.noteActive e) e
  -- what is left are the keys of the owner, from the findings `g`
  obtain ⟨g, hg⟩ : ∃ g, g = (f.noteActive e).noteBlocked (watchedKeys possible) e := ⟨_, rfl⟩
  rw [← hg] at hpos' hactive' hrisky' hconf' hblocked
  rw [hpos] at hpos'
  rw [hrisky] at hrisky'
  rw [hconf] at hconf'
  have hsame : SameKeys possible g.possible := hpos' ▸ h.same
  obtain ⟨hs, hu, ha, hc, hall⟩ : SameKeys possible (f.note (watchedKeys possible) e).possible ∧
      (f.note (watchedKeys possible) e).unsafeKeys = g.unsafeKeys ∧ (f.note (watchedKeys possible) e).active = g.active ∧
      f.conflicts ⊆ (f.note (watchedKeys possible) e).conflicts ∧ (e.eligible = true → e.blocked = false →
        ∀ k ∈ e.keys, k ≠ e.target → ∀ row, possible.lookup k = some row → row.canonicalKey ≠ e.target →
          k ∈ (f.note (watchedKeys possible) e).conflicts) := by
    unfold note
    dsimp only
    rw [← hg]
    split
    · obtain ⟨hs, hu, ha, hc, hall⟩ := own_all e g (e.keys.filter (· ∈ g.possible.keys))
      refine ⟨fun k => (hs k).trans (hsame k), hu, ha, hconf' ▸ hc, fun _ _ k hk hne row hrow hcan => ?_⟩
      have := hsame k
      rw [hrow] at this
      obtain ⟨row', hrow', hcan'⟩ := Option.map_eq_some_iff.1 this
      have hkey : k ∈ g.possible.keys := by
        by_contra hn
        rw [Dict.lookup_eq_none_iff.2 hn] at hrow'
        cases hrow'
      exact hall k (by simp [hk, hkey]) hne row' hrow' (hcan' ▸ hcan)
    · rename_i hne
      exact ⟨hsame, rfl, rfl, hconf' ▸ fun _ h => h, fun he hb => absurd (by simp [he, hb]) hne⟩
  constructor
  · exact hs
  · intro e' he' ht
    rw [ha, hactive', hactive]
    rcases List.mem_append.1 he' with he' | he'
    · exact Or.inl (h.active e' he' ht)
    · obtain rfl := List.mem_singleton.1 he'
      exact Or.inr ⟨rfl, h.same.mem_keys.2 ht⟩
  · intro e' he' hb k hk hw
    rw [hu]
    rcases List.mem_append.1 he' with he' | he'
    · exact hrisky' (h.blocked e' he' hb k hk hw)
    · obtain rfl := List.mem_singleton.1 he'
      exact hblocked hb k hk hw
  · intro e' he' hel hb k hk hne row hrow hcan
    rcases List.mem_append.1 he' with he' | he'
    · exact hc (h.conflicts e' he' hel hb k hk hne row hrow hcan)
    · obtain rfl := List.mem_singleton.1 he'
      exact hall hel hb k hk hne row hrow hcan

theorem noteAll_struck (possible : Dict Str PlanRow) (evidence : List CleanupEvidence) :
    (noteAll possible evidence).Struck possible evidence :=
  foldl_inv (fun seen f => Findings.Struck possible seen f) ⟨fun k => rfl, by simp, by simp, by simp⟩
    (fun _ e _ h => Findings.note_struck h e) evidence

theorem Findings.lookup_candidates {f : Findings} {k : Str} {row : PlanRow} (h : f.candidates.lookup k = some row) :
    f.possible.lookup k = some row ∧ f.keeps k row = true := by
  have h' := Dict.mem_of_lookup_ofPairs h
  obtain ⟨key, -, hkey⟩ := List.mem_filterMap.1 h'
  obtain ⟨row', hrow, hkey⟩ := Option.bind_eq_some_iff.1 hkey
  split at hkey
  · rename_i hkeep
    cases hkey
    exact ⟨hrow, hkeep⟩
  · cases hkey

/-! ## Who is heard -/

theorem Database.mem_cleanupRows {db : Database} {ids : List Str} {row : CleanupRow} : row ∈ db.cleanupRows ids ↔
    row.repoId ∈ ids ∧ row.lastCheck = (db.repoState.get row.repoId).map RepoState.lastCheck ∧
      row.sourceIdentity = (db.repoState.get row.repoId).bind RepoState.sourceIdentity ∧
      ((row.artifact = false ∧ ∃ p ∈ db.packagesOf row.repoId, p.packageKey = row.packageKey ∧ p.filename = row.filename ∧
          row.pending = (db.pendingReplacements.get p.pk).isSome ∧
          row.warmed = (db.warmedPackages.get p.pk).any WarmedRow.ok) ∨
        (row.artifact = true ∧ row.pending = false ∧ row.warmed = false ∧ ∃ a ∈ db.nixArtifacts.rows,
          a.repoId = row.repoId ∧ (db.repoPackages.get (a.repoId, a.packageKey)).isSome ∧
          a.packageKey = row.packageKey ∧ a.filename = row.filename)) := by
  obtain ⟨id, key, filename, lastCheck, source, pending, warmed, artifact⟩ := row
  simp only [cleanupRows, List.mem_flatMap, List.mem_append, List.mem_map, List.mem_filter, decide_eq_true_eq,
    CleanupRow.mk.injEq]
  constructor
  · rintro ⟨id, hid, ⟨p, hp, rfl, rfl, rfl, rfl, rfl, rfl, rfl, rfl⟩ | ⟨a, ⟨ha, rfl, hs⟩, rfl, rfl, rfl, rfl, rfl, rfl, rfl, rfl⟩⟩
    · exact ⟨hid, rfl, rfl, Or.inl ⟨rfl, p, hp, rfl, rfl, rfl, rfl⟩⟩
    · exact ⟨hid, rfl, rfl, Or.inr ⟨rfl, rfl, rfl, a, ha, rfl, hs, rfl, rfl⟩⟩
  · rintro ⟨hid, rfl, rfl, ⟨rfl, p, hp, rfl, rfl, rfl, rfl⟩ | ⟨rfl, rfl, rfl, a, ha, rfl, hs, rfl, rfl⟩⟩
    · exact ⟨id, hid, Or.inl ⟨p, hp, rfl, rfl, rfl, rfl, rfl, rfl, rfl, rfl⟩⟩
    · exact ⟨_, hid, Or.inr ⟨a, ⟨ha, rfl, hs⟩, rfl, rfl, rfl, rfl, rfl, rfl, rfl, rfl⟩⟩

/-- **The evidence** is that of the rows of the configured repositories, and of no others. -/
theorem mem_evidence {lower : Str → Str} {identity : RepoConfig → Str} {config : Config} {db : Database}
    {builder : CacheKeyBuilder} {redirects : Dict Str Str} {ev : List CleanupEvidence}
    (h : evidence lower identity config db builder redirects = .ok ev) {e : CleanupEvidence} :
    e ∈ ev ↔ ∃ repo ∈ config.repos, ∃ keyFor, builder.forRepo repo = .ok keyFor ∧
      ∃ row ∈ db.cleanupRows [repo.id], evidenceOf lower identity config redirects repo keyFor row = some e := by
  obtain ⟨bound, hbound, h⟩ := bind_eq_ok.1 h
  cases h
  simp only [List.mem_filterMap, Option.bind_eq_some_iff, boundKeys_lookup hbound, Database.mem_cleanupRows,
    mem_sortedStr, List.mem_singleton]
  constructor
  · rintro ⟨row, ⟨-, hrow⟩, repo, hrepo, keyFor, ⟨repo', hrepo', hk⟩, he⟩
    rw [hrepo] at hrepo'
    cases hrepo'
    obtain ⟨hmem, hid⟩ := Config.repoById_eq_some hrepo
    exact ⟨repo, hmem, keyFor, hk, row, ⟨hid.symm, hrow⟩, he⟩
  · rintro ⟨repo, hmem, keyFor, hk, row, ⟨hid, hrow⟩, he⟩
    have hrepo := Config.repoById_of_mem hmem
    rw [← hid] at hrepo
    exact ⟨row, ⟨hid ▸ List.mem_map_of_mem hmem, hrow⟩, repo, hrepo, keyFor, ⟨repo, hrepo, hk⟩, he⟩

/-- **The keys that owners are served from**: the redirected keys of packages, and those of the current artifacts of Nix
repositories. -/
theorem exists_target_iff {lower : Str → Str} {identity : RepoConfig → Str} {config : Config} {db : Database}
    {builder : CacheKeyBuilder} {redirects : Dict Str Str} {ev : List CleanupEvidence}
    (h : evidence lower identity config db builder redirects = .ok ev) {k : Str} :
    (∃ e ∈ ev, e.target = k) ↔ ∃ repo ∈ config.repos, ∃ keyFor, builder.forRepo repo = .ok keyFor ∧
      ((∃ p ∈ db.packagesOf repo.id,
          (redirects.lookup (lower (packagePath repo p.filename))).getD (keyFor.key p.filename) = k) ∨
        (repo.type = .nix ∧ ∃ a ∈ db.nixArtifacts.rows, a.repoId = repo.id ∧
          (db.repoPackages.get (a.repoId, a.packageKey)).isSome ∧ keyFor.key a.filename = k)) := by
  constructor
  · rintro ⟨e, he, rfl⟩
    obtain ⟨repo, hrepo, keyFor, hkey, row, hrow, hev⟩ := (mem_evidence h).1 he
    obtain ⟨hid, -, -, hkind⟩ := Database.mem_cleanupRows.1 hrow
    rw [List.mem_singleton] at hid
    refine ⟨repo, hrepo, keyFor, hkey, ?_⟩
    unfold evidenceOf at hev
    rcases hkind with ⟨hart, p, hp, -, hfile, -, -⟩ | ⟨hart, -, -, a, ha, haid, hcur, -, hfile⟩
    · rw [if_neg (by rw [hart]; exact Bool.false_ne_true)] at hev
      cases hev
      exact .inl ⟨p, hid ▸ hp, by rw [hfile]⟩
    · rw [if_pos hart] at hev
      split at hev
      · rename_i htype
        cases hev
        exact .inr ⟨htype, a, ha, haid.trans hid, hcur, by rw [hfile]⟩
      · cases hev
  · rintro ⟨repo, hrepo, keyFor, hkey, ⟨p, hp, rfl⟩ | ⟨htype, a, ha, haid, hcur, rfl⟩⟩
    · have hrow : (⟨repo.id, p.packageKey, p.filename, (db.repoState.get repo.id).map RepoState.lastCheck,
          (db.repoState.get repo.id).bind RepoState.sourceIdentity, (db.pendingReplacements.get p.pk).isSome,
          (db.warmedPackages.get p.pk).any WarmedRow.ok, false⟩ : CleanupRow) ∈ db.cleanupRows [repo.id] :=
        Database.mem_cleanupRows.2 ⟨List.mem_singleton_self _, rfl, rfl, .inl ⟨rfl, p, hp, rfl, rfl, rfl, rfl⟩⟩
      exact ⟨_, (mem_evidence h).2 ⟨repo, hrepo, keyFor, hkey, _, hrow, rfl⟩, rfl⟩
    · have hrow : (⟨repo.id, a.packageKey, a.filename, (db.repoState.get repo.id).map RepoState.lastCheck,
          (db.repoState.get repo.id).bind RepoState.sourceIdentity, false, false, true⟩ : CleanupRow) ∈
          db.cleanupRows [repo.id] :=
        Database.mem_cleanupRows.2 ⟨List.mem_singleton_self _, rfl, rfl,
          .inr ⟨rfl, rfl, rfl, a, ha, haid, hcur, rfl, rfl⟩⟩
      refine ⟨⟨repo.id, a.filename, [], keyFor.key a.filename, false, false, false⟩,
        (mem_evidence h).2 ⟨repo, hrepo, keyFor, hkey, _, hrow, ?_⟩, rfl⟩
      unfold evidenceOf
      rw [if_pos rfl, if_pos htype]

/-- The evidence that a plan over a database hears. -/
def HeardEvidence (lower : Str → Str) (identity : RepoConfig → Str) (config : Config) (db : Database)
    (ev : List CleanupEvidence) : Prop :=
  ∃ builder redirects, CacheKeyBuilder.new config = .ok builder ∧
    dedupKeys lower config db.findDuplicateFiles builder (acceptedPairs lower config db db.findDuplicateFiles) =
      .ok redirects ∧ evidence lower identity config db builder redirects = .ok ev

theorem makePlanFrom_ok {lower : Str → Str} {identity : RepoConfig → Str}
    {dedupGeneration : Config → List (Str × Str) → Except Error Str} {config : Config} {reads : PlanReads}
    {args : CleanupArgs} {plan : CleanupPlan}
    (h : makePlanFrom lower identity dedupGeneration config reads args = .ok plan) :
    plan.config = config ∧ plan.revisions = reads.revisions.getSnapshotRevisions ∧
      ∃ builder redirects first second, CacheKeyBuilder.new config = .ok builder ∧
        dedupKeys lower config reads.duplicates.findDuplicateFiles builder
          (acceptedPairs lower config reads.owners reads.duplicates.findDuplicateFiles) = .ok redirects ∧
        evidence lower identity config reads.first builder redirects = .ok first ∧
        evidence lower identity config reads.second builder redirects = .ok second ∧
        ∃ keys, plan.candidates = (noteAll (fillUp args.limit (drawAll args first).fair.rows keys
          (drawAll args first).priority.rows args.after).1 second).candidates := by
  unfold makePlanFrom at h
  split at h
  · cases h
  obtain ⟨builder, hbuilder, h⟩ := bind_eq_ok.1 h
  obtain ⟨redirects, hredirects, h⟩ := bind_eq_ok.1 h
  obtain ⟨generation, hgeneration, h⟩ := bind_eq_ok.1 h
  obtain ⟨first, hfirst, h⟩ := bind_eq_ok.1 h
  obtain ⟨second, hsecond, h⟩ := bind_eq_ok.1 h
  dsimp only at h
  split at h
  · cases h
  cases h
  exact ⟨rfl, rfl, builder, redirects, first, second, hbuilder, hredirects, hfirst, hsecond, _, rfl⟩

theorem makePlan_ok {lower : Str → Str} {identity : RepoConfig → Str}
    {dedupGeneration : Config → List (Str × Str) → Except Error Str} {config : Config} {db later : Database}
    {args : CleanupArgs} {plan : CleanupPlan}
    (h : makePlan lower identity dedupGeneration config db later args = .ok plan) :
    ∃ ev, HeardEvidence lower identity config db ev ∧ ∃ keys, plan.candidates = (noteAll (fillUp args.limit
      (drawAll args ev).fair.rows keys (drawAll args ev).priority.rows args.after).1 ev).candidates := by
  rw [makePlan_eq] at h
  obtain ⟨-, -, builder, redirects, ev, ev', hbuilder, hredirects, hev, hev', hkeys⟩ := makePlanFrom_ok h
  rw [hev] at hev'
  cases hev'
  exact ⟨ev, ⟨builder, redirects, hbuilder, hredirects, hev⟩, hkeys⟩

/-! ## Safety -/

/-- The key may be removed: no owner needs it, and every owner that left it is served from one key that stays. -/
structure SafeToRemove (ev : List CleanupEvidence) (candidates : Dict Str PlanRow) (k : Str) (row : PlanRow) : Prop where
  notServed : ∀ e ∈ ev, e.target ≠ k
  notBlocked : ∀ e ∈ ev, e.blocked = true → k ∉ e.target :: e.keys ∧ row.canonicalKey ∉ e.target :: e.keys
  oneCanonical : ∀ e ∈ ev, e.eligible = true → e.blocked = false → k ∈ e.keys → e.target ≠ k →
    e.target = row.canonicalKey
  moved : row.canonicalKey ≠ k
  kept : candidates.lookup row.canonicalKey = none

/-- A candidate was drawn, and nothing struck it out. -/
theorem noteAll_candidate {possible : Dict Str PlanRow} {ev : List CleanupEvidence} {k : Str} {row : PlanRow}
    (h : (noteAll possible ev).candidates.lookup k = some row) : k ∈ possible.keys ∧ k ∉ (noteAll possible ev).active := by
  obtain ⟨hp, hkeep⟩ := Findings.lookup_candidates h
  refine ⟨(noteAll_struck possible ev).same.mem_keys.1 ?_, ?_⟩
  · by_contra hn
    rw [Dict.lookup_eq_none_iff.2 hn] at hp
    cases hp
  · simp [Findings.keeps] at hkeep
    exact hkeep.1.2.1

/-- No owner that the second pass hears is served from a candidate. -/
theorem noteAll_notServed {possible : Dict Str PlanRow} {ev : List CleanupEvidence} {k : Str} {row : PlanRow}
    (h : (noteAll possible ev).candidates.lookup k = some row) : ∀ e ∈ ev, e.target ≠ k := by
  rintro e he rfl
  obtain ⟨hk, hactive⟩ := noteAll_candidate h
  exact hactive ((noteAll_struck possible ev).active e he hk)

theorem noteAll_safe {possible : Dict Str PlanRow} {ev : List CleanupEvidence} (hdrawn : DrawnFrom ev possible)
    {k : Str} {row : PlanRow} (h : (noteAll possible ev).candidates.lookup k = some row) :
    SafeToRemove ev (noteAll possible ev).candidates k row := by
  have hstruck := noteAll_struck possible ev
  obtain ⟨hk, -⟩ := noteAll_candidate h
  obtain ⟨hp, hkeep⟩ := Findings.lookup_candidates h
  obtain ⟨hrisky, hconflict, hcanon⟩ : k ∉ (noteAll possible ev).unsafeKeys ∧ k ∉ (noteAll possible ev).conflicts ∧
      row.canonicalKey ∉ (noteAll possible ev).unsafeKeys := by
    simp [Findings.keeps] at hkeep
    exact ⟨hkeep.1.1, hkeep.1.2.2, hkeep.2⟩
  -- the row as it was drawn, before its display attribution
  have hsame := hstruck.same k
  rw [hp] at hsame
  obtain ⟨drawn, hdrawnRow, hdrawnKey⟩ := Option.map_eq_some_iff.1 hsame.symm
  have hwatched : row.canonicalKey ∈ watchedKeys possible := by
    rw [← hdrawnKey]
    exact List.mem_append_right _ (List.mem_map.2 ⟨_, Dict.lookup_eq_some_iff.1 hdrawnRow, rfl⟩)
  obtain ⟨e₀, he₀, hne₀, hcan₀⟩ := hdrawn k drawn hdrawnRow
  rw [hdrawnKey] at hcan₀
  refine ⟨noteAll_notServed h, fun e he hb => ⟨fun hm => ?_, fun hm => ?_⟩, fun e he hel hb hkey hne => ?_, ?_, ?_⟩
  · exact hrisky (hstruck.blocked e he hb k hm (List.mem_append_left _ hk))
  · exact hcanon (hstruck.blocked e he hb _ hm hwatched)
  · by_contra hc
    exact hconflict (hstruck.conflicts e he hel hb k hkey hne.symm drawn hdrawnRow (hdrawnKey ▸ Ne.symm hc))
  · exact fun he => hne₀ (he ▸ hcan₀)
  · cases hl : (noteAll possible ev).candidates.lookup row.canonicalKey with
    | none => rfl
    | some other =>
      obtain ⟨hk', hactive'⟩ := noteAll_candidate hl
      exact absurd (hcan₀ ▸ hstruck.active e₀ he₀ (hcan₀ ▸ hk')) hactive'

/-- **A cleanup plan is safe**: each of its keys may be removed, by the evidence of every configured owner. -/
theorem makePlan_safe (lower : Str → Str) (identity : RepoConfig → Str)
    (dedupGeneration : Config → List (Str × Str) → Except Error Str) (config : Config) (db later : Database)
    (args : CleanupArgs) (plan : CleanupPlan)
    (h : makePlan lower identity dedupGeneration config db later args = .ok plan) :
    ∃ ev, HeardEvidence lower identity config db ev ∧
      ∀ k row, plan.candidates.lookup k = some row → SafeToRemove ev plan.candidates k row := by
  obtain ⟨ev, hev, keys, hcandidates⟩ := makePlan_ok h
  refine ⟨ev, hev, fun k row hl => ?_⟩
  obtain ⟨hfair, hpriority⟩ := drawAll_drawnFrom args ev
  rw [hcandidates] at hl ⊢
  exact noteAll_safe (fillUp_drawnFrom hfair args.limit keys _ _ hpriority) hl

def checkedTwinDb : Database :=
  { twinDb with
    repoState := Table.empty.upsertAll
      [{ repoId := "a".toList, lastCheck := "t".toList, sourceIdentity := some "a".toList },
       { repoId := "b".toList, lastCheck := "t".toList, sourceIdentity := some "b".toList }] }

/-- A plan over the twins: the copy of `b` may go, as `b` is served from the copy of `a`. -/
theorem makePlan_safe_twins : ∃ plan : CleanupPlan, (∃ row, plan.candidates.lookup "httph/y/q.rpm".toList = some row) ∧
    ∃ ev, HeardEvidence asciiLower (fun repo => repo.id) twinConfig checkedTwinDb ev ∧
      ∀ k row, plan.candidates.lookup k = some row → SafeToRemove ev plan.candidates k row := by
  have hfound : (makePlan asciiLower (fun repo => repo.id) (fun _ _ => .ok []) twinConfig checkedTwinDb checkedTwinDb
      {}).toOption.any (fun plan => (plan.candidates.lookup "httph/y/q.rpm".toList).isSome) = true := by decide +kernel
  cases h : makePlan asciiLower (fun repo => repo.id) (fun _ _ => .ok []) twinConfig checkedTwinDb checkedTwinDb {} with
  | error e => simp [h, Except.toOption] at hfound
  | ok plan =>
    rw [h] at hfound
    exact ⟨plan, Option.isSome_iff_exists.1 hfound, makePlan_safe asciiLower (fun repo => repo.id) (fun _ _ => .ok [])
      twinConfig checkedTwinDb checkedTwinDb {} plan h⟩

end RepoWatch
