import RepoWatch.Apply
import RepoWatch.DedupMap
import RepoWatch.Revisions
/-!
# Reconcile — when `apply` may skip the rendering

`apply` digests its inputs before it reads the catalog and again after it has published; only when the two agree does the
status file keep the digest, and a later call whose inputs have that digest, over files with the digest that was published,
returns without rendering.  Snapshots may be committed between any two reads of a call.  That the digest stands for what
was read in between rests on the revisions: one that is the same before and after never moved (`dedupPairs_between`).

SHA-256 and the renderers other than `render_dedup` are parameters, and so is `str.lower`.
-/
namespace RepoWatch

open Lib

/-! ## Inputs -/

/-- The configuration file: the part that is modelled, the path of the database, and the other fields. -/
structure ConfigFile extends Config where
  stateDb : Str
  others : Str
  deriving DecidableEq

/-- The policy file: the keys that `apply` reads, and the others. -/
structure Policy where
  siteLink : Str
  cacheDir : Str
  accessLog : Str
  nginxBinary : Str
  nginxConf : Str
  others : Str
  deriving DecidableEq

/-- A database file: its device and inode, and what is in it. -/
structure CatalogFile where
  identity : Nat × Nat
  db : Database

/-- The database files, by path. -/
abbrev Catalogs := Str → Option CatalogFile

/-- `data` of `input_digest`, without the digest of the renderer's code, which stays the same. -/
structure InputData where
  config : ConfigFile
  policy : Policy
  catalog : Option ((Nat × Nat) × List (Str × Nat))
  deriving DecidableEq

/-- The revisions as `json.dumps(…, sort_keys=True)` writes them. -/
def sortedRevisions (db : Database) : List (Str × Nat) :=
  db.getSnapshotRevisions.rows.insertionSort fun a b => a.1 ≤ b.1

def inputData (config : ConfigFile) (policy : Policy) (catalogs : Catalogs) : InputData where
  config := config
  policy := policy
  catalog := if config.nginx.enableDedup then
      (catalogs config.stateDb).map fun file => (file.identity, sortedRevisions file.db)
    else none

/-- SHA-256: of the joined SHA-256 digests of some contents, and of the inputs as JSON. -/
structure Sha256 (δ : Type) where
  contents : List Bytes → δ
  inputs : InputData → δ

/-- No two arguments that are digested have one digest. -/
structure Sha256.CollisionFree {δ : Type} (sha : Sha256 δ) : Prop where
  contents : Function.Injective sha.contents
  inputs : Function.Injective sha.inputs

/-- The renderers: what they compute depends on their arguments only. -/
structure Renderers where
  render : ConfigFile → Policy → List (Str × Str) → Except Error Str
  renderPurge : ConfigFile → Except Error Str
  renderProbeConf : ConfigFile → Str
  renderProbeJs : ConfigFile → Policy → List (Str × Str) → Except Error Str

/-- The five texts. -/
def Renderers.candidate (r : Renderers) (config : ConfigFile) (policy : Policy) (pairs : List (Str × Str)) :
    Except Error (Managed → Str) := do
  let candidate ← r.render config policy pairs
  let purgeCandidate ← r.renderPurge config
  let probeJsCandidate ← r.renderProbeJs config policy pairs
  return fun
    | .active => candidate
    | .purge => purgeCandidate
    | .dedup => renderDedup config.toConfig pairs
    | .probeConf => r.renderProbeConf config
    | .probeJs => probeJsCandidate

/-- A commit: an operation on a database that deletes no repository; a file that is created gets the identity. -/
structure Commit where
  path : Str
  identity : Nat × Nat
  op : RevisionOp
  keeps : ∀ r, op.deletes r = false

def Catalogs.commit (catalogs : Catalogs) (c : Commit) : Catalogs :=
  Function.update catalogs c.path (some (match catalogs c.path with
    | some file => { file with db := c.op.apply file.db }
    | none => ⟨c.identity, c.op.apply .empty⟩))

def Catalogs.commits (catalogs : Catalogs) (cs : List Commit) : Catalogs := cs.foldl Catalogs.commit catalogs

/-- What a call meets: the state of its files, the commits before each of its reads but the first, and what raises. -/
structure Call where
  force : Bool := false
  ownerOk : Bool := true
  linked : Bool := true
  beforePresent : List Commit := []
  beforeDuplicates : List Commit := []
  beforeOwners : List Commit := []
  beforeAgain : List Commit := []
  digestFails : Bool := false
  queryFails : Bool := false
  againFails : Bool := false
  faults : Faults := {}

section Model
variable {δ : Type} (lower : Str → Str) (sha : Sha256 δ) (renderers : Renderers)

/-- `input_digest`; none when the database cannot be read. -/
def inputDigest (config : ConfigFile) (policy : Policy) (catalogs : Catalogs) (fails : Bool) : Option δ :=
  if config.nginx.enableDedup && (catalogs config.stateDb).isSome && fails then none
  else some (sha.inputs (inputData config policy catalogs))

/-- `dedup_pairs`, with the catalogs at each of its three reads; none when the database cannot be read. -/
def dedupPairs (config : ConfigFile) (present duplicates owners : Catalogs) (fails : Bool) : Option (List (Str × Str)) :=
  if config.nginx.enableDedup && (present config.stateDb).isSome then
    match duplicates config.stateDb, owners config.stateDb with
    | some rows, some file =>
      if fails then none else some (acceptedPairs lower config.toConfig file.db rows.db.findDuplicateFiles)
    | _, _ => none
  else some []

/-- A full render from one state of the catalogs. -/
def fullRender (config : ConfigFile) (policy : Policy) (catalogs : Catalogs) : Option (Except Error (Managed → Str)) :=
  (dedupPairs lower config catalogs catalogs catalogs false).map (renderers.candidate config policy)

variable [DecidableEq δ]

/-- `matches`. -/
def matchesInputs (inputs : Option δ) (d : Directory δ) : Bool :=
  match inputs, d.status with
  | some inputs, some (.applied active (some saved)) =>
    decide (saved = inputs) && decide (outputDigest sha.contents (outputs.map d.managed) = some active)
  | _, _ => false

namespace Call
variable (call : Call) (catalogs : Catalogs)

def atPresent : Catalogs := catalogs.commits call.beforePresent
def atDuplicates : Catalogs := (call.atPresent catalogs).commits call.beforeDuplicates
def atOwners : Catalogs := (call.atDuplicates catalogs).commits call.beforeOwners
def atAgain : Catalogs := (call.atOwners catalogs).commits call.beforeAgain

/-- What the call renders. -/
def rendered (config : ConfigFile) (policy : Policy) : Option (Except Error (Managed → Str)) :=
  (dedupPairs lower config (call.atPresent catalogs) (call.atDuplicates catalogs) (call.atOwners catalogs)
    call.queryFails).map (renderers.candidate config policy)

end Call

/-- `apply`, with the catalogs at its first read. -/
def apply (call : Call) (config : ConfigFile) (policy : Policy) (catalogs : Catalogs) (d : Directory δ) : Outcome δ :=
  if !call.ownerOk then
    ⟨.raised (.configError
      "nginx policy and parent directories must be root-owned and not writable by others".toList), d, false⟩
  else if !call.linked then
    ⟨.raised (.configError "nginx site symlink does not point to the managed active.conf".toList), d, false⟩
  else if !config.nginx.enabled then ⟨.disabled, d, false⟩
  else if config.nginx.cacheDir.any (· ≠ policy.cacheDir) then
    ⟨.raised (.configError ("config.yaml declares nginx.cache_dir=".toList ++
      reprStr (config.nginx.cacheDir.getD []) ++ ", but the installed policy actually uses cache_dir=".toList ++
      reprStr policy.cacheDir ++ " — these must match (see docs/configuration.md#nginx). Either update ".toList ++
      "nginx.cache_dir in config.yaml to the real path, or change the real one with ".toList ++
      "CACHE_DIR=... make install && sudo make activate.".toList)), d, false⟩
  else
    let inputs := inputDigest sha config policy catalogs call.digestFails
    if !call.force && matchesInputs sha inputs d then ⟨.matched, d, false⟩
    else match call.rendered lower renderers catalogs config policy with
      | none => ⟨.databaseError, d, false⟩
      | some (.error e) => ⟨.raised e, d, false⟩
      | some (.ok candidate) =>
        applyRendered sha.contents call.faults call.force inputs
          (inputDigest sha config policy (call.atAgain catalogs) call.againFails) candidate d

end Model

/-! ## Catalogs that grow -/

/-- Every database file of the first catalogs is in the second, after some operations that delete no repository. -/
def Evolves (catalogs catalogs' : Catalogs) : Prop := ∀ path file, catalogs path = some file → ∃ file' ops,
  catalogs' path = some file' ∧ file'.identity = file.identity ∧ RevisionOp.Reached file.db ops file'.db ∧
    RevisionOp.KeepsRepos ops

/-- Every database was filled from the start. -/
def Grown (catalogs : Catalogs) : Prop :=
  ∀ path file, catalogs path = some file → ∃ ops, RevisionOp.Reached .empty ops file.db

section Catalogs
variable {catalogs catalogs₁ catalogs₂ : Catalogs}

theorem Evolves.refl (catalogs : Catalogs) : Evolves catalogs catalogs := fun _ file h =>
  ⟨file, [], h, rfl, .nil _, fun op hop => by cases hop⟩

theorem Evolves.trans (h : Evolves catalogs catalogs₁) (h' : Evolves catalogs₁ catalogs₂) :
    Evolves catalogs catalogs₂ := fun path file hf => by
  obtain ⟨file₁, ops, hf₁, hid, hrun, hkeeps⟩ := h path file hf
  obtain ⟨file₂, ops', hf₂, hid', hrun', hkeeps'⟩ := h' path file₁ hf₁
  refine ⟨file₂, ops ++ ops', hf₂, hid'.trans hid, hrun.append hrun', fun op hop => ?_⟩
  rcases List.mem_append.1 hop with hop | hop
  · exact hkeeps op hop
  · exact hkeeps' op hop

theorem evolves_commit (catalogs : Catalogs) (c : Commit) : Evolves catalogs (catalogs.commit c) := fun path file hf => by
  by_cases hp : path = c.path
  · subst hp
    refine ⟨{ file with db := c.op.apply file.db }, [c.op], ?_, rfl, .snoc (.nil _) rfl, fun op hop => ?_⟩
    · rw [Catalogs.commit, Function.update_self, hf]
    · obtain rfl := List.mem_singleton.1 hop
      exact c.keeps
  · refine ⟨file, [], ?_, rfl, .nil _, fun op hop => by cases hop⟩
    rw [Catalogs.commit, Function.update_of_ne hp, hf]

theorem grown_commit (h : Grown catalogs) (c : Commit) : Grown (catalogs.commit c) := fun path file hf => by
  by_cases hp : path = c.path
  · subst hp
    rw [Catalogs.commit, Function.update_self, Option.some.injEq] at hf
    subst hf
    cases hc : catalogs c.path with
    | none => exact ⟨[c.op], .snoc (.nil _) rfl⟩
    | some file =>
      obtain ⟨ops, hrun⟩ := h _ _ hc
      exact ⟨ops ++ [c.op], .snoc hrun rfl⟩
  · rw [Catalogs.commit, Function.update_of_ne hp] at hf
    exact h path file hf

theorem evolves_commits (catalogs : Catalogs) (cs : List Commit) : Evolves catalogs (catalogs.commits cs) :=
  foldl_inv (fun _ c => Evolves catalogs c) (.refl catalogs) (fun _ c _ h => h.trans (evolves_commit _ c)) cs

theorem grown_commits (h : Grown catalogs) (cs : List Commit) : Grown (catalogs.commits cs) :=
  foldl_inv (fun _ c => Grown c) h (fun _ c _ h => grown_commit h c) cs

/-! ## Equal inputs -/

theorem revision_eq_of_sortedRevisions {db db' : Database} (h : sortedRevisions db = sortedRevisions db') (r : Str) :
    db.revision r = db'.revision r := by
  have hmem : ∀ p, p ∈ db.getSnapshotRevisions.rows ↔ p ∈ db'.getSnapshotRevisions.rows := fun p => by
    unfold sortedRevisions at h
    rw [← List.mem_insertionSort (fun a b : Str × Nat => a.1 ≤ b.1), h, List.mem_insertionSort]
  rw [← Database.lookup_getSnapshotRevisions, ← Database.lookup_getSnapshotRevisions]
  ext n
  rw [Dict.lookup_eq_some_iff, Dict.lookup_eq_some_iff, hmem]

/-- **Inputs that are the same before and after** stand for what was read in between. -/
theorem dedupPairs_between {lower : Str → Str} {config : ConfigFile} {policy : Policy} {c c₁ c₂ c₃ c₄ : Catalogs}
    (hgrown : Grown c) (h₁ : Evolves c c₁) (h₂ : Evolves c₁ c₂) (h₃ : Evolves c₂ c₃) (h₄ : Evolves c₃ c₄)
    (hsame : inputData config policy c = inputData config policy c₄) {pairs : List (Str × Str)} {fails : Bool}
    (h : dedupPairs lower config c₁ c₂ c₃ fails = some pairs) : dedupPairs lower config c c c false = some pairs := by
  unfold dedupPairs at h ⊢
  cases hdedup : config.nginx.enableDedup with
  | false => simpa [hdedup] using h
  | true =>
    unfold inputData at hsame
    simp only [hdedup, if_true, InputData.mk.injEq, true_and] at hsame
    cases hc : c config.stateDb with
    | none =>
      -- no file before and after, so none in between
      rw [hc, Option.map_none, eq_comm, Option.map_eq_none_iff] at hsame
      have hnone : c₁ config.stateDb = none := by
        by_contra hn
        obtain ⟨file, hfile⟩ := Option.ne_none_iff_exists'.1 hn
        obtain ⟨file', -, hfile', -⟩ := (h₂.trans (h₃.trans h₄)) _ _ hfile
        rw [hsame] at hfile'
        cases hfile'
      simpa [hdedup, hnone] using h
    | some file =>
      obtain ⟨ops, hbefore⟩ := hgrown _ _ hc
      obtain ⟨file₁, -, hc₁, -⟩ := h₁ _ _ hc
      obtain ⟨file₂, ops₂, hc₂, -, hrun₂, hkeeps₂⟩ := (h₁.trans h₂) _ _ hc
      obtain ⟨file₃, ops₃, hc₃, -, hrun₃, hkeeps₃⟩ := (h₁.trans (h₂.trans h₃)) _ _ hc
      obtain ⟨file₄, ops₄, hc₄, -, hrun₄, hkeeps₄⟩ := h₄ _ _ hc₃
      obtain ⟨file₄', ops₄', hc₄', -, hrun₄', hkeeps₄'⟩ := (h₃.trans h₄) _ _ hc₂
      rw [hc₄, Option.some.injEq] at hc₄'
      subst hc₄'
      rw [hc, hc₄, Option.map_some, Option.map_some, Option.some.injEq, Prod.mk.injEq] at hsame
      have hrev := revision_eq_of_sortedRevisions hsame.2
      have hsame₂ : file.db.SameFiles file₂.db := Database.sameFiles_of_content
        (RevisionOp.content_eq_between hbefore hrun₂ hkeeps₂ hrun₄' hkeeps₄' hrev)
      have hsame₃ : file.db.SameFiles file₃.db := Database.sameFiles_of_content
        (RevisionOp.content_eq_between hbefore hrun₃ hkeeps₃ hrun₄ hkeeps₄ hrev)
      simp only [hdedup, hc₁, hc₂, hc₃, Option.isSome_some, Bool.and_self, if_true] at h
      simp only [Option.isSome_some, Bool.and_self, if_true, Bool.false_eq_true, if_false]
      split at h
      · cases h
      · rw [Database.findDuplicateFiles_congr hsame₂, acceptedPairs_congr hsame₃]
        exact h

end Catalogs

/-! ## One call -/

section Call
variable {δ : Type} (lower : Str → Str) (sha : Sha256 δ) (renderers : Renderers) (call : Call) (config : ConfigFile)
  (policy : Policy) (catalogs : Catalogs) (d : Directory δ)

theorem evolves_atAgain : Evolves catalogs (call.atAgain catalogs) :=
  (evolves_commits _ _).trans ((evolves_commits _ _).trans ((evolves_commits _ _).trans (evolves_commits _ _)))

theorem grown_atAgain (h : Grown catalogs) : Grown (call.atAgain catalogs) :=
  grown_commits (grown_commits (grown_commits (grown_commits h _) _) _) _

section Digests
variable {lower sha renderers call config policy catalogs d}

theorem inputDigest_eq_some {fails : Bool} {i : δ} (h : inputDigest sha config policy catalogs fails = some i) :
    i = sha.inputs (inputData config policy catalogs) := by
  unfold inputDigest at h
  split at h
  · cases h
  · exact (Option.some.inj h).symm

/-- **What a call renders between two equal digests** is a full render from the catalogs at its first read. -/
theorem fullRender_of_stable {candidate : Managed → Str} {i : δ} (hinj : sha.CollisionFree) (hgrown : Grown catalogs)
    (hrendered : call.rendered lower renderers catalogs config policy = some (.ok candidate))
    (hinputs : inputDigest sha config policy catalogs call.digestFails = some i)
    (hagain : inputDigest sha config policy (call.atAgain catalogs) call.againFails = some i) :
    fullRender lower renderers config policy catalogs = some (.ok candidate) := by
  have hsame : inputData config policy catalogs = inputData config policy (call.atAgain catalogs) :=
    hinj.inputs ((inputDigest_eq_some hinputs).symm.trans (inputDigest_eq_some hagain))
  obtain ⟨pairs, hpairs, hcandidate⟩ := Option.map_eq_some_iff.1 hrendered
  unfold fullRender
  rw [dedupPairs_between hgrown (evolves_commits _ _) (evolves_commits _ _) (evolves_commits _ _) (evolves_commits _ _)
    hsame hpairs, Option.map_some, hcandidate]

/-- A full render reads the database. -/
theorem dedupPairs_self (lower : Str → Str) (config : ConfigFile) (catalogs : Catalogs) :
    ∃ pairs, dedupPairs lower config catalogs catalogs catalogs false = some pairs := by
  unfold dedupPairs
  cases config.nginx.enableDedup <;> cases catalogs config.stateDb <;> simp

/-- **Equal inputs render the same texts**, however many commits lie between. -/
theorem fullRender_eq_of_inputData {catalogs' : Catalogs} (hgrown : Grown catalogs) (h : Evolves catalogs catalogs')
    (hsame : inputData config policy catalogs = inputData config policy catalogs') :
    fullRender lower renderers config policy catalogs' = fullRender lower renderers config policy catalogs := by
  obtain ⟨pairs, hpairs⟩ := dedupPairs_self lower config catalogs'
  unfold fullRender
  rw [hpairs, dedupPairs_between hgrown h (.refl _) (.refl _) (.refl _) hsame hpairs]

/-- Files with the digest of some texts hold these texts. -/
theorem managed_of_outputDigest {candidate : Managed → Str} (hinj : sha.CollisionFree)
    (h : outputDigest sha.contents (outputs.map d.managed) =
      some (renderedDigest sha.contents (outputs.map candidate))) (m : Managed) :
    d.managed m = some (fileOf (candidate m)) := by
  unfold outputDigest renderedDigest at h
  obtain ⟨contents, hcontents, hdigest⟩ := Option.map_eq_some_iff.1 h
  rw [hinj.contents hdigest, mapM_id_eq_some, List.map_map, List.map_map, List.map_inj_left] at hcontents
  exact hcontents m (mem_outputs m)

end Digests

variable [DecidableEq δ]

/-- The call passes its checks, does not match, and renders the candidate. -/
structure Call.Renders (candidate : Managed → Str) : Prop where
  owner : call.ownerOk = true
  linked : call.linked = true
  enabled : config.nginx.enabled = true
  cacheDir : config.nginx.cacheDir.any (· ≠ policy.cacheDir) = false
  missed : (!call.force && matchesInputs sha (inputDigest sha config policy catalogs call.digestFails) d) = false
  rendered : call.rendered lower renderers catalogs config policy = some (.ok candidate)

/-- **A call** changes nothing, or publishes what it renders. -/
theorem apply_cases :
    let run := apply lower sha renderers call config policy catalogs d
    let inputs := inputDigest sha config policy catalogs call.digestFails
    (run.dir = d ∧ run.wrote = false ∧ (run.exit = .matched → matchesInputs sha inputs d = true)) ∨
    ∃ candidate, call.Renders lower sha renderers config policy catalogs d candidate ∧
      run = applyRendered sha.contents call.faults call.force inputs
        (inputDigest sha config policy (call.atAgain catalogs) call.againFails) candidate d := by
  intro run inputs
  simp only [run, apply]
  split
  · exact Or.inl ⟨rfl, rfl, fun h => by cases h⟩
  next howner =>
  split
  · exact Or.inl ⟨rfl, rfl, fun h => by cases h⟩
  next hlinked =>
  split
  · exact Or.inl ⟨rfl, rfl, fun h => by cases h⟩
  next henabled =>
  split
  · exact Or.inl ⟨rfl, rfl, fun h => by cases h⟩
  next hcache =>
  split
  · next hmatch =>
    rw [Bool.and_eq_true] at hmatch
    exact Or.inl ⟨rfl, rfl, fun _ => hmatch.2⟩
  next hmissed =>
  split
  · exact Or.inl ⟨rfl, rfl, fun h => by cases h⟩
  · exact Or.inl ⟨rfl, rfl, fun h => by cases h⟩
  · next candidate hrendered =>
    exact Or.inr ⟨candidate, ⟨by simpa using howner, by simpa using hlinked, by simpa using henabled,
      by simpa using hcache, by simpa using hmissed, hrendered⟩, rfl⟩

end Call

/-! ## Runs of calls, edits and commits -/

/-- The database files, the directory, and whether the last call that wrote a managed file returned true. -/
structure Installation (δ : Type) where
  catalogs : Catalogs
  dir : Directory δ
  lastWrite : Option Bool

/-- A commit between calls, an edit of a managed file from outside, a call with the configuration and the policy it reads. -/
inductive Event where
  | commit (c : Commit)
  | edit (m : Managed) (content : Option Bytes)
  | apply (config : ConfigFile) (policy : Policy) (call : Call)

namespace Installation
variable {δ : Type} [DecidableEq δ] (lower : Str → Str) (sha : Sha256 δ) (renderers : Renderers)

def next (s : Installation δ) : Event → Installation δ
  | .commit c => { s with catalogs := s.catalogs.commit c }
  | .edit m content => { s with dir := { s.dir with managed := Function.update s.dir.managed m content } }
  | .apply config policy call =>
    let run := apply lower sha renderers call config policy s.catalogs s.dir
    ⟨call.atAgain s.catalogs, run.dir, if run.wrote then some (decide (run.exit.returns = some true)) else s.lastWrite⟩

/-- The call publishes while the status file says that the last one succeeded, and leaves that status behind. -/
def LosesStatus (s : Installation δ) : Event → Prop
  | .apply config policy call => s.dir.successful = true ∧ call.faults.LosesStatus s.dir ∧
      ∃ candidate, call.Renders lower sha renderers config policy s.catalogs s.dir candidate ∧
        alreadyPublished call.force candidate s.dir = false
  | _ => False

/-- The status file is what a full render of the inputs that it has the digest of would write, and nothing failed since. -/
structure Sound (s : Installation δ) : Prop where
  grown : Grown s.catalogs
  written : s.dir.successful = true → s.lastWrite = some true
  saved : ∀ active i, s.dir.status = some (.applied active (some i)) → ∃ config policy catalogs candidate,
    Grown catalogs ∧ Evolves catalogs s.catalogs ∧ i = sha.inputs (inputData config policy catalogs) ∧
      fullRender lower renderers config policy catalogs = some (.ok candidate) ∧
      active = renderedDigest sha.contents (outputs.map candidate)

variable {lower sha renderers} {s : Installation δ}

omit [DecidableEq δ] in
/-- What was saved stays right when the catalogs grow and the status file stays. -/
theorem Sound.saved_of_status (h : s.Sound lower sha renderers) {s' : Installation δ}
    (hcatalogs : Evolves s.catalogs s'.catalogs) (hstatus : s'.dir.status = s.dir.status) : ∀ active i,
    s'.dir.status = some (.applied active (some i)) → ∃ config policy catalogs candidate,
      Grown catalogs ∧ Evolves catalogs s'.catalogs ∧ i = sha.inputs (inputData config policy catalogs) ∧
        fullRender lower renderers config policy catalogs = some (.ok candidate) ∧
        active = renderedDigest sha.contents (outputs.map candidate) := by
  intro active i hs
  rw [hstatus] at hs
  obtain ⟨config, policy, catalogs, candidate, hgrown, hevolves, hrest⟩ := h.saved active i hs
  exact ⟨config, policy, catalogs, candidate, hgrown, hevolves.trans hcatalogs, hrest⟩

omit [DecidableEq δ] in
theorem successful_of_status {d d' : Directory δ} (h : d'.status = d.status) : d'.successful = d.successful := by
  unfold Directory.successful
  rw [h]

/-- **A call that does not lose the status** keeps it sound. -/
theorem Sound.apply (hinj : sha.CollisionFree) (h : s.Sound lower sha renderers) {config : ConfigFile} {policy : Policy}
    {call : Call} (hlose : ¬ s.LosesStatus lower sha renderers (.apply config policy call)) :
    (s.next lower sha renderers (.apply config policy call)).Sound lower sha renderers := by
  have hevolves := evolves_atAgain call s.catalogs
  have hgrown := grown_atAgain call s.catalogs h.grown
  rcases apply_cases lower sha renderers call config policy s.catalogs s.dir with ⟨hdir, hwrote, -⟩ |
    ⟨candidate, hrenders, hrun⟩
  · refine ⟨hgrown, fun hs => ?_, h.saved_of_status hevolves (congrArg Directory.status hdir)⟩
    rw [next] at hs ⊢
    dsimp only at hs ⊢
    rw [hwrote, if_neg (by simp)]
    exact h.written (by rwa [hdir] at hs)
  -- the digests of the two reads agree, or none is saved
  have hstable : ∀ active i,
      some (Status.applied active (some i)) = some (.applied (renderedDigest sha.contents (outputs.map candidate))
        (if inputDigest sha config policy s.catalogs call.digestFails =
            inputDigest sha config policy (call.atAgain s.catalogs) call.againFails then
          inputDigest sha config policy s.catalogs call.digestFails else none)) →
      ∃ config policy catalogs candidate, Grown catalogs ∧ Evolves catalogs (call.atAgain s.catalogs) ∧
        i = sha.inputs (inputData config policy catalogs) ∧
        fullRender lower renderers config policy catalogs = some (.ok candidate) ∧
        active = renderedDigest sha.contents (outputs.map candidate) := by
    intro active i hs
    rw [Option.some.injEq, Status.applied.injEq] at hs
    obtain ⟨hactive, hi⟩ := hs
    split at hi
    · next hagain =>
      exact ⟨config, policy, s.catalogs, candidate, h.grown, hevolves, inputDigest_eq_some hi.symm,
        fullRender_of_stable hinj h.grown hrenders.rendered hi.symm (hagain.symm.trans hi.symm), hactive⟩
    · cases hi
  rcases applyRendered_cases sha.contents call.faults call.force
      (inputDigest sha config policy s.catalogs call.digestFails)
      (inputDigest sha config policy (call.atAgain s.catalogs) call.againFails) candidate s.dir with
    ⟨hpub, hwrote, hstatus⟩ | ⟨hexit, hwrote, hstatus⟩ | ⟨failed, hstatus⟩ | ⟨hpub, hstatus, hlost⟩ <;>
    rw [← hrun] at hstatus
  · have hok : s.dir.successful = true := by
      unfold alreadyPublished at hpub
      exact (Bool.and_eq_true_iff.1 hpub).2
    refine ⟨hgrown, fun _ => ?_, ?_⟩
    · rw [next]
      dsimp only
      rw [hrun, hwrote, if_neg (by simp)]
      exact h.written hok
    · rcases hstatus with hstatus | hstatus
      · exact h.saved_of_status hevolves hstatus
      · intro active i hs
        exact hstable active i (hs.symm.trans hstatus)
  · refine ⟨hgrown, fun _ => ?_, fun active i hs => hstable active i (hs.symm.trans hstatus)⟩
    rw [next]
    dsimp only
    rw [hrun, hwrote, hexit]
    rfl
  · refine ⟨hgrown, fun hs => ?_, fun active i hs => ?_⟩
    · rw [next] at hs
      unfold Directory.successful at hs
      rw [hstatus] at hs
      cases hs
    · have := hs.symm.trans hstatus
      cases this
  · refine ⟨hgrown, fun hs => ?_, h.saved_of_status hevolves hstatus⟩
    rw [next] at hs ⊢
    dsimp only at hs ⊢
    rw [successful_of_status hstatus] at hs
    have hwrote : (applyRendered sha.contents call.faults call.force
        (inputDigest sha config policy s.catalogs call.digestFails)
        (inputDigest sha config policy (call.atAgain s.catalogs) call.againFails) candidate s.dir).wrote = false := by
      by_contra hw
      exact hlose ⟨hs, hlost (by simpa using hw), candidate, hrenders, hpub⟩
    rw [hrun, hwrote, if_neg (by simp)]
    exact h.written hs

/-- **The step lemma.** -/
theorem Sound.next (hinj : sha.CollisionFree) (h : s.Sound lower sha renderers) (e : Event)
    (hlose : ¬ s.LosesStatus lower sha renderers e) : (s.next lower sha renderers e).Sound lower sha renderers := by
  cases e with
  | commit c =>
    exact ⟨grown_commit h.grown c, h.written, h.saved_of_status (evolves_commit _ c) rfl⟩
  | edit m content => exact ⟨h.grown, h.written, h.saved_of_status (.refl _) rfl⟩
  | apply config policy call => exact h.apply hinj hlose

theorem not_losesStatus (h : s.dir.successful = false) (e : Event) : ¬ s.LosesStatus lower sha renderers e := by
  cases e with
  | commit c => exact id
  | edit m content => exact id
  | apply config policy call =>
    rintro ⟨hs, -⟩
    rw [h] at hs
    cases hs

/-- **A match** finds the files that a full render would write. -/
theorem Sound.matched (hinj : sha.CollisionFree) (h : s.Sound lower sha renderers) {config : ConfigFile}
    {policy : Policy} {fails : Bool}
    (hmatch : matchesInputs sha (inputDigest sha config policy s.catalogs fails) s.dir = true) :
    s.lastWrite = some true ∧ ∃ candidate, fullRender lower renderers config policy s.catalogs = some (.ok candidate) ∧
      ∀ m, s.dir.managed m = some (fileOf (candidate m)) := by
  unfold matchesInputs at hmatch
  split at hmatch
  · next i active saved hi hstatus =>
    rw [Bool.and_eq_true, decide_eq_true_eq, decide_eq_true_eq] at hmatch
    obtain ⟨rfl, houtput⟩ := hmatch
    obtain ⟨config', policy', catalogs, candidate, hgrown, hevolves, hsaved, hrender, rfl⟩ := h.saved _ _ hstatus
    have hsame : inputData config' policy' catalogs = inputData config policy s.catalogs :=
      hinj.inputs (hsaved.symm.trans (inputDigest_eq_some hi))
    obtain rfl : config' = config := congrArg InputData.config hsame
    obtain rfl : policy' = policy := congrArg InputData.policy hsame
    refine ⟨h.written (by unfold Directory.successful; rw [hstatus]), candidate, ?_, managed_of_outputDigest hinj houtput⟩
    rw [fullRender_eq_of_inputData hgrown hevolves hsame, hrender]
  · cases hmatch

end Installation

/-! ## A reload that fails twice -/

/-- Contents and inputs as their own digests. -/
def plainSha : Sha256 (List Bytes ⊕ InputData) := ⟨.inl, .inr⟩

theorem plainSha_collisionFree : plainSha.CollisionFree := ⟨Sum.inl_injective, Sum.inr_injective⟩

/-- Renderers that render one line each. -/
def lineRenderers : Renderers where
  render _ _ pairs := .ok (['s'] ++ (pairs.map Prod.fst).flatten)
  renderPurge _ := .ok ['g']
  renderProbeConf _ := ['c']
  renderProbeJs _ _ _ := .ok ['j']

/-- The configuration of `twinConfig`, enabled. -/
def twinFile : ConfigFile :=
  { twinConfig with
    nginx := { twinConfig.nginx with enabled := true }
    versionOk := twinConfig.versionOk
    stateDb := "db".toList
    others := [] }

def emptyPolicy : Policy := ⟨[], [], [], [], [], []⟩

/-- A snapshot of one package, as a commit to the database of `twinFile`. -/
def listTwin (repoId key filename : String) : Event :=
  .commit
    { path := "db".toList
      identity := (1, 1)
      op := .recordSnapshot (.listing repoId [(key, filename, "f0")]) { now := [] } fun _ => []
      keeps := fun _ => rfl }

def emptyInstallation : Installation (List Bytes ⊕ InputData) :=
  ⟨fun _ => none, ⟨fun _ => none, fun _ => none, none⟩, none⟩

def twinEvents : List Event :=
  [listTwin "a" "p-1" "p.rpm", listTwin "b" "q-1" "q.rpm", .apply twinFile emptyPolicy {}]

/-- The repositories of `twinConfig`, filled, and a first call that succeeds. -/
def twinInstallation : Installation (List Bytes ⊕ InputData) :=
  twinEvents.foldl (Installation.next asciiLower plainSha lineRenderers) emptyInstallation

theorem twinInstallation_run :
    Run (fun s e s' => ¬ Installation.LosesStatus asciiLower plainSha lineRenderers s e ∧
      s' = s.next asciiLower plainSha lineRenderers e) emptyInstallation twinEvents twinInstallation :=
  .cons ⟨Installation.not_losesStatus rfl _, rfl⟩ (.cons ⟨Installation.not_losesStatus rfl _, rfl⟩
    (.cons ⟨Installation.not_losesStatus rfl _, rfl⟩ (.nil _)))

/-- A forced call whose reload fails, whose rollback fails to reload, and whose status cannot be written. -/
def lostCall : Call := { force := true, faults := { reload := true, rereload := true, status := true } }

def lostInstallation : Installation (List Bytes ⊕ InputData) :=
  twinInstallation.next asciiLower plainSha lineRenderers (.apply twinFile emptyPolicy lostCall)

end RepoWatch
