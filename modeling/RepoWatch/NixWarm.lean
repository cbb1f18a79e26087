import RepoWatch.Lib.Program
import RepoWatch.Lib.Utf8
import RepoWatch.NixDiscover
import RepoWatch.NixTrust
import RepoWatch.Routing
/-!
# NixWarm — what a warm has downloaded when it records a package

`warm` goes through its packages with one cache of narinfo records and one table of download tasks.  A package is recorded
`ok` only after its closure was discovered and every file of it was delivered whole, with the size and the hash that the
metadata gives (`warm_safe`).  The downloads of a package run together; a task is logged as a whole, with all the answers
it got, so the order in which the tasks' requests meet does not matter.  `sha256` is a parameter.
-/
namespace RepoWatch

open Lib

/-! ## A download -/

section Download
variable (sha256 : Bytes → Vector UInt8 32)

def hexdigest (content : Bytes) : Str := hex (sha256 content).toList

/-- The loop over the chunks, which stops when they exceed the expected size. -/
def receive (expectedSize : Option Nat) (received : Bytes) : List Bytes → Option Bytes
  | [] => some received
  | chunk :: rest =>
    if expectedSize.any fun n => decide (n < (received ++ chunk).length) then none
    else receive expectedSize (received ++ chunk) rest

/-- `download_package`. -/
def downloadPackage (expectedSha256 : Option Str) (expectedSize : Option Nat) : Response → Bool × Option Int
  | .lost => (false, none)
  | .refused status => (false, some status)
  | .body status parts whole =>
    match receive expectedSize [] parts with
    | none => (false, some status)
    | some content =>
      if !whole then (false, none)
      else if expectedSize.any fun n => decide (content.length ≠ n) then (false, some status)
      else if expectedSha256.any fun h => decide (h ≠ [] ∧ hexdigest sha256 content ≠ asciiLower h) then
        (false, some status)
      else (true, some status)

/-- The response is a whole body, of the size and the hash of the artifact where they are known. -/
def Delivers (a : Artifact) (response : Response) : Prop :=
  ∃ status parts, response = .body status parts true ∧ (∀ n, a.size = some n → parts.flatten.length = n) ∧
    ∀ h, a.contentHash = some h → hexdigest sha256 parts.flatten = h

/-- The hash of an artifact is one that `download_package` compares as it is written. -/
def HashWritten (a : Artifact) : Prop := ∀ h, a.contentHash = some h → h ≠ [] ∧ asciiLower h = h

theorem receive_eq {expectedSize : Option Nat} : ∀ {parts : List Bytes} {received content : Bytes},
    receive expectedSize received parts = some content → content = received ++ parts.flatten
  | [], received, content, h => by
    cases h
    simp
  | chunk :: rest, received, content, h => by
    unfold receive at h
    split at h
    · cases h
    · rw [receive_eq h, List.flatten_cons, List.append_assoc]

theorem downloadPackage_ok {a : Artifact} {response : Response} (ha : HashWritten a)
    (h : (downloadPackage sha256 a.contentHash a.size response).1 = true) : Delivers sha256 a response := by
  cases response with
  | lost => cases h
  | refused status => cases h
  | body status parts whole =>
    unfold downloadPackage at h
    dsimp only at h
    split at h
    · cases h
    rename_i content hcontent
    obtain rfl : content = parts.flatten := receive_eq hcontent
    split at h
    · cases h
    rename_i hwhole
    split at h
    · cases h
    rename_i hsize
    split at h
    · cases h
    rename_i hhash
    have hw : whole = true := by simpa using hwhole
    refine ⟨status, parts, by rw [hw], fun n hn => ?_, fun s hs => ?_⟩
    · rw [hn] at hsize
      simpa using hsize
    · obtain ⟨hne, hlower⟩ := ha s hs
      rw [hs] at hhash
      simpa [hne, hlower] using hhash

end Download

/-! ## The warm -/

/-- What a download task is answered: whether automatic warming is still enabled, the first response, the outcome of the
purge if it did not raise, whether warming is enabled after it, and the second response. -/
structure TaskAnswers where
  enabled : Bool
  first : Response
  purged : Option Str
  enabledAgain : Bool
  second : Response

inductive WarmRequest where
  | updateNixTrust
  | warmingPolicy
  | automaticWarmEnabled
  | recordInterest (key : Str)
  | get (url : Str)
  | discover (root : Str)
  | recordNixArtifacts (key : Str) (artifacts : List Artifact)
  | download (artifact : Artifact)
  | recordWarmedPackage (key filename : Str) (ok : Bool) (status : Option Int)

abbrev WarmRequest.Answer : WarmRequest → Type
  | .updateNixTrust => Unit
  | .warmingPolicy => Str → Bool
  | .automaticWarmEnabled => Bool
  | .recordInterest _ => Unit
  | .get _ => Response
  | .discover _ => Remote
  | .recordNixArtifacts .. => Unit
  | .download _ => TaskAnswers
  | .recordWarmedPackage .. => Unit

abbrev WarmProgram := Program WarmRequest WarmRequest.Answer
abbrev WarmLog := List (Σ r : WarmRequest, r.Answer)

/-- The result of a task; `none` if it raised. -/
abbrev TaskResult := Option (Bool × Option Int)

/-- What lasts from one package to the next. -/
structure WarmState (repo : NixRepo) where
  cacheInfoOk : Option Bool
  discovered : NixRecords repo.repo.upstream
  warmed : Dict Artifact TaskResult

section Warm
variable (sha256 : Bytes → Vector UInt8 32) (config : Config) (repo : NixRepo) (force : Bool)

/-- The metadata file of a record. -/
def metadataArtifact {upstream : Str} (r : NixRecord upstream) : Artifact :=
  ⟨r.filename, some (hexdigest sha256 r.raw), some r.raw.length⟩

/-- The archive of a record. -/
def narArtifact {upstream : Str} (r : NixRecord upstream) : Artifact := ⟨r.info.filename, r.info.contentHash, r.info.size⟩

def closureArtifacts {upstream : Str} (records : NixRecords upstream) : List Artifact :=
  records.rows.flatMap fun r => [metadataArtifact sha256 r, narArtifact r]

namespace TaskAnswers

/-- The task ends without a request. -/
def skips (answers : TaskAnswers) : Bool := !force && !answers.enabled

/-- A cached 200 with wrong bytes: the task asks for a purge. -/
def mismatched (answers : TaskAnswers) (a : Artifact) : Bool :=
  let result := downloadPackage sha256 a.contentHash a.size answers.first
  !result.1 && result.2 == some 200 && config.nginx.enablePurge

def retries (answers : TaskAnswers) (a : Artifact) : Bool :=
  answers.mismatched sha256 config a && answers.purged.any isConfirmed && (force || answers.enabledAgain)

/-- The responses the task got. -/
def responses (answers : TaskAnswers) (a : Artifact) : List Response :=
  if answers.skips force then []
  else if answers.retries sha256 config force a then [answers.first, answers.second]
  else [answers.first]

end TaskAnswers

/-- `download` of `warm`. -/
def download (answers : TaskAnswers) (a : Artifact) : TaskResult :=
  if answers.skips force then some (false, none)
  else if answers.mismatched sha256 config a && answers.purged.isNone then none
  else if answers.retries sha256 config force a then some (downloadPackage sha256 a.contentHash a.size answers.second)
  else some (downloadPackage sha256 a.contentHash a.size answers.first)

/-- `asyncio.gather` of `fetch`: a file that was downloaded before in the run is not downloaded again. -/
def fetchAll (next : Dict Artifact TaskResult → List TaskResult → WarmProgram) (warmed : Dict Artifact TaskResult)
    (results : List TaskResult) : List Artifact → WarmProgram
  | [] => next warmed results
  | a :: artifacts =>
    match warmed.lookup a with
    | some result => fetchAll next warmed (results ++ [result]) artifacts
    | none => .request (.download a) fun answers : TaskAnswers =>
        let result := download sha256 config force answers a
        fetchAll next (warmed.set a result) (results ++ [result]) artifacts

/-- `if not force and not store.automatic_warm_enabled(repo): break`. -/
def unlessDisabled (next : WarmProgram) : WarmProgram :=
  if force then next else .request .automaticWarmEnabled fun enabled : Bool => if enabled then next else .done

/-- The end of a round: the package is recorded. -/
def finishPackage (package : Str × Str) (rest : WarmProgram) (ok : Bool) (status : Option Int) : WarmProgram :=
  unlessDisabled force (.request (.recordWarmedPackage package.1 package.2 ok status) fun _ : Unit => rest)

def cacheInfo (cacheInfoOk : Option Bool) (next : Bool → WarmProgram) : WarmProgram :=
  match cacheInfoOk with
  | some ok => next ok
  | none => .request (.get (warmUrl config repo.repo "nix-cache-info".toList)) fun response : Response =>
      next (downloadPackage sha256 none none response).1

/-- `(ok, status)` of the results. -/
def closureStatus (results : List (Bool × Option Int)) : Bool × Option Int :=
  let ok := results.all Prod.fst
  (ok, if ok then some 200 else (results.find? fun r => !r.1).bind Prod.snd)

/-- One round of `warm` once cache-info is there: what is inside `try`, and the record. -/
def warmClosure (package : Str × Str) (rest : WarmState repo → WarmProgram) (state : WarmState repo) : WarmProgram :=
  .request (.discover package.2) fun remote : Remote =>
    let d := discover repo remote state.discovered package.2
    let state := { state with discovered := d.cached }
    match d.result with
    | .error _ => finishPackage force package (rest state) false none
    | .ok records =>
      let artifacts := closureArtifacts sha256 records
      .request (.recordNixArtifacts package.1 artifacts) fun _ : Unit =>
        fetchAll sha256 config force (fun warmed results =>
          let rest := rest { state with warmed := warmed }
          match results.mapM id with
          | none => finishPackage force package rest false none
          | some results => finishPackage force package rest (closureStatus results).1 (closureStatus results).2)
          state.warmed [] artifacts

/-- One round of `warm`. -/
def warmPackage (allows : Str → Bool) (package : Str × Str) (rest : WarmState repo → WarmProgram)
    (state : WarmState repo) : WarmProgram :=
  unlessDisabled force <|
    if !allows package.1 then rest state
    else
      let round := cacheInfo sha256 config repo state.cacheInfoOk fun ok =>
        let state := { state with cacheInfoOk := some ok }
        if !ok then finishPackage force package (rest state) false none
        else warmClosure sha256 config repo force package rest state
      if force then .request (.recordInterest package.1) fun _ : Unit => round else round

def warmPackages (allows : Str → Bool) : List (Str × Str) → WarmState repo → WarmProgram
  | [], _ => .done
  | package :: packages, state =>
    warmPackage sha256 config repo force allows package (warmPackages allows packages) state

/-- `cache.nix.warm`. -/
def warm (packages : Dict Str Str) : WarmProgram :=
  if !force && !repo.repo.prefetch then .done
  else .request .updateNixTrust fun _ : Unit => .request .warmingPolicy fun allows : (Str → Bool) =>
    warmPackages sha256 config repo force allows packages.rows ⟨none, Table.empty, Table.empty⟩

/-! ## What was downloaded when a package is recorded -/

/-- A task of the run for the artifact has ended so. -/
def Ran (log : WarmLog) (a : Artifact) (result : TaskResult) : Prop :=
  ∃ answers : TaskAnswers, ⟨.download a, answers⟩ ∈ log ∧ download sha256 config force answers a = result

/-- A task of the run has got the artifact. -/
def Downloaded (log : WarmLog) (a : Artifact) : Prop :=
  ∃ answers : TaskAnswers, ⟨.download a, answers⟩ ∈ log ∧
    ∃ response ∈ answers.responses sha256 config force a, Delivers sha256 a response

/-- The record was fetched in the run. -/
def Served (log : WarmLog) (r : NixRecord repo.repo.upstream) : Prop :=
  ∃ root, ∃ remote : Remote, ⟨.discover root, remote⟩ ∈ log ∧ fetchRecord repo remote r.filename = .ok r

def CacheInfo (log : WarmLog) : Prop :=
  ∃ response : Response, ⟨.get (warmUrl config repo.repo "nix-cache-info".toList), response⟩ ∈ log ∧
    Delivers sha256 ⟨"nix-cache-info".toList, none, none⟩ response

/-- What an answer leaves in the cache of the run: a discovery adds the records it has verified. -/
def cacheAfter (cached : NixRecords repo.repo.upstream) : (Σ r : WarmRequest, r.Answer) → NixRecords repo.repo.upstream
  | ⟨.discover root, remote⟩ => (discover repo remote cached root).cached
  | _ => cached

/-- The cache of the run. -/
def runCache (log : WarmLog) : NixRecords repo.repo.upstream := log.foldl (cacheAfter repo) Table.empty

/-- cache-info was fetched, and the closure of the root was discovered with the cache of the run so far and downloaded. -/
structure ClosureWarmed (log : WarmLog) (root : Str) : Prop where
  cacheInfo : CacheInfo sha256 config repo log
  closure : ∃ before remote after, log = before ++ ⟨.discover root, remote⟩ :: after ∧
    (∀ r ∈ (runCache repo before).rows, Served repo log r) ∧
    (∃ records, (discover repo remote (runCache repo before) root).result = .ok records) ∧
    ∀ f, Reach (Refers repo remote (runCache repo before)) root f →
      ∃ r, recordOf repo remote (runCache repo before) f = .ok r ∧
        Downloaded sha256 config force log (metadataArtifact sha256 r) ∧
        Downloaded sha256 config force log (narArtifact r)

def WarmAllowed (log : WarmLog) : WarmRequest → Prop
  | .recordWarmedPackage _ filename true _ => ClosureWarmed sha256 config repo force log filename
  | _ => True

/-- Answers among which is no discovery. -/
def NoDiscovery (tail : WarmLog) : Prop := ∀ root (remote : Remote), ⟨.discover root, remote⟩ ∉ tail

/-- What the state of a warm remembers has happened in the run. -/
structure Held (log : WarmLog) (state : WarmState repo) : Prop where
  cacheInfo : state.cacheInfoOk = some true → CacheInfo sha256 config repo log
  discovered : state.discovered = runCache repo log
  warmed : ∀ a result, state.warmed.lookup a = some result → Ran sha256 config force log a result

section Safety
variable {sha256 config repo force} {log : WarmLog} {a : Artifact}

theorem Ran.append {result : TaskResult} (h : Ran sha256 config force log a result) (tail : WarmLog) :
    Ran sha256 config force (log ++ tail) a result :=
  h.imp fun _ h => ⟨List.mem_append_left _ h.1, h.2⟩

theorem Served.append {r : NixRecord repo.repo.upstream} (h : Served repo log r) (tail : WarmLog) :
    Served repo (log ++ tail) r := by
  obtain ⟨root, remote, hmem, hrecord⟩ := h
  exact ⟨root, remote, List.mem_append_left _ hmem, hrecord⟩

theorem Downloaded.append (h : Downloaded sha256 config force log a) (tail : WarmLog) :
    Downloaded sha256 config force (log ++ tail) a :=
  h.imp fun _ h => ⟨List.mem_append_left _ h.1, h.2⟩

theorem CacheInfo.append (h : CacheInfo sha256 config repo log) (tail : WarmLog) :
    CacheInfo sha256 config repo (log ++ tail) :=
  h.imp fun _ h => ⟨List.mem_append_left _ h.1, h.2⟩

theorem ClosureWarmed.append {root : Str} (h : ClosureWarmed sha256 config repo force log root) (tail : WarmLog) :
    ClosureWarmed sha256 config repo force (log ++ tail) root := by
  obtain ⟨before, remote, after, rfl, hserved, hok, hall⟩ := h.closure
  refine ⟨h.cacheInfo.append tail, before, remote, after ++ tail, by simp, fun r hr => (hserved r hr).append tail,
    hok, fun f hf => ?_⟩
  obtain ⟨r, hrecord, hmeta, hnar⟩ := hall f hf
  exact ⟨r, hrecord, hmeta.append tail, hnar.append tail⟩

theorem cacheAfter_eq {e : Σ r : WarmRequest, r.Answer} (h : ∀ root (remote : Remote), e ≠ ⟨.discover root, remote⟩)
    (cached : NixRecords repo.repo.upstream) : cacheAfter repo cached e = cached := by
  unfold cacheAfter
  split
  · exact absurd rfl (h _ _)
  · rfl

theorem runCache_append_discover (root : Str) (remote : Remote) :
    runCache repo (log ++ [⟨.discover root, remote⟩]) = (discover repo remote (runCache repo log) root).cached := by
  unfold runCache
  rw [List.foldl_append]
  rfl

theorem runCache_append {tail : WarmLog} (h : NoDiscovery tail) : runCache repo (log ++ tail) = runCache repo log := by
  unfold runCache
  rw [List.foldl_append]
  generalize log.foldl (cacheAfter repo) Table.empty = cached
  induction tail with
  | nil => rfl
  | cons e tail ih =>
    rw [List.foldl_cons, cacheAfter_eq fun root remote he => h root remote (he ▸ List.mem_cons_self),
      ih fun root remote hm => h root remote (List.mem_cons_of_mem _ hm)]

theorem NoDiscovery.nil : NoDiscovery [] := fun _ _ h => absurd h List.not_mem_nil

theorem NoDiscovery.append {tail tail' : WarmLog} (h : NoDiscovery tail) (h' : NoDiscovery tail') :
    NoDiscovery (tail ++ tail') := fun root remote hm => (List.mem_append.1 hm).elim (h root remote) (h' root remote)

theorem NoDiscovery.single {r : WarmRequest} (h : ∀ root, r ≠ .discover root) (answer : r.Answer) :
    NoDiscovery [⟨r, answer⟩] := by
  intro root remote hm
  exact h root (congrArg Sigma.fst (List.mem_singleton.1 hm)).symm

theorem Held.append {state : WarmState repo} (h : Held sha256 config repo force log state) {tail : WarmLog}
    (htail : NoDiscovery tail) : Held sha256 config repo force (log ++ tail) state where
  cacheInfo := fun hok => (h.cacheInfo hok).append tail
  discovered := by rw [h.discovered, runCache_append htail]
  warmed := fun a result hlookup => (h.warmed a result hlookup).append tail

theorem metadataArtifact_hashWritten {upstream : Str} (r : NixRecord upstream) :
    HashWritten (metadataArtifact sha256 r) := by
  rintro h ⟨⟩
  refine ⟨fun hnil => ?_, asciiLower_of_isHex fun c hc => isHex_of_mem_hex hc⟩
  have hlen := congrArg List.length hnil
  unfold hexdigest hex at hlen
  rw [List.length_flatMap] at hlen
  simp at hlen

theorem narArtifact_hashWritten {upstream : Str} (r : NixRecord upstream) : HashWritten (narArtifact r) :=
  (parseNarinfo_ok r.parsed).2.2

/-- **A task that succeeds** has got its artifact. -/
theorem Ran.downloaded {status : Option Int} (h : Ran sha256 config force log a (some (true, status)))
    (ha : HashWritten a) : Downloaded sha256 config force log a := by
  obtain ⟨answers, hmem, hresult⟩ := h
  refine ⟨answers, hmem, ?_⟩
  unfold download at hresult
  unfold TaskAnswers.responses
  split at hresult
  · cases hresult
  rename_i hskips
  rw [if_neg hskips]
  split at hresult
  · cases hresult
  split at hresult
  · rename_i hretries
    rw [if_pos hretries]
    have hok := congrArg Prod.fst (Option.some.inj hresult)
    exact ⟨answers.second, by simp, downloadPackage_ok sha256 ha hok⟩
  · rename_i hretries
    rw [if_neg hretries]
    have hok := congrArg Prod.fst (Option.some.inj hresult)
    exact ⟨answers.first, List.mem_singleton_self _, downloadPackage_ok sha256 ha hok⟩

/-- The requests that need nothing. -/
theorem warmAllowed_of_not_record {r : WarmRequest}
    (h : ∀ key filename status, r ≠ .recordWarmedPackage key filename true status) :
    WarmAllowed sha256 config repo force log r := by
  unfold WarmAllowed
  split
  · exact absurd rfl (h _ _ _)
  · trivial

/-- The program is safe whatever else than a discovery is answered before it. -/
def SafeAfter (sha256 : Bytes → Vector UInt8 32) (config : Config) (repo : NixRepo) (force : Bool) (log : WarmLog)
    (p : WarmProgram) : Prop :=
  ∀ tail, NoDiscovery tail → Program.Safe (WarmAllowed sha256 config repo force) (log ++ tail) p

theorem SafeAfter.safe {p : WarmProgram} (h : SafeAfter sha256 config repo force log p) :
    Program.Safe (WarmAllowed sha256 config repo force) log p := by
  simpa using h [] .nil

theorem SafeAfter.append {p : WarmProgram} (h : SafeAfter sha256 config repo force log p) {tail : WarmLog}
    (htail : NoDiscovery tail) : SafeAfter sha256 config repo force (log ++ tail) p := fun tail' htail' => by
  rw [List.append_assoc]
  exact h _ (htail.append htail')

theorem unlessDisabled_safe {p : WarmProgram} (h : SafeAfter sha256 config repo force log p) :
    SafeAfter sha256 config repo force log (unlessDisabled force p) := by
  intro tail htail
  unfold unlessDisabled
  split
  · exact h tail htail
  · refine ⟨trivial, fun enabled => ?_⟩
    cases enabled with
    | false => trivial
    | true => exact (h.append htail) _ (.single (fun _ h => by cases h) _)

theorem finishPackage_safe {package : Str × Str} {rest : WarmProgram} {ok : Bool} {status : Option Int}
    (hok : ok = true → ClosureWarmed sha256 config repo force log package.2)
    (hrest : SafeAfter sha256 config repo force log rest) :
    SafeAfter sha256 config repo force log (finishPackage force package rest ok status) := by
  refine unlessDisabled_safe fun tail htail =>
    ⟨?_, fun _ => (hrest.append htail) _ (.single (fun _ h => by cases h) _)⟩
  cases ok with
  | false => trivial
  | true => exact (hok rfl).append tail

/-- One more artifact and its result. -/
theorem ran_snoc {got : List Artifact} {results : List TaskResult} {a : Artifact} {result : TaskResult}
    (hgot : ∀ x ∈ got, ∃ result ∈ results, Ran sha256 config force log x result)
    (hran : Ran sha256 config force log a result) :
    ∀ x ∈ got ++ [a], ∃ r ∈ results ++ [result], Ran sha256 config force log x r := by
  intro x hx
  rcases List.mem_append.1 hx with hx | hx
  · obtain ⟨r, hr, hx⟩ := hgot x hx
    exact ⟨r, List.mem_append_left _ hr, hx⟩
  · rw [List.mem_singleton.1 hx]
    exact ⟨result, by simp, hran⟩

theorem fetchAll_safe {next : Dict Artifact TaskResult → List TaskResult → WarmProgram} :
    ∀ (artifacts got : List Artifact) (log : WarmLog) (warmed : Dict Artifact TaskResult) (results : List TaskResult),
    (∀ a result, warmed.lookup a = some result → Ran sha256 config force log a result) →
    (∀ a ∈ got, ∃ result ∈ results, Ran sha256 config force log a result) →
    (∀ tail warmed results, NoDiscovery tail →
      (∀ a result, warmed.lookup a = some result → Ran sha256 config force (log ++ tail) a result) →
      (∀ a ∈ got ++ artifacts, ∃ result ∈ results, Ran sha256 config force (log ++ tail) a result) →
      Program.Safe (WarmAllowed sha256 config repo force) (log ++ tail) (next warmed results)) →
    Program.Safe (WarmAllowed sha256 config repo force) log (fetchAll sha256 config force next warmed results artifacts)
  | [], got, log, warmed, results, hwarmed, hgot, hnext => by
    have := hnext [] warmed results .nil
    rw [List.append_nil, List.append_nil] at this
    exact this hwarmed hgot
  | a :: artifacts, got, log, warmed, results, hwarmed, hgot, hnext => by
    unfold fetchAll
    split
    · rename_i result hlookup
      refine fetchAll_safe artifacts (got ++ [a]) log warmed (results ++ [result]) hwarmed ?_ ?_
      · exact ran_snoc hgot (hwarmed a result hlookup)
      · intro tail warmed' results' htail hwarmed' hgot'
        rw [List.append_assoc, List.singleton_append] at hgot'
        exact hnext tail warmed' results' htail hwarmed' hgot'
    · refine ⟨warmAllowed_of_not_record (fun _ _ _ h => by cases h), fun answers => ?_⟩
      have hran : Ran sha256 config force (log ++ [⟨.download a, answers⟩]) a (download sha256 config force answers a) :=
        ⟨answers, by simp, rfl⟩
      refine fetchAll_safe artifacts (got ++ [a]) _ _ _ ?_ ?_ ?_
      · intro x result hlookup
        rw [Dict.lookup_set] at hlookup
        split at hlookup
        · rename_i hx
          cases hlookup
          rw [hx]
          exact hran
        · exact (hwarmed x result hlookup).append _
      · exact ran_snoc (fun x hx => (hgot x hx).imp fun _ h => ⟨h.1, h.2.append _⟩) hran
      · intro tail warmed' results' htail hwarmed' hgot'
        rw [List.append_assoc got, List.singleton_append] at hgot'
        rw [List.append_assoc] at hwarmed' hgot' ⊢
        exact hnext _ warmed' results' (.append (.single (fun _ h => by cases h) _) htail) hwarmed' hgot'

/-! ### The rounds -/

section Rounds
variable {state : WarmState repo} {rest : WarmState repo → WarmProgram} {package : Str × Str}
  (hrest : ∀ log state, Held sha256 config repo force log state →
    Program.Safe (WarmAllowed sha256 config repo force) log (rest state))
include hrest

theorem safeAfter_rest (h : Held sha256 config repo force log state) :
    SafeAfter sha256 config repo force log (rest state) := fun _ htail => hrest _ _ (h.append htail)

omit hrest in
/-- What a discovery has found was served in the run, now or before. -/
theorem served_of_recordOf {remote : Remote} {cached : NixRecords repo.repo.upstream} {root f : Str}
    {r : NixRecord repo.repo.upstream} (hcached : ∀ r ∈ cached.rows, Served repo log r)
    (hmem : ⟨.discover root, remote⟩ ∈ log) (h : recordOf repo remote cached f = .ok r) : Served repo log r := by
  have hname := filename_of_recordOf repo remote cached h
  unfold recordOf at h
  split at h
  · rename_i hget
    cases h
    exact hcached r (Table.mem_of_get hget)
  · exact ⟨root, remote, hmem, by rw [hname]; exact h⟩

omit hrest in
/-- Results that are all successful. -/
theorem downloaded_of_all {results : List TaskResult} {oks : List (Bool × Option Int)}
    (hoks : results.mapM id = some oks) (hall : (closureStatus oks).1 = true)
    (hran : ∃ result ∈ results, Ran sha256 config force log a result) (ha : HashWritten a) :
    Downloaded sha256 config force log a := by
  obtain ⟨result, hresult, hran⟩ := hran
  rw [mapM_id_eq_some.1 hoks] at hresult
  obtain ⟨⟨ok, status⟩, hmem, rfl⟩ := List.mem_map.1 hresult
  obtain rfl : ok = true := List.all_eq_true.1 hall _ hmem
  exact hran.downloaded ha

omit hrest in
/-- The cache of the run holds what was served in it. -/
theorem served_of_runCache : ∀ {log : WarmLog}, ∀ r ∈ (runCache repo log).rows, Served repo log r := by
  intro log
  induction log using List.reverseRecOn with
  | nil => exact fun r hr => absurd hr List.not_mem_nil
  | append_singleton log e ih =>
    intro r hr
    by_cases he : ∃ root, ∃ remote : Remote, e = ⟨.discover root, remote⟩
    · obtain ⟨root, remote, rfl⟩ := he
      rw [runCache_append_discover] at hr
      cases hresult : (discover repo remote (runCache repo log) root).result with
      | error e =>
        rw [discover_unchanged hresult] at hr
        exact (ih r hr).append _
      | ok records =>
        obtain ⟨hfound, hcached⟩ := (discover_ended (isNarinfo_of_discover hresult)).found hresult
        rw [hcached, Table.mem_rows_iff, get_addAll] at hr
        rcases Option.or_eq_some_iff.1 hr with hr | ⟨-, hr⟩
        · exact served_of_recordOf (fun r hr => (ih r hr).append _) (List.mem_append_right _ (List.mem_singleton_self _))
            (hfound.record r (Table.mem_of_get hr))
        · exact (ih r (Table.mem_of_get hr)).append _
    · have hquiet : NoDiscovery [e] := fun root remote hm => he ⟨root, remote, (List.mem_singleton.1 hm).symm⟩
      rw [runCache_append hquiet] at hr
      exact (ih r hr).append _

theorem warmClosure_safe (h : Held sha256 config repo force log state) (hinfo : CacheInfo sha256 config repo log) :
    Program.Safe (WarmAllowed sha256 config repo force) log (warmClosure sha256 config repo force package rest state) := by
  refine ⟨trivial, fun remote => ?_⟩
  have hcache : runCache repo (log ++ [⟨.discover package.2, remote⟩]) = _ := runCache_append_discover package.2 remote
  rw [← h.discovered] at hcache
  have hinfo₁ := hinfo.append [⟨.discover package.2, remote⟩]
  have hheld : Held sha256 config repo force (log ++ [⟨.discover package.2, remote⟩])
      { state with discovered := (discover repo remote state.discovered package.2).cached } :=
    ⟨fun hok => (h.cacheInfo hok).append _, hcache.symm, fun a result hlookup => (h.warmed a result hlookup).append _⟩
  dsimp only
  split
  · exact (finishPackage_safe (fun hok : false = true => by cases hok) (safeAfter_rest hrest hheld)).safe
  · rename_i records hrecords
    obtain ⟨hfound, -⟩ := (discover_ended (isNarinfo_of_discover hrecords)).found hrecords
    refine ⟨trivial, fun _ => ?_⟩
    refine fetchAll_safe _ [] _ _ _ (fun a result hlookup => (hheld.warmed a result hlookup).append _)
      (fun a ha => absurd ha List.not_mem_nil) fun tail warmed results htail hwarmed hgot => ?_
    rw [List.append_assoc] at hwarmed hgot ⊢
    have hquiet := NoDiscovery.append (.single (r := .recordNixArtifacts package.1 (closureArtifacts sha256 records))
      (fun _ h => by cases h) ()) htail
    generalize [⟨.recordNixArtifacts package.1 (closureArtifacts sha256 records), _⟩] ++ tail = tail at hwarmed hgot hquiet ⊢
    have hstate : Held sha256 config repo force (log ++ [⟨.discover package.2, remote⟩] ++ tail)
        { state with
          discovered := (discover repo remote state.discovered package.2).cached
          warmed := warmed } :=
      ⟨(hheld.append hquiet).cacheInfo, (hheld.append hquiet).discovered, hwarmed⟩
    have hafter := safeAfter_rest hrest hstate
    split
    · exact (finishPackage_safe (fun hok : false = true => by cases hok) hafter).safe
    · rename_i oks hoks
      refine (finishPackage_safe (fun hall => ?_) hafter).safe
      refine ⟨hinfo₁.append tail, log, remote, tail, by simp, fun r hr => ?_, ?_⟩
      · exact ((served_of_runCache r hr).append _).append tail
      rw [← h.discovered]
      refine ⟨⟨records, hrecords⟩, fun f hf => ?_⟩
      obtain ⟨r, hr, rfl⟩ := hfound.reachable hf
      have hartifact : ∀ a ∈ [metadataArtifact sha256 r, narArtifact r], HashWritten a →
          Downloaded sha256 config force (log ++ [⟨.discover package.2, remote⟩] ++ tail) a := by
        intro a ha hhash
        exact downloaded_of_all hoks hall (hgot a (List.mem_flatMap.2 ⟨r, hr, ha⟩)) hhash
      exact ⟨r, hfound.record r hr, hartifact _ (by simp) (metadataArtifact_hashWritten r),
        hartifact _ (by simp) (narArtifact_hashWritten r)⟩

omit hrest in
theorem cacheInfo_safe {next : Bool → WarmProgram} (h : Held sha256 config repo force log state)
    (hnext : ∀ ok tail, NoDiscovery tail → (ok = true → CacheInfo sha256 config repo (log ++ tail)) →
      Program.Safe (WarmAllowed sha256 config repo force) (log ++ tail) (next ok)) :
    Program.Safe (WarmAllowed sha256 config repo force) log (cacheInfo sha256 config repo state.cacheInfoOk next) := by
  unfold cacheInfo
  split
  · rename_i ok hok
    have := hnext ok [] .nil
    rw [List.append_nil] at this
    exact this fun htrue => h.cacheInfo (by rw [hok, htrue])
  · refine ⟨trivial, fun response => hnext _ _ (.single (fun _ h => by cases h) _) fun hok => ⟨response, by simp, ?_⟩⟩
    exact downloadPackage_ok sha256 (a := ⟨"nix-cache-info".toList, none, none⟩) (fun _ h => by cases h) hok

theorem warmPackage_safe {allows : Str → Bool} (h : Held sha256 config repo force log state) :
    Program.Safe (WarmAllowed sha256 config repo force) log
      (warmPackage sha256 config repo force allows package rest state) := by
  refine (unlessDisabled_safe fun tail htail => ?_).safe
  have hheld := h.append htail
  generalize log ++ tail = log at hheld ⊢
  split
  · exact hrest _ _ hheld
  have hround : ∀ tail, NoDiscovery tail → Program.Safe (WarmAllowed sha256 config repo force) (log ++ tail)
      (cacheInfo sha256 config repo state.cacheInfoOk fun ok =>
        if !ok then finishPackage force package (rest { state with cacheInfoOk := some ok }) false none
        else warmClosure sha256 config repo force package rest { state with cacheInfoOk := some ok }) := by
    intro tail htail
    refine cacheInfo_safe (hheld.append htail) fun ok tail' htail' hok => ?_
    have hstate : Held sha256 config repo force (log ++ tail ++ tail') { state with cacheInfoOk := some ok } := by
      have := (hheld.append htail).append htail'
      exact ⟨fun htrue => hok (Option.some.inj htrue), this.discovered, this.warmed⟩
    cases ok with
    | false => exact (finishPackage_safe (fun hok : false = true => by cases hok) (safeAfter_rest hrest hstate)).safe
    | true => exact warmClosure_safe hrest hstate (hok rfl)
  dsimp only
  split
  · exact ⟨trivial, fun _ => hround _ (.single (fun _ h => by cases h) _)⟩
  · simpa using hround [] .nil

end Rounds

theorem warmPackages_safe {allows : Str → Bool} : ∀ (packages : List (Str × Str)) (log : WarmLog) (state : WarmState repo),
    Held sha256 config repo force log state →
    Program.Safe (WarmAllowed sha256 config repo force) log (warmPackages sha256 config repo force allows packages state)
  | [], _, _, _ => trivial
  | _ :: packages, _, _, h => warmPackage_safe (warmPackages_safe packages) h

/-- **A warm is safe**: whatever it is answered, it records a package as warm only when its closure has been. -/
theorem warm_safe (packages : Dict Str Str) :
    Program.Safe (WarmAllowed sha256 config repo force) [] (warm sha256 config repo force packages) := by
  unfold warm
  split
  · trivial
  · refine ⟨trivial, fun _ => ⟨trivial, fun allows => ?_⟩⟩
    refine warmPackages_safe packages.rows _ _ ⟨fun hok => (by cases hok), rfl, ?_⟩
    intro a result hlookup
    cases hlookup

end Safety
end Warm

/-! ## Closures are complete -/

/-- **Warming a closure is complete**: a discovery ends with what is reachable from its root or raises, and a warm records a
package only after what is reachable from its narinfo was downloaded. -/
theorem closure_warming_complete {verify : List Str → Dict Str Bytes → List Str → Bool}
    {trusted : List Str → Str → Bytes → Bool} (hverify : VerifiesEach verify trusted) :
    (∀ (repo : NixRepo) (get : Str → Response) (cached : NixRecords repo.repo.upstream) (root : Str),
      isNarinfo root = true →
      Discovers trusted repo ⟨get, verify⟩ cached root (discover repo ⟨get, verify⟩ cached root)) ∧
    ∀ (sha256 : Bytes → Vector UInt8 32) (config : Config) (repo : NixRepo) (force : Bool) (packages : Dict Str Str)
      (log : WarmLog), Program.Path (warm sha256 config repo force packages) log →
      ∀ before key filename status answer after,
        log = before ++ ⟨.recordWarmedPackage key filename true status, answer⟩ :: after →
        ClosureWarmed sha256 config repo force before filename := by
  refine ⟨fun repo get cached root hroot => discover_discovers hverify hroot, ?_⟩
  intro sha256 config repo force packages log hpath before key filename status answer after hlog
  exact (warm_safe packages).path hpath before _ answer after hlog

/-! ### A closure of two paths -/

def narinfoText (fields : List (String × String)) : Str :=
  fields.flatMap fun field => field.1.toList ++ ": ".toList ++ field.2.toList ++ ['\n']

def appFile : Str := "00bgd045z0d4icpbc2yyz4gx48ak44la.narinfo".toList
def libFile : Str := "1b9p07z77phvv2hf6gm9f28syp39f1ag.narinfo".toList

/-- A path that refers to itself and to another, signed by the key of `signedNix`. -/
def appText : Str := narinfoText [("StorePath", "/nix/store/00bgd045z0d4icpbc2yyz4gx48ak44la-app"), ("URL", "nar/app.nar"),
  ("Compression", "none"), ("FileHash", "sha256:9276fd53b49dcbf6168f8823aef1487af2ee4e2304b7ee6412dba79982b90a86"),
  ("FileSize", "120"),
  ("NarHash", "sha256:9276fd53b49dcbf6168f8823aef1487af2ee4e2304b7ee6412dba79982b90a86"), ("NarSize", "120"),
  ("References", "00bgd045z0d4icpbc2yyz4gx48ak44la-app 1b9p07z77phvv2hf6gm9f28syp39f1ag-lib"),
  ("Sig", "cache-1:XlS0bAjY/BXq6APvEu/lpBDcwVzkSVsQzmHXhR8dJU02uPfa6E+parEc4kjMmzwRuSqeTshj98nJdzWAz2XcBA==")]

def libText : Str := narinfoText [("StorePath", "/nix/store/1b9p07z77phvv2hf6gm9f28syp39f1ag-lib"), ("URL", "nar/lib.nar"),
  ("Compression", "none"), ("NarHash", "sha256:df69f950f672ac885a8651de72f9d452ccc91bbf9d553c947f0ab31ccba1abc9"),
  ("NarSize", "120"),
  ("References", "1b9p07z77phvv2hf6gm9f28syp39f1ag-lib"),
  ("Sig", "cache-1:dGxFEDFAqRlBSaS/YCIIA3z6ojYYhvQPCO6H7v3mp/3VvBnnz6LmYdLEdQ5iH2rLkkBmLAXHuXYULvu58NrICA==")]

def appNarinfo : Bytes := Utf8.utf8Bytes appText
def libNarinfo : Bytes := Utf8.utf8Bytes libText

def narString (text : Bytes) : Bytes :=
  UInt8.ofNat text.length :: List.replicate 7 0 ++ text ++ List.replicate ((8 - text.length % 8) % 8) 0

/-- The archive of a file. -/
def narOf (contents : String) : Bytes :=
  (["nix-archive-1", "(", "type", "regular", "contents", contents, ")"].map (narString ∘ Utf8.utf8Bytes ∘ String.toList)).flatten

theorem decodeUtf8_utf8Bytes (text : Str) : decodeUtf8 (Utf8.utf8Bytes text) = .ok text := by
  have hstrict : (TextFile.decode (Utf8.utf8Bytes text)).mapM Sum.getLeft? = some text :=
    Utf8.decodeStrict_eq_some.2 rfl
  rw [decodeUtf8, hstrict]

def appRecord : NixRecord "http://h".toList where
  filename := appFile
  raw := appNarinfo
  info :=
    { path := "/nix/store/00bgd045z0d4icpbc2yyz4gx48ak44la-app".toList
      refs := [appFile, libFile]
      filename := "nar/app.nar".toList
      contentHash := some "9276fd53b49dcbf6168f8823aef1487af2ee4e2304b7ee6412dba79982b90a86".toList
      size := some 120 }
  parsed := by
    rw [parseNarinfo, appNarinfo, decodeUtf8_utf8Bytes]
    decide +kernel

def libRecord : NixRecord "http://h".toList where
  filename := libFile
  raw := libNarinfo
  info :=
    { path := "/nix/store/1b9p07z77phvv2hf6gm9f28syp39f1ag-lib".toList
      refs := [libFile]
      filename := "nar/lib.nar".toList
      contentHash := none
      size := none }
  parsed := by
    rw [parseNarinfo, libNarinfo, decodeUtf8_utf8Bytes]
    decide +kernel

def signedNix : NixRepo :=
  { NixStore.plainNix with
    verifySignature := true
    nixPublicKeys := ["cache-1:OT9Xx6KQqE/TMGMgrRvvFsalZ+uwDoio6N3p0lXiucA=".toList] }

/-- What the key has signed. -/
def signedBy (keys : List Str) (path : Str) (narinfo : Bytes) : Bool :=
  signedNix.nixPublicKeys.all keys.contains &&
    decide ((path, narinfo) ∈ [appRecord, libRecord].map fun r => (r.info.path, signedFields r.raw))

theorem signedBy_of_mem {r : NixRecord "http://h".toList} (h : r ∈ [appRecord, libRecord]) :
    signedBy signedNix.nixPublicKeys r.info.path (signedFields r.raw) = true := by
  rw [signedBy, Bool.and_eq_true]
  exact ⟨List.all_eq_true.2 fun key hkey => List.contains_iff_mem.2 hkey, decide_eq_true (List.mem_map_of_mem h)⟩

def verifySigned (keys : List Str) (directory : Dict Str Bytes) (paths : List Str) : Bool :=
  paths.all fun path => (narinfoOf path).any fun f => (directory.lookup f).any (signedBy keys path)

theorem verifySigned_each : VerifiesEach verifySigned signedBy := by
  intro keys directory paths _
  simp only [verifySigned, List.all_eq_true, Option.any_eq_true]
  refine forall_congr' fun path => forall_congr' fun _ => ?_
  constructor
  · rintro ⟨f, hf, narinfo, hnarinfo, htrusted⟩
    exact ⟨f, narinfo, hf, hnarinfo, htrusted⟩
  · rintro ⟨f, narinfo, hf, hnarinfo, htrusted⟩
    exact ⟨f, hf, narinfo, hnarinfo, htrusted⟩

def closureGet (url : Str) : Response :=
  if url = "http://h/".toList ++ appFile then .body 200 [appNarinfo.take 200, appNarinfo.drop 200] true
  else if url = "http://h/".toList ++ libFile then .body 200 [libNarinfo] true
  else .refused 404

def closureRemote : Remote := ⟨closureGet, verifySigned⟩

theorem readBody_of_length : ∀ {parts : List Bytes} {raw : Bytes}, (raw ++ parts.flatten).length ≤ maxNarinfo →
    readBody raw parts = .ok (raw ++ parts.flatten)
  | [], raw, _ => by rw [List.flatten_nil, List.append_nil]; rfl
  | chunk :: parts, raw, h => by
    rw [List.flatten_cons, ← List.append_assoc] at h ⊢
    have hchunk : (raw ++ chunk).length ≤ maxNarinfo := by
      rw [List.length_append] at h
      omega
    rw [readBody, if_neg (by omega), readBody_of_length h]

/-- A body in chunks that is not too long. -/
theorem narinfo_body {status : Int} {parts : List Bytes} {raw : Bytes} (hraw : parts.flatten = raw)
    (hlength : raw.length ≤ maxNarinfo) : (Response.body status parts true).narinfo = .ok raw := by
  have hbody : readBody [] parts = .ok parts.flatten := readBody_of_length (by rwa [List.nil_append, hraw])
  rw [Response.narinfo, hbody, hraw]
  rfl

theorem fetchRecord_eq (repo : NixRepo) {remote : Remote} (record : NixRecord repo.repo.upstream)
    (hget : (remote.get (rstripSlash repo.repo.upstream ++ '/' :: record.filename)).narinfo = .ok record.raw) :
    fetchRecord repo remote record.filename = .ok record := by
  have hparsed := record.parsed
  unfold fetchRecord
  rw [hget]
  dsimp only
  split
  · rename_i herror
    rw [hparsed] at herror
    cases herror
  · rename_i info hok
    have hinfo : record.info = info := Except.ok.inj (hparsed.symm.trans hok)
    subst hinfo
    rfl

section Loop
variable (repo : NixRepo) {remote : Remote} {cached records : NixRecords repo.repo.upstream} {fetched pending : List Str}
  {filename : Str} {record : NixRecord repo.repo.upstream}

theorem discoverLoop_nil : discoverLoop repo remote cached records fetched [] = (.ok records, fetched) := by
  rw [discoverLoop]

theorem discoverLoop_found (h : (records.get filename).isSome = true) :
    discoverLoop repo remote cached records fetched (filename :: pending) =
      discoverLoop repo remote cached records fetched pending := by
  rw [discoverLoop, if_pos h]

theorem discoverLoop_visit (records : NixRecords repo.repo.upstream) (fetched pending : List Str)
    (hnew : (records.get filename).isSome = false) (hlimit : records.rows.length < repo.nixMaxPaths)
    (hvalid : isNarinfo filename = true) (hrecord : recordOf repo remote cached filename = .ok record) :
    discoverLoop repo remote cached records fetched (filename :: pending) =
      discoverLoop repo remote cached (records.upsert record)
        (if (cached.get filename).isSome then fetched else fetched ++ [filename])
        (record.info.refs.reverse ++ pending) := by
  rw [discoverLoop, if_neg (by simp [hnew]), if_neg (by omega), if_neg (by simp [hvalid])]
  dsimp only
  split
  · rename_i herror
    rw [hrecord] at herror
    cases herror
  · rename_i record' hok
    rw [hrecord, Except.ok.injEq] at hok
    rw [hok]

theorem discoverLoop_cached (hnew : (records.get record.filename).isSome = false)
    (hlimit : records.rows.length < repo.nixMaxPaths) (hvalid : isNarinfo record.filename = true)
    (hcached : record ∈ cached.rows) :
    discoverLoop repo remote cached records fetched (record.filename :: pending) =
      discoverLoop repo remote cached (records.upsert record) fetched (record.info.refs.reverse ++ pending) := by
  have hget := Table.get_of_mem hcached
  rw [discoverLoop_visit repo records fetched pending hnew hlimit hvalid (by rw [recordOf, hget]), hget,
    if_pos Option.isSome_some]

theorem recordOf_of_fetch (h : (cached.get filename).isSome = false)
    (hfetch : fetchRecord repo remote filename = .ok record) : recordOf repo remote cached filename = .ok record := by
  rw [recordOf, Option.isSome_eq_false_iff.1 h |> Option.isNone_iff_eq_none.1]
  exact hfetch

theorem discover_of_loop {found : NixRecords repo.repo.upstream}
    (hloop : discoverLoop repo remote cached Table.empty [] [filename] = (.ok found, fetched))
    (hverified : verifyMetadata repo remote found = true) :
    discover repo remote cached filename = ⟨.ok found, fetched, cached.upsertAll found.rows⟩ := by
  rw [discover, hloop]
  dsimp only
  rw [hverified, Bool.not_true, Bool.and_false, if_neg Bool.false_ne_true]

end Loop

def libFound : NixRecords "http://h".toList := Table.empty.upsert libRecord
def appFound : NixRecords "http://h".toList := (Table.empty.upsert appRecord).upsert libRecord

theorem fetchRecord_lib : fetchRecord signedNix closureRemote libFile = .ok libRecord := by
  have hne : "http://h/".toList ++ libFile ≠ "http://h/".toList ++ appFile := by decide +kernel
  have hget : closureGet ("http://h/".toList ++ libFile) = .body 200 [libNarinfo] true := by
    rw [closureGet, if_neg hne, if_pos rfl]
  refine fetchRecord_eq signedNix libRecord ?_
  exact (congrArg Response.narinfo hget).trans (narinfo_body (List.append_nil _) (by decide +kernel))

theorem fetchRecord_app : fetchRecord signedNix closureRemote appFile = .ok appRecord := by
  have hget : closureGet ("http://h/".toList ++ appFile) = .body 200 [appNarinfo.take 200, appNarinfo.drop 200] true := by
    rw [closureGet, if_pos rfl]
  have hwhole : [appNarinfo.take 200, appNarinfo.drop 200].flatten = appNarinfo := by simp
  refine fetchRecord_eq signedNix appRecord ?_
  exact (congrArg Response.narinfo hget).trans (narinfo_body hwhole (by decide +kernel))

/-- The root that is asked for first: upstream has its record. -/
theorem discover_lib : discover signedNix closureRemote Table.empty libFile = ⟨.ok libFound, [libFile], libFound⟩ := by
  have hvisit : discoverLoop signedNix closureRemote Table.empty Table.empty [] [libFile] =
      discoverLoop signedNix closureRemote Table.empty libFound [libFile] [libFile] :=
    discoverLoop_visit signedNix _ _ _ rfl (by decide +kernel) (by decide +kernel)
      (recordOf_of_fetch signedNix rfl fetchRecord_lib)
  have hfound : discoverLoop signedNix closureRemote Table.empty libFound [libFile] [libFile] = (.ok libFound, [libFile]) :=
    (discoverLoop_found signedNix (by decide +kernel)).trans (discoverLoop_nil signedNix)
  refine discover_of_loop signedNix (hvisit.trans hfound) ((verifyMetadata_iff verifySigned_each).2 fun r hr => ?_)
  exact signedBy_of_mem (List.mem_cons_of_mem _ hr)

/-- The root after it: the cache of the run has the record that it refers to. -/
theorem discover_app : discover signedNix closureRemote libFound appFile =
    ⟨.ok appFound, [appFile], libFound.upsertAll appFound.rows⟩ := by
  have happ : discoverLoop signedNix closureRemote libFound Table.empty [] [appFile] =
      discoverLoop signedNix closureRemote libFound (Table.empty.upsert appRecord) [appFile] [libFile, appFile] :=
    discoverLoop_visit signedNix _ _ _ rfl (by decide +kernel) (by decide +kernel)
      (recordOf_of_fetch signedNix (by decide +kernel) fetchRecord_app)
  have hlib : discoverLoop signedNix closureRemote libFound (Table.empty.upsert appRecord) [appFile]
      (libRecord.filename :: [appFile]) = discoverLoop signedNix closureRemote libFound appFound [appFile] [libFile, appFile] :=
    discoverLoop_cached signedNix (by decide +kernel) (by decide +kernel) (by decide +kernel) List.mem_cons_self
  have hfound : discoverLoop signedNix closureRemote libFound appFound [appFile] [libFile, appFile] =
      (.ok appFound, [appFile]) :=
    (discoverLoop_found signedNix (by decide +kernel)).trans
      ((discoverLoop_found signedNix (by decide +kernel)).trans (discoverLoop_nil signedNix))
  refine discover_of_loop signedNix (happ.trans (hlib.trans hfound)) ((verifyMetadata_iff verifySigned_each).2 fun r hr => ?_)
  exact signedBy_of_mem hr

section Paths
variable {sha256 : Bytes → Vector UInt8 32} {config : Config} {force : Bool} {a : Artifact}
  {artifacts : List Artifact} {warmed : Dict Artifact TaskResult} {results : List TaskResult}
  {next : Dict Artifact TaskResult → List TaskResult → WarmProgram} {tail : WarmLog}

theorem fetchAll_shared (result : TaskResult) (h : warmed.lookup a = some result)
    (hpath : Program.Path (fetchAll sha256 config force next warmed (results ++ [result]) artifacts) tail) :
    Program.Path (fetchAll sha256 config force next warmed results (a :: artifacts)) tail := by
  rw [fetchAll, h]
  exact hpath

theorem fetchAll_new {answers : TaskAnswers} {result : TaskResult} (h : warmed.lookup a = none)
    (hresult : download sha256 config force answers a = result)
    (hpath : Program.Path (fetchAll sha256 config force next (warmed.set a result) (results ++ [result]) artifacts) tail) :
    Program.Path (fetchAll sha256 config force next warmed results (a :: artifacts)) (⟨.download a, answers⟩ :: tail) := by
  subst hresult
  rw [fetchAll, h]
  exact ⟨answers, tail, rfl, hpath⟩

/-- A round whose discovery succeeds. -/
theorem warmClosure_path (repo : NixRepo) {package : Str × Str} {rest : WarmState repo → WarmProgram} {state : WarmState repo}
    {remote : Remote} {records cached : NixRecords repo.repo.upstream} {fetched : List Str}
    (hdiscover : discover repo remote state.discovered package.2 = ⟨.ok records, fetched, cached⟩)
    (hartifacts : closureArtifacts sha256 records = artifacts)
    (hpath : Program.Path (fetchAll sha256 config force (fun warmed results =>
      match results.mapM id with
      | none => finishPackage force package (rest { state with discovered := cached, warmed := warmed }) false none
      | some results => finishPackage force package (rest { state with discovered := cached, warmed := warmed })
          (closureStatus results).1 (closureStatus results).2) state.warmed [] artifacts) tail) :
    Program.Path (warmClosure sha256 config repo force package rest state)
      (⟨.discover package.2, remote⟩ :: ⟨.recordNixArtifacts package.1 artifacts, ()⟩ :: tail) := by
  subst hartifacts
  refine ⟨remote, _, rfl, ?_⟩
  dsimp only
  rw [hdiscover]
  exact ⟨(), tail, rfl, hpath⟩

end Paths

/-- SHA-256 of the files of the closure. -/
def closureSha256 (content : Bytes) : Vector UInt8 32 :=
  if content = appNarinfo then
    #v[0x4b, 0x93, 0xb6, 0x08, 0xf6, 0x31, 0x53, 0x33, 0x07, 0xc8, 0xc7, 0x12, 0xc5, 0x3d, 0x32, 0x99,
      0x32, 0x05, 0x2e, 0xfd, 0x1b, 0x90, 0x63, 0x07, 0xcf, 0xe0, 0x4c, 0x03, 0x87, 0xe1, 0x77, 0x4e]
  else if content = libNarinfo then
    #v[0x6f, 0xc6, 0x3d, 0x67, 0x6f, 0x1d, 0x83, 0x6a, 0x9b, 0x2b, 0xda, 0x7c, 0xb5, 0x12, 0x1b, 0x2f,
      0x47, 0xb9, 0x8d, 0xbe, 0xd9, 0x3a, 0x63, 0x8a, 0x30, 0x44, 0x56, 0x28, 0x32, 0xdf, 0xa0, 0x39]
  else if content = narOf "a\n" then
    #v[0x92, 0x76, 0xfd, 0x53, 0xb4, 0x9d, 0xcb, 0xf6, 0x16, 0x8f, 0x88, 0x23, 0xae, 0xf1, 0x48, 0x7a,
      0xf2, 0xee, 0x4e, 0x23, 0x04, 0xb7, 0xee, 0x64, 0x12, 0xdb, 0xa7, 0x99, 0x82, 0xb9, 0x0a, 0x86]
  else if content = narOf "b\n" then
    #v[0xdf, 0x69, 0xf9, 0x50, 0xf6, 0x72, 0xac, 0x88, 0x5a, 0x86, 0x51, 0xde, 0x72, 0xf9, 0xd4, 0x52,
      0xcc, 0xc9, 0x1b, 0xbf, 0x9d, 0x55, 0x3c, 0x94, 0x7f, 0x0a, 0xb3, 0x1c, 0xcb, 0xa1, 0xab, 0xc9]
  else Vector.replicate 32 0

def closureConfig : Config where
  checkInterval := 3600
  cacheBaseUrl := "http://127.0.0.1:8080".toList
  repos := [signedNix.repo]
  nginx := {}
  idsNodup := by decide
  versionOk := by decide

def closurePackages : Dict Str Str := .ofPairs [("lib-1".toList, libFile), ("app-1".toList, appFile)]

def appMetadata : Artifact := metadataArtifact closureSha256 appRecord
def libMetadata : Artifact := metadataArtifact closureSha256 libRecord
def appNar : Artifact := narArtifact appRecord
def libNar : Artifact := narArtifact libRecord

def delivered (content : Bytes) : TaskAnswers := ⟨true, .body 200 [content] true, none, true, .lost⟩

def cacheInfoBody : Response := .body 200 [Utf8.utf8Bytes "StoreDir: /nix/store\n".toList] true

/-- What happens before the second package is recorded. -/
def closureLog : WarmLog :=
  [⟨.updateNixTrust, ()⟩, ⟨.warmingPolicy, fun _ : Str => true⟩, ⟨.automaticWarmEnabled, true⟩,
    ⟨.get (warmUrl closureConfig signedNix.repo "nix-cache-info".toList), cacheInfoBody⟩,
    ⟨.discover libFile, closureRemote⟩, ⟨.recordNixArtifacts "lib-1".toList [libMetadata, libNar], ()⟩,
    ⟨.download libMetadata, delivered libNarinfo⟩, ⟨.download libNar, delivered (narOf "b\n")⟩,
    ⟨.automaticWarmEnabled, true⟩, ⟨.recordWarmedPackage "lib-1".toList libFile true (some 200), ()⟩,
    ⟨.automaticWarmEnabled, true⟩, ⟨.discover appFile, closureRemote⟩,
    ⟨.recordNixArtifacts "app-1".toList [appMetadata, appNar, libMetadata, libNar], ()⟩,
    ⟨.download appMetadata, delivered appNarinfo⟩, ⟨.download appNar, delivered (narOf "a\n")⟩,
    ⟨.automaticWarmEnabled, true⟩]

theorem closureArtifacts_lib : closureArtifacts closureSha256 libFound = [libMetadata, libNar] := rfl

theorem closureArtifacts_app : closureArtifacts closureSha256 appFound = [appMetadata, appNar, libMetadata, libNar] := rfl

/-- A body with the digest and the size that are asked for. -/
theorem downloadPackage_own {sha256 : Bytes → Vector UInt8 32} {upstream : Str} (r : NixRecord upstream) :
    downloadPackage sha256 (metadataArtifact sha256 r).contentHash (metadataArtifact sha256 r).size (.body 200 [r.raw] true) =
      (true, some 200) := by
  have hwritten : HashWritten (metadataArtifact sha256 r) := metadataArtifact_hashWritten r
  have hlower := (hwritten _ rfl).2
  have hreceive : receive (some r.raw.length) [] [r.raw] = some r.raw := by simp [receive]
  unfold downloadPackage metadataArtifact
  dsimp only
  rw [hreceive]
  simp [hlower]

theorem lookup_set_of_ne {warmed : Dict Artifact TaskResult} {a b : Artifact} {result : TaskResult}
    (h : a.filename ≠ b.filename) : (warmed.set b result).lookup a = warmed.lookup a := by
  rw [Dict.lookup_set, if_neg fun he => h (congrArg Artifact.filename he)]

theorem download_delivered {content : Bytes} (h : (downloadPackage closureSha256 a.contentHash a.size
    (.body 200 [content] true)) = (true, some 200)) :
    download closureSha256 closureConfig false (delivered content) a = some (true, some 200) := by
  have hmismatched : (delivered content).mismatched closureSha256 closureConfig a = false := by
    unfold TaskAnswers.mismatched delivered
    rw [h]
    rfl
  unfold download TaskAnswers.retries
  rw [hmismatched]
  exact congrArg some h

theorem delivered_lib : download closureSha256 closureConfig false (delivered libNarinfo) libMetadata = some (true, some 200) :=
  download_delivered (downloadPackage_own libRecord)

theorem delivered_app : download closureSha256 closureConfig false (delivered appNarinfo) appMetadata = some (true, some 200) :=
  download_delivered (downloadPackage_own appRecord)

theorem delivered_nars :
    download closureSha256 closureConfig false (delivered (narOf "b\n")) libNar = some (true, some 200) ∧
    download closureSha256 closureConfig false (delivered (narOf "a\n")) appNar = some (true, some 200) :=
  ⟨download_delivered (by decide +kernel), download_delivered (by decide +kernel)⟩

theorem filenames_distinct : libMetadata.filename ≠ libNar.filename ∧ appMetadata.filename ≠ libMetadata.filename ∧
    appMetadata.filename ≠ libNar.filename ∧ appNar.filename ≠ libMetadata.filename ∧ appNar.filename ≠ libNar.filename ∧
    appNar.filename ≠ appMetadata.filename := by decide +kernel

section Fetch
variable {next : Dict Artifact TaskResult → List TaskResult → WarmProgram} {warmed : Dict Artifact TaskResult} {tail : WarmLog}

/-- The files of the first package are new to the run. -/
theorem fetchAll_lib (hnew : warmed.lookup libMetadata = none ∧ warmed.lookup libNar = none)
    (hpath : Program.Path (next ((warmed.set libMetadata (some (true, some 200))).set libNar (some (true, some 200)))
      [some (true, some 200), some (true, some 200)]) tail) :
    Program.Path (fetchAll closureSha256 closureConfig false next warmed [] [libMetadata, libNar])
      (⟨.download libMetadata, delivered libNarinfo⟩ :: ⟨.download libNar, delivered (narOf "b\n")⟩ :: tail) := by
  refine fetchAll_new hnew.1 delivered_lib (fetchAll_new ?_ delivered_nars.1 hpath)
  rw [lookup_set_of_ne filenames_distinct.1.symm, hnew.2]

/-- Those of the second are fetched beside them. -/
theorem fetchAll_app (hlib : warmed.lookup libMetadata = some (some (true, some 200)))
    (hnar : warmed.lookup libNar = some (some (true, some 200)))
    (hnew : warmed.lookup appMetadata = none ∧ warmed.lookup appNar = none)
    (hpath : Program.Path (next ((warmed.set appMetadata (some (true, some 200))).set appNar (some (true, some 200)))
      [some (true, some 200), some (true, some 200), some (true, some 200), some (true, some 200)]) tail) :
    Program.Path (fetchAll closureSha256 closureConfig false next warmed [] [appMetadata, appNar, libMetadata, libNar])
      (⟨.download appMetadata, delivered appNarinfo⟩ :: ⟨.download appNar, delivered (narOf "a\n")⟩ :: tail) := by
  obtain ⟨-, happ, happNar, hlibNar, hnars, hown⟩ := filenames_distinct
  refine fetchAll_new hnew.1 delivered_app (fetchAll_new ?_ delivered_nars.2 ?_)
  · rw [lookup_set_of_ne hown, hnew.2]
  refine fetchAll_shared (some (true, some 200)) ?_ (fetchAll_shared (some (true, some 200)) ?_ hpath)
  · rw [lookup_set_of_ne hlibNar.symm, lookup_set_of_ne happ.symm, hlib]
  · rw [lookup_set_of_ne hnars.symm, lookup_set_of_ne happNar.symm, hnar]

end Fetch

theorem closure_path : Program.Path (warm closureSha256 closureConfig signedNix false closurePackages)
    (closureLog ++ [⟨.recordWarmedPackage "app-1".toList appFile true (some 200), ()⟩]) := by
  obtain ⟨hown, happ, happNar, hlibNar, hnars, -⟩ := filenames_distinct
  refine ⟨(), _, rfl, fun _ => true, _, rfl, true, _, rfl, cacheInfoBody, _, rfl, ?_⟩
  refine warmClosure_path signedNix discover_lib closureArtifacts_lib (fetchAll_lib ⟨rfl, rfl⟩ ?_)
  refine ⟨true, _, rfl, (), _, rfl, true, _, rfl, ?_⟩
  refine warmClosure_path signedNix discover_app closureArtifacts_app (fetchAll_app ?_ ?_ ⟨?_, ?_⟩ ?_)
  · rw [lookup_set_of_ne hown, Dict.lookup_set, if_pos rfl]
  · rw [Dict.lookup_set, if_pos rfl]
  · rw [lookup_set_of_ne happNar, lookup_set_of_ne happ]
    rfl
  · rw [lookup_set_of_ne hnars, lookup_set_of_ne hlibNar]
    rfl
  · exact ⟨true, _, rfl, (), _, rfl, rfl⟩

/-- Both paths are found, and the package is recorded after all their files came. -/
theorem closure_warming_complete_app :
    (¬ ∃ e, (discover signedNix closureRemote Table.empty appFile).result = .error e) ∧
    ClosureWarmed closureSha256 closureConfig signedNix false closureLog appFile := by
  refine ⟨?_, (closure_warming_complete verifySigned_each).2 closureSha256 closureConfig signedNix false closurePackages _
    closure_path closureLog "app-1".toList appFile (some 200) () [] rfl⟩
  have happ : recordOf signedNix closureRemote Table.empty appFile = .ok appRecord :=
    recordOf_of_fetch signedNix rfl fetchRecord_app
  have hlib : recordOf signedNix closureRemote Table.empty libFile = .ok libRecord :=
    recordOf_of_fetch signedNix rfl fetchRecord_lib
  have hfiles : ∀ f, Reach (Refers signedNix closureRemote Table.empty) appFile f → f = appFile ∨ f = libFile := by
    intro f hf
    induction hf with
    | refl => exact .inl rfl
    | tail _ hrefers ih =>
      obtain ⟨r, hr, hmem⟩ := hrefers
      rcases ih with rfl | rfl
      · rw [happ] at hr
        cases hr
        simpa [appRecord] using hmem
      · rw [hlib] at hr
        cases hr
        exact .inr (List.mem_singleton.1 hmem)
  have hdiscovers := (closure_warming_complete verifySigned_each).1 signedNix closureRemote.get Table.empty appFile (by decide)
  refine fun herror => ?_
  rcases hdiscovers.raises.1 herror with hmax | ⟨f, hf, herror⟩
  · refine hmax fun l hnodup hreach => ?_
    have hsub : l ⊆ [appFile, libFile] := fun f hf => by
      rcases hfiles f (hreach f hf) with rfl | rfl <;> simp
    exact (hnodup.subperm hsub).length_le.trans (by decide)
  · rcases hfiles f hf with rfl | rfl
    · rcases herror with ⟨e, he⟩ | ⟨r, hr, -, huntrusted⟩
      · exact absurd (happ.symm.trans he) (by simp)
      · obtain rfl : appRecord = r := Except.ok.inj (happ.symm.trans hr)
        rw [signedBy_of_mem List.mem_cons_self] at huntrusted
        cases huntrusted
    · rcases herror with ⟨e, he⟩ | ⟨r, hr, -, huntrusted⟩
      · exact absurd (hlib.symm.trans he) (by simp)
      · obtain rfl : libRecord = r := Except.ok.inj (hlib.symm.trans hr)
        rw [signedBy_of_mem (List.mem_cons_of_mem _ List.mem_cons_self)] at huntrusted
        cases huntrusted

end RepoWatch
