import RepoWatch.CatalogFetch
import RepoWatch.Lib.DotSegments
import RepoWatch.Revisions
/-!
# IndexCheck — checks that skip the download

A check asks for the head of the index under the validators that the last snapshot was recorded with, and downloads nothing
when they still hold.  The validators are those of a head that was read before the snapshot was fetched, and they are bound
to the catalog identity.  So whatever checks, deletions and other writers do in between, a skipped download would have given
the catalog that is there (`skip_lossless`), if the validators of the other side can be trusted.
-/
namespace RepoWatch

open Lib

/-! ## The head of an index -/

/-- The answer to a `HEAD` request; `refused` is a status that `raise_for_status` raises for. -/
inductive HeadReply where
  | failed
  | notModified
  | refused (status : Nat)
  | found (etag lastModified : Option Str)

structure IndexHeadResult where
  unchanged : Bool
  etag : Option Str
  lastModified : Option Str
  deriving DecidableEq

/-- What answers a `HEAD` request with these `If-None-Match` and `If-Modified-Since`. -/
abbrev HeadServer := Option Str → Option Str → HeadReply

/-- A header is sent for a value that is neither missing nor empty. -/
def header (value : Option Str) : Option Str := value.filter (· ≠ [])

/-- `IndexParser.check_index_changed`. -/
def checkIndexChanged (serve : HeadServer) (prevEtag prevLastModified : Option Str) : Except FetchError IndexHeadResult :=
  match serve (header prevEtag) (header prevLastModified) with
  | .failed => .error .transport
  | .notModified => .ok ⟨true, prevEtag, prevLastModified⟩
  | .refused status => .error (.status status)
  | .found etag lastModified =>
    .ok ⟨known prevEtag && known etag && prevEtag == etag ||
      !known etag && known prevLastModified && known lastModified && prevLastModified == lastModified, etag, lastModified⟩

namespace Apt

def validatorPrefix : Str := "apt-inrelease:".toList

/-- A validator that was stored for the release metadata. -/
def unprefixed (value : Option Str) : Option Str :=
  value.bind fun v => if startsWith v validatorPrefix then some (v.drop validatorPrefix.length) else none

def prefixed (value : Option Str) : Option Str := (header value).map fun v => validatorPrefix ++ v

/-- `AptParser.check_index_changed`. -/
def checkIndexChanged (verifySignature : Bool) (serve : HeadServer) (prevEtag prevLastModified : Option Str) :
    Except FetchError IndexHeadResult :=
  match RepoWatch.checkIndexChanged serve (unprefixed prevEtag) (unprefixed prevLastModified) with
  | .ok head => .ok ⟨head.unchanged && (known (unprefixed prevEtag) || known (unprefixed prevLastModified)),
      prefixed head.etag, prefixed head.lastModified⟩
  | .error (.status code) =>
    if verifySignature || (code != 404 && code != 410) then .error (.status code) else .ok ⟨false, none, none⟩
  | .error e => .error e

end Apt

/-- The head as `check_index` goes on with it: one that fails is taken as changed. -/
def indexHead (repo : RepoFields) (serve : HeadServer) (prev : Option Str × Option Str) : IndexHeadResult :=
  let result := match repo.type with
    | .apt => Apt.checkIndexChanged repo.verifySignature serve prev.1 prev.2
    | .nix => .ok ⟨false, none, none⟩
    | _ => checkIndexChanged serve prev.1 prev.2
  match result with
  | .ok head => head
  | .error _ => ⟨false, none, none⟩

namespace Database

/-- `RepositoriesStore.get_index_meta`. -/
def getIndexMeta (db : Database) (repoId : Str) (sourceIdentity : Option Str) : Option Str × Option Str :=
  match db.repoState.get repoId with
  | none => (none, none)
  | some row =>
    if sourceIdentity.isSome && row.sourceIdentity != sourceIdentity then (none, none)
    else (row.indexEtag, row.indexLastModified)

/-- `RepositoriesStore.has_snapshot`. -/
def hasSnapshot (db : Database) (repoId : Str) : Bool := (db.repoState.get repoId).any fun row => decide (row.lastCheck ≠ [])

/-- The packages that are recorded for a repository. -/
def catalog (db : Database) (repoId : Str) (key : Str) : Option PackageRow := db.repoPackages.get (repoId, key)

end Database

/-! ## Checks under way -/

/-- The other side at one moment: what it serves, and its heads by URL. -/
structure World where
  upstream : Upstream
  head : Str → HeadServer

/-- What a fetch reads that goes on from one moment to another: every answer is that of some moment between. -/
def readBetween (worlds : Nat → World) (first last : Nat) (at_ : Str → Nat) (evaluatedAt : List Str → Nat) : Upstream where
  get url := (worlds (max first (min (at_ url) last))).upstream.get url
  evaluate command := (worlds (max first (min (evaluatedAt command) last))).upstream.evaluate command

inductive CheckPhase where
  | begun
  | headed (head : IndexHeadResult) (time : Nat)
  | fetched (head : IndexHeadResult) (time : Nat) (snapshot : RepoSnapshot)

/-- A run of `check_index`: the stored validators it has read, and the catalog that was there with them. -/
structure IndexCheck where
  repo : RepoFields
  prev : Option Str × Option Str
  catalog : Str → Option PackageRow
  phase : CheckPhase

structure CheckSystem where
  db : Database
  clock : Nat
  checks : List IndexCheck

inductive CheckAction where
  | tick
  | start (repo : RepoFields)
  | head (i : Nat) (now : Str)
  | fetch (i : Nat) (host : Host) (at_ : Str → Nat) (evaluatedAt : List Str → Nat)
  | record (i : Nat) (now : Str) (uuid : Str → Str)
  -- what else writes the check state and the packages
  | store (op : RevisionOp)
  -- the writers of the other tables
  | write (events : List EventRow) (pending : Table PendingRow (Str × Str) PendingRow.pk)
      (warmed : Table WarmedRow (Str × Str) WarmedRow.pk)
      (artifacts : Table NixArtifactRow (Str × Str × Str) NixArtifactRow.pk)

section
variable (lib : Library) (sha256 : Bytes → Str) (worlds : Nat → World)

def IndexCheck.identity (c : IndexCheck) : Str := catalogIdentity sha256 c.repo

/-- The head that a check reads at a moment. -/
def IndexCheck.headAt (c : IndexCheck) (time : Nat) : IndexHeadResult :=
  indexHead c.repo ((worlds time).head ((indexUrl c.repo).getD [])) c.prev

/-- The condition under which `check_index` skips the download. -/
def IndexCheck.skips (c : IndexCheck) (db : Database) (time : Nat) : Bool :=
  (c.headAt worlds time).unchanged && !c.repo.verifySignature && (c.prev.1.isSome || c.prev.2.isSome) &&
    db.hasSnapshot c.repo.id

namespace CheckSystem

def initial : CheckSystem := ⟨.empty, 0, []⟩

def startCheck (s : CheckSystem) (repo : RepoFields) : IndexCheck :=
  ⟨repo, s.db.getIndexMeta repo.id (some (catalogIdentity sha256 repo)), s.db.catalog repo.id, .begun⟩

def step (s : CheckSystem) : CheckAction → Option CheckSystem
  | .tick => some { s with clock := s.clock + 1 }
  | .start repo => some { s with checks := s.checks ++ [s.startCheck sha256 repo] }
  | .head i now =>
    match s.checks[i]? with
    | some ⟨repo, prev, catalog, .begun⟩ =>
      let c : IndexCheck := ⟨repo, prev, catalog, .begun⟩
      if c.skips worlds s.db s.clock then
        some { s with db := s.db.touchLastCheck repo.id now, checks := s.checks.eraseIdx i }
      else some { s with checks := s.checks.set i { c with phase := .headed (c.headAt worlds s.clock) s.clock } }
    | _ => none
  | .fetch i host at_ evaluatedAt =>
    match s.checks[i]? with
    | some ⟨repo, prev, catalog, .headed head time⟩ =>
      match fetchSnapshot lib (readBetween worlds time s.clock at_ evaluatedAt) host repo with
      | .error _ => some { s with checks := s.checks.eraseIdx i }
      | .ok snapshot => some { s with checks := s.checks.set i ⟨repo, prev, catalog, .fetched head time snapshot⟩ }
    | _ => none
  | .record i now uuid =>
    match s.checks[i]? with
    | some ⟨repo, _, _, .fetched head _ snapshot⟩ =>
      some { s with
        db := (s.db.recordSnapshot snapshot ⟨now, head.etag, head.lastModified, some (catalogIdentity sha256 repo)⟩ uuid).1
        checks := s.checks.eraseIdx i }
    | _ => none
  | .store (.recordSnapshot ..) => none
  | .store op => some { s with db := RevisionOp.apply s.db op }
  | .write events pending warmed artifacts =>
    some { s with db := ⟨s.db.repoState, s.db.repoPackages, events, pending, warmed, artifacts⟩ }

abbrev Runs : CheckSystem → List CheckAction → CheckSystem → Prop :=
  Run fun s a s' => step lib sha256 worlds s a = some s'

end CheckSystem
end

/-! ## What a fetch reads -/

/-- What the URLs of a fetch begin with; the configuration alone says it. -/
def indexBases (repo : RepoFields) : List Str :=
  match repo.type with
  | .apt => [Apt.distUrl repo, Apt.distUrl repo ++ Apt.binaryPath repo]
  | .pacman => [Pacman.indexUrl repo]
  | .apk => [Apk.indexUrl repo]
  | .dnf => [rstripSlash repo.upstream ++ "/".toList]
  | .aptRpm =>
    [rstripSlash repo.upstream ++ "/base/".toList,
      rstripSlash repo.upstream ++ "/base/pkglist.".toList ++ formatOption repo.component]
  | .xbps => [Xbps.indexUrl repo]
  | .gentoo => [Gentoo.indexUrl repo]
  | .slackware => [rstripSlash repo.upstream ++ "/".toList, Slackware.indexUrl repo]
  | .nix => []

section
variable {lib : Library} {up up' : Upstream} {host : Host} {repo : RepoFields}

/-- Two sides answer alike under a base, for what has no dot segments behind it. -/
def AgreeUnder (base : Str) (up up' : Upstream) : Prop :=
  ∀ rest, hasDotSegment rest = false → up.get (base ++ rest) = up'.get (base ++ rest)

theorem AgreeUnder.request {base : Str} (h : AgreeUnder base up up') (rest : Str) (hrest : hasDotSegment rest = false) :
    httpGet up (base ++ rest) = httpGet up' (base ++ rest) := by
  rw [httpGet, httpGet, h rest hrest]

theorem AgreeUnder.whole {base : Str} (h : AgreeUnder base up up') : httpGet up base = httpGet up' base := by
  simpa using h.request [] rfl

theorem hasDotSegment_of_not_mem {path : Str} (h : '.' ∉ path) : hasDotSegment path = false := DotSegments.hasDot_of_not_mem h

/-- A digest of a release is one segment without dots. -/
theorem Apt.hasDotSegment_byHash {digest : Str} (h : isSha256 digest = true) :
    hasDotSegment ("by-hash/SHA256/".toList ++ digest) = false := by
  refine hasDotSegment_of_not_mem fun hdot => ?_
  rcases List.mem_append.1 hdot with hdot | hdot
  · revert hdot
    decide
  · have hhex := List.all_eq_true.1 (Bool.and_eq_true _ _ ▸ h).2 '.' hdot
    revert hhex
    decide

theorem Apt.mem_of_listedIndex {body : Bytes} {path : Str} {file : Str × Str} : ∀ {names : List Str},
    listedIndex body path names = .ok file → file.1 ∈ names
  | [], h => by cases h
  | name :: names, h => by
    unfold listedIndex at h
    split at h
    · cases h
      exact List.mem_cons_self
    · exact List.mem_cons_of_mem _ (mem_of_listedIndex h)

/-- What a release can select: one of the files by its name, and a digest that is one. -/
theorem Apt.selectIndex_ok {body : Option Bytes} {filename : Str} {digest : Option Str}
    (h : selectIndex repo body = .ok (filename, digest)) : filename ∈ filenames ∧ ∀ d, digest = some d → isSha256 d = true := by
  cases body with
  | none =>
    cases h
    exact ⟨by decide, fun _ hd => by cases hd⟩
  | some body =>
    obtain ⟨file, hlisted, h⟩ := bind_eq_ok.1 h
    dsimp only at h
    split at h
    · cases h
    · rename_i hdigest
      cases h
      exact ⟨mem_of_listedIndex hlisted, fun d hd => by cases hd; simpa using hdigest⟩

theorem Apt.fetchPackages_local (hdist : AgreeUnder (Apt.distUrl repo) up up')
    (hbinary : AgreeUnder (Apt.distUrl repo ++ Apt.binaryPath repo) up up') :
    Apt.fetchPackages lib up host repo = Apt.fetchPackages lib up' host repo := by
  have hindex : up.get (Apt.indexUrl repo) = up'.get (Apt.indexUrl repo) := by
    have := hdist "InRelease".toList (by decide)
    simpa [Apt.indexUrl, Apt.distUrl] using this
  have hrelease : Apt.releaseBody up host repo = Apt.releaseBody up' host repo := by
    unfold Apt.releaseBody Apt.legacyRelease
    rw [hindex, hdist _ (by decide)]
  have hnames : ∀ name ∈ Apt.filenames, hasDotSegment name = false := by decide
  unfold Apt.fetchPackages
  rw [hrelease]
  refine bind_congr_of_ok fun body _ => bind_congr_of_ok fun file hfile => ?_
  obtain ⟨filename, digest⟩ := file
  obtain ⟨hname, hdigest⟩ := Apt.selectIndex_ok hfile
  dsimp only
  have hurl : ∃ rest, hasDotSegment rest = false ∧
      Apt.packagesUrl repo body filename digest = Apt.distUrl repo ++ Apt.binaryPath repo ++ rest := by
    unfold Apt.packagesUrl
    dsimp only
    split
    · refine ⟨_, ?_, List.append_assoc ..⟩
      cases digest with
      | none => decide
      | some digest => exact Apt.hasDotSegment_byHash (hdigest digest rfl)
    · exact ⟨filename, hnames filename hname, rfl⟩
  obtain ⟨rest, hrest, hurl⟩ := hurl
  have hget : Apt.getPackages up (Apt.packagesUrl repo body filename digest)
      (Apt.distUrl repo ++ Apt.binaryPath repo ++ filename) = Apt.getPackages up' (Apt.packagesUrl repo body filename digest)
      (Apt.distUrl repo ++ Apt.binaryPath repo ++ filename) := by
    unfold Apt.getPackages
    rw [hurl, hbinary rest hrest, hbinary.request filename (hnames filename hname)]
  rw [hget]

theorem Pacman.fetchPackages_local (h : AgreeUnder (Pacman.indexUrl repo) up up') :
    Pacman.fetchPackages lib up host repo = Pacman.fetchPackages lib up' host repo := by
  unfold Pacman.fetchPackages Pacman.verify
  rw [h.whole, h.request ".sig".toList (by decide)]

/-- **A location stays inside**: the `href` that is accepted has no dot segments. -/
theorem RpmMd.hasDotSegment_relativePath {value : Option Str} {href : Str} (h : relativePath value = .ok href) :
    hasDotSegment href = false := by
  unfold relativePath at h
  dsimp only at h
  split at h
  · cases h
  split at h
  · cases h
  split at h
  · cases h
  split at h
  · cases h
  · rename_i hinside
    rw [not_or] at hinside
    cases h
    have hparts : ∀ part ∈ ((value.getD []).splitOn '/').filter fun part => part ≠ [] && part ≠ ['.'], '/' ∉ part :=
      fun part hpart => DotSegments.slash_not_mem _ part (List.mem_filter.1 hpart).1
    refine (DotSegments.hasDot_intercalate hparts).trans (List.any_eq_false.2 fun part hpart => ?_)
    have hdot : part ≠ ['.'] := of_decide_eq_true (Bool.and_eq_true _ _ ▸ (List.mem_filter.1 hpart).2).2
    have hdots : part ≠ ['.', '.'] := fun he => hinside.1 (he ▸ hpart)
    simp [DotSegments.isDot, hdot, hdots]

theorem RpmMd.hasDotSegment_href {raw : Bytes} {metadata : PrimaryMetadata} (h : parseRepomd lib raw = .ok metadata) :
    hasDotSegment metadata.href = false := by
  obtain ⟨root, -, h⟩ := bind_eq_ok.1 h
  split at h
  · cases h
  split at h
  · cases h
  split at h
  · obtain ⟨href, hhref, h⟩ := bind_eq_ok.1 h
    obtain ⟨checksum, -, h⟩ := bind_eq_ok.1 h
    obtain ⟨openChecksum, -, h⟩ := bind_eq_ok.1 h
    obtain ⟨size, -, h⟩ := bind_eq_ok.1 h
    obtain ⟨openSize, -, h⟩ := bind_eq_ok.1 h
    cases h
    exact hasDotSegment_relativePath hhref
  · cases h

theorem RpmMd.fetchPackages_local (h : AgreeUnder (rstripSlash repo.upstream ++ "/".toList) up up') :
    RpmMd.fetchPackages lib up host repo = RpmMd.fetchPackages lib up' host repo := by
  have hbase : ∀ rest, rstripSlash repo.upstream ++ '/' :: rest = rstripSlash repo.upstream ++ "/".toList ++ rest := by simp
  have hindex : ∀ rest, hasDotSegment ("repodata/repomd.xml".toList ++ rest) = false →
      httpGet up (RpmMd.indexUrl repo ++ rest) = httpGet up' (RpmMd.indexUrl repo ++ rest) := by
    intro rest hrest
    simpa [RpmMd.indexUrl] using h.request _ hrest
  have hself : httpGet up (RpmMd.indexUrl repo) = httpGet up' (RpmMd.indexUrl repo) := by
    simpa using hindex [] (by decide)
  unfold RpmMd.fetchPackages RpmMd.verify
  rw [hself, hindex ".asc".toList (by decide)]
  refine bind_congr_of_ok fun raw _ => bind_congr_of_ok fun _ _ => bind_congr_of_ok fun metadata hmetadata => ?_
  rw [hbase, h.request _ (RpmMd.hasDotSegment_href hmetadata)]

theorem AptRpm.fetchPackages_local (h : AgreeUnder (rstripSlash repo.upstream ++ "/base/".toList) up up')
    (hlists : AgreeUnder (rstripSlash repo.upstream ++ "/base/pkglist.".toList ++ formatOption repo.component) up up') :
    AptRpm.fetchPackages lib up host repo = AptRpm.fetchPackages lib up' host repo := by
  have hindex : httpGet up (AptRpm.indexUrl repo) = httpGet up' (AptRpm.indexUrl repo) := by
    simpa [AptRpm.indexUrl] using h.request "release".toList (by decide)
  have hsuffixes : ∀ suffix ∈ AptRpm.suffixes, hasDotSegment suffix = false := by decide
  unfold AptRpm.fetchPackages AptRpm.fetchPkglist
  rw [hindex]
  refine bind_congr_of_ok fun release _ => bind_congr_of_ok fun body _ => bind_congr_of_ok fun entries _ => ?_
  dsimp only
  split
  · rfl
  · rename_i suffix hfind
    have hget := hlists.request suffix (hsuffixes suffix (List.mem_of_find?_eq_some hfind))
    simp only [List.append_assoc] at hget ⊢
    exact congrArg (· >>= _) hget

theorem Slackware.fetchPackages_local (h : AgreeUnder (rstripSlash repo.upstream ++ "/".toList) up up')
    (hindex : AgreeUnder (Slackware.indexUrl repo) up up') :
    Slackware.fetchPackages lib host up repo = Slackware.fetchPackages lib host up' repo := by
  have hsums : httpGet up (rstripSlash repo.upstream ++ "/CHECKSUMS.md5".toList) =
      httpGet up' (rstripSlash repo.upstream ++ "/CHECKSUMS.md5".toList) := by
    simpa using h.request "CHECKSUMS.md5".toList (by decide)
  have hsignature : httpGet up (rstripSlash repo.upstream ++ "/CHECKSUMS.md5.asc".toList) =
      httpGet up' (rstripSlash repo.upstream ++ "/CHECKSUMS.md5.asc".toList) := by
    simpa using h.request "CHECKSUMS.md5.asc".toList (by decide)
  unfold Slackware.fetchPackages Slackware.verify
  simp only [hindex.whole, hsums, hsignature]

theorem NixCatalog.fetchPackages_local (h : up.evaluate = up'.evaluate) :
    NixCatalog.fetchPackages lib up host repo = NixCatalog.fetchPackages lib up' host repo := by
  have hrun : ∀ arguments timeout,
      NixCatalog.runNix up host arguments timeout = NixCatalog.runNix up' host arguments timeout := by
    intro arguments timeout
    rw [NixCatalog.runNix, NixCatalog.runNix, h]
  unfold NixCatalog.fetchPackages NixCatalog.evaluated
  simp only [hrun]

/-- A fetch is decided by what is served under its bases. -/
theorem fetchSnapshot_local (h : ∀ base ∈ indexBases repo, AgreeUnder base up up')
    (hevaluate : repo.type = .nix → up.evaluate = up'.evaluate) :
    fetchSnapshot lib up host repo = fetchSnapshot lib up' host repo := by
  have hpackages : fetchPackages lib up host repo = fetchPackages lib up' host repo := by
    unfold fetchPackages
    unfold indexBases at h
    cases htype : repo.type <;> rw [htype] at h <;> dsimp only at h ⊢
    case apt => exact Apt.fetchPackages_local (h _ (by simp)) (h _ (by simp))
    case pacman => exact Pacman.fetchPackages_local (h _ (by simp))
    case apk => unfold Apk.fetchPackages; rw [(h _ List.mem_cons_self).whole]
    case dnf => exact RpmMd.fetchPackages_local (h _ (by simp))
    case aptRpm => exact AptRpm.fetchPackages_local (h _ (by simp)) (h _ (by simp))
    case xbps => unfold Xbps.fetchPackages; rw [(h _ List.mem_cons_self).whole]
    case gentoo => unfold Gentoo.fetchPackages; rw [(h _ List.mem_cons_self).whole]
    case slackware => exact Slackware.fetchPackages_local (h _ (by simp)) (h _ (by simp))
    case nix => exact NixCatalog.fetchPackages_local (hevaluate htype)
  unfold fetchSnapshot
  rw [hpackages]

/-- A URL goes on from one of the bases, without dot segments. -/
def staysBelow (bases : List Str) (url : Str) : Bool :=
  bases.any fun base => startsWith url base && !hasDotSegment (url.drop base.length)

/-- An upstream that fails for every URL that leaves the bases of the fetch; those of Nix are none. -/
def Upstream.within (up : Upstream) (repo : RepoFields) : Upstream where
  get url := if staysBelow (indexBases repo) url then up.get url else .failed
  evaluate := up.evaluate

theorem agreeUnder_within {base : Str} (hbase : base ∈ indexBases repo) : AgreeUnder base (up.within repo) up := by
  intro rest hrest
  refine if_pos (List.any_eq_true.2 ⟨base, hbase, ?_⟩)
  rw [startsWith_iff.2 (List.prefix_append base rest), List.drop_left, hrest]
  rfl

theorem prefix_of_slash (s rest : Str) : rstripSlash s ++ ['/'] <+: s ++ '/' :: rest := by
  obtain ⟨t, ht, hslash⟩ := rstripSlash_append s
  cases t with
  | nil =>
    rw [List.append_nil] at ht
    exact ⟨rest, by rw [← ht, List.append_assoc, List.singleton_append]⟩
  | cons c t =>
    obtain rfl : c = '/' := hslash c (List.mem_cons_self ..)
    refine ⟨t ++ '/' :: rest, ?_⟩
    calc rstripSlash s ++ ['/'] ++ (t ++ '/' :: rest) = (rstripSlash s ++ '/' :: t) ++ '/' :: rest := by simp
      _ = s ++ '/' :: rest := by rw [← ht]

theorem prefix_of_mem_indexBases {base : Str} (hbase : base ∈ indexBases repo) : rstripSlash repo.upstream ++ ['/'] <+: base := by
  have hrstrip : ∀ rest, rstripSlash repo.upstream ++ ['/'] <+: rstripSlash repo.upstream ++ '/' :: rest := fun rest =>
    ⟨rest, by rw [List.append_assoc, List.singleton_append]⟩
  have hdist : rstripSlash repo.upstream ++ ['/'] <+: Apt.distUrl repo := by
    simpa [Apt.distUrl] using prefix_of_slash repo.upstream _
  unfold indexBases at hbase
  cases htype : repo.type <;> rw [htype] at hbase <;>
    simp only [List.mem_cons, List.not_mem_nil, or_false] at hbase
  case apt =>
    rcases hbase with rfl | rfl
    · exact hdist
    · exact hdist.trans (List.prefix_append _ _)
  case pacman => simpa [hbase, Pacman.indexUrl] using prefix_of_slash repo.upstream _
  case apk => simpa [hbase, Apk.indexUrl] using prefix_of_slash repo.upstream _
  case dnf => exact hbase ▸ hrstrip []
  case aptRpm =>
    rcases hbase with rfl | rfl
    · exact hrstrip "base/".toList
    · exact (hrstrip "base/pkglist.".toList).trans (List.prefix_append _ _)
  case xbps => simp [hbase, Xbps.indexUrl]
  case gentoo => exact hbase ▸ hrstrip "Packages".toList
  case slackware =>
    rcases hbase with rfl | rfl
    · exact hrstrip []
    · exact hrstrip (Slackware.indexPath repo)

/-- **A fetch is confined to its bases**: whatever an index, a release or a signed document says, every URL that is asked
goes on from a base without dot segments, and the bases are below the configured upstream.  An evaluated catalog asks for
none. -/
theorem fetch_confined (lib : Library) (up : Upstream) (host : Host) (repo : RepoFields) :
    fetchSnapshot lib (up.within repo) host repo = fetchSnapshot lib up host repo ∧
      ∀ base ∈ indexBases repo, rstripSlash repo.upstream ++ ['/'] <+: base :=
  ⟨fetchSnapshot_local (fun _ hbase => agreeUnder_within hbase) (fun _ => rfl), fun _ => prefix_of_mem_indexBases⟩

end

/-! ## Where the validators come from -/

/-- The catalog is that of a snapshot that was fetched after a head with these validators, under this identity, by a check
that began under one of the configurations `began`. -/
def Origin (lib : Library) (sha256 : Bytes → Str) (worlds : Nat → World) (began : RepoFields → Prop) (clock : Nat)
    (repoId identity : Str)
    (validators : Option Str × Option Str) (catalog : Str → Option PackageRow) : Prop :=
  ∃ (c : IndexCheck) (first last : Nat) (at_ : Str → Nat) (evaluatedAt : List Str → Nat) (host : Host)
    (snapshot : RepoSnapshot),
    began c.repo ∧ c.repo.id = repoId ∧ c.identity sha256 = identity ∧ first ≤ last ∧ last ≤ clock ∧
    ((c.headAt worlds first).etag, (c.headAt worlds first).lastModified) = validators ∧
    fetchSnapshot lib (readBetween worlds first last at_ evaluatedAt) host c.repo = .ok snapshot ∧
    catalog = fun key => (snapshot.packages.lookup key).map (snapshot.row key)

/-- What holds of a check under way. -/
structure IndexCheck.Sound (lib : Library) (sha256 : Bytes → Str) (worlds : Nat → World) (began : RepoFields → Prop)
    (clock : Nat) (c : IndexCheck) : Prop where
  repo : began c.repo
  read : c.prev.1.isSome ∨ c.prev.2.isSome → Origin lib sha256 worlds began clock c.repo.id (c.identity sha256) c.prev c.catalog
  headed : ∀ head time, c.phase = .headed head time → time ≤ clock ∧ c.headAt worlds time = head
  fetched : ∀ head time snapshot, c.phase = .fetched head time snapshot → c.headAt worlds time = head ∧
    ∃ last at_ evaluatedAt host, time ≤ last ∧ last ≤ clock ∧
      fetchSnapshot lib (readBetween worlds time last at_ evaluatedAt) host c.repo = .ok snapshot

/-- What holds of a database: every catalog with an identity has the validators of its origin. -/
def StoredSound (lib : Library) (sha256 : Bytes → Str) (worlds : Nat → World) (began : RepoFields → Prop) (clock : Nat)
    (db : Database) : Prop :=
  ∀ repoId row identity, db.repoState.get repoId = some row → row.sourceIdentity = some identity →
    Origin lib sha256 worlds began clock repoId identity (row.indexEtag, row.indexLastModified) (db.catalog repoId)

section
variable {lib : Library} {sha256 : Bytes → Str} {worlds : Nat → World} {began : RepoFields → Prop} {clock clock' : Nat}
  {db db' : Database}

theorem Origin.mono {repoId identity : Str} {validators : Option Str × Option Str} {catalog : Str → Option PackageRow}
    (h : Origin lib sha256 worlds began clock repoId identity validators catalog) (hle : clock ≤ clock') :
    Origin lib sha256 worlds began clock' repoId identity validators catalog := by
  obtain ⟨c, first, last, at_, evaluatedAt, host, snapshot, hbegan, hid, hidentity, hfirst, hlast, hrest⟩ := h
  exact ⟨c, first, last, at_, evaluatedAt, host, snapshot, hbegan, hid, hidentity, hfirst, hlast.trans hle, hrest⟩

theorem IndexCheck.Sound.mono {c : IndexCheck} (h : c.Sound lib sha256 worlds began clock) (hle : clock ≤ clock') :
    c.Sound lib sha256 worlds began clock' where
  repo := h.repo
  read hprev := (h.read hprev).mono hle
  headed head time hphase := ⟨(h.headed head time hphase).1.trans hle, (h.headed head time hphase).2⟩
  fetched head time snapshot hphase := by
    obtain ⟨hhead, last, at_, evaluatedAt, host, htime, hlast, hfetch⟩ := h.fetched head time snapshot hphase
    exact ⟨hhead, last, at_, evaluatedAt, host, htime, hlast.trans hle, hfetch⟩

theorem repoId_of_fetchSnapshot {up : Upstream} {host : Host} {repo : RepoFields} {snapshot : RepoSnapshot}
    (h : fetchSnapshot lib up host repo = .ok snapshot) : snapshot.repoId = repo.id := by
  obtain ⟨packages, -, hsnapshot⟩ := bind_eq_ok.1 h
  rw [← Except.ok.inj hsnapshot]
  rfl

/-- A check that has fetched its snapshot has its validators from before the fetch. -/
theorem IndexCheck.Sound.origin {c : IndexCheck} (h : c.Sound lib sha256 worlds began clock) {head : IndexHeadResult} {time : Nat}
    {snapshot : RepoSnapshot} (hphase : c.phase = .fetched head time snapshot) :
    Origin lib sha256 worlds began clock snapshot.repoId (c.identity sha256) (head.etag, head.lastModified)
      fun key => (snapshot.packages.lookup key).map (snapshot.row key) := by
  obtain ⟨hhead, last, at_, evaluatedAt, host, htime, hlast, hfetch⟩ := h.fetched head time snapshot hphase
  refine ⟨c, time, last, at_, evaluatedAt, host, snapshot, h.repo, ?_, rfl, htime, hlast, ?_, hfetch, rfl⟩
  · rw [repoId_of_fetchSnapshot hfetch]
  · rw [hhead]

/-- What a writer leaves of the validators and the catalogs that have an identity. -/
def KeepsMeta (db db' : Database) : Prop :=
  ∀ repoId row' identity, db'.repoState.get repoId = some row' → row'.sourceIdentity = some identity →
    ∃ row, db.repoState.get repoId = some row ∧ row.sourceIdentity = some identity ∧ row.indexEtag = row'.indexEtag ∧
      row.indexLastModified = row'.indexLastModified ∧ db'.catalog repoId = db.catalog repoId

theorem StoredSound.keep (h : StoredSound lib sha256 worlds began clock db) (hkeep : KeepsMeta db db') :
    StoredSound lib sha256 worlds began clock db' := by
  intro repoId row' identity hrow' hidentity'
  obtain ⟨row, hrow, hidentity, hetag, hmodified, hcatalog⟩ := hkeep repoId row' identity hrow' hidentity'
  rw [← hetag, ← hmodified, hcatalog]
  exact h repoId row identity hrow hidentity

theorem keepsMeta_recordKeyExpiry (repoId : Str) (expiresAt : Option Str) (isKnown : Option Bool) :
    KeepsMeta db (db.recordKeyExpiry repoId expiresAt isKnown) := by
  intro r row' identity hrow' hidentity'
  unfold Database.recordKeyExpiry at hrow'
  dsimp only at hrow'
  rw [Table.get_upsert] at hrow'
  cases hst : db.repoState.get repoId with
  | none =>
    rw [hst] at hrow'
    dsimp only at hrow'
    split at hrow'
    · cases hrow'
      cases hidentity'
    · exact ⟨row', hrow', hidentity', rfl, rfl, rfl⟩
  | some state =>
    have hid : state.repoId = repoId := Table.key_of_get hst
    rw [hst] at hrow'
    dsimp only at hrow'
    split at hrow'
    · rename_i hr
      cases hrow'
      exact ⟨state, by rw [hr, hid, hst], hidentity', rfl, rfl, rfl⟩
    · exact ⟨row', hrow', hidentity', rfl, rfl, rfl⟩

theorem keepsMeta_touchLastCheck (repoId now : Str) : KeepsMeta db (db.touchLastCheck repoId now) := by
  intro r row' identity hrow' hidentity'
  unfold Database.touchLastCheck at hrow' ⊢
  cases hst : db.repoState.get repoId with
  | none =>
    rw [hst] at hrow'
    exact ⟨row', hrow', hidentity', rfl, rfl, rfl⟩
  | some state =>
    have hid : state.repoId = repoId := Table.key_of_get hst
    rw [hst] at hrow'
    dsimp only at hrow'
    rw [Table.get_upsert] at hrow'
    split at hrow'
    · rename_i hr
      cases hrow'
      exact ⟨state, by rw [hr, hid, hst], hidentity', rfl, rfl, rfl⟩
    · exact ⟨row', hrow', hidentity', rfl, rfl, rfl⟩

theorem keepsMeta_deleteRepoRows (repoId : Str) : KeepsMeta db (db.deleteRepoRows repoId) := by
  intro r row' identity hrow' hidentity'
  rw [Database.get_repoState_deleteRepoRows] at hrow'
  split at hrow'
  · cases hrow'
  · rename_i hr
    refine ⟨row', hrow', hidentity', rfl, rfl, funext fun key => ?_⟩
    exact (Database.get_repoPackages_deleteRepoRows db repoId r key).trans (if_neg hr)

theorem keepsMeta_purgeOrphanedRepos (active repoIds : List Str) : KeepsMeta db (db.purgeOrphanedRepos active repoIds) := by
  intro r row' identity hrow' hidentity'
  rw [(Database.get_purgeOrphanedRepos active r [] repoIds db).1] at hrow'
  split at hrow'
  · cases hrow'
  · rename_i hr
    refine ⟨row', hrow', hidentity', rfl, rfl, funext fun key => ?_⟩
    exact (Database.get_purgeOrphanedRepos active r key repoIds db).2.trans (if_neg hr)

/-- **A snapshot brings its own validators**: those of the head that its check read first. -/
theorem storedSound_recordSnapshot {snapshot : RepoSnapshot} {m : CheckMeta} {uuid : Str → Str} {identity : Str}
    (h : StoredSound lib sha256 worlds began clock db) (hidentity : m.sourceIdentity = some identity)
    (horigin : Origin lib sha256 worlds began clock snapshot.repoId identity (m.indexEtag, m.indexLastModified)
      fun key => (snapshot.packages.lookup key).map (snapshot.row key)) :
    StoredSound lib sha256 worlds began clock (db.recordSnapshot snapshot m uuid).1 := by
  intro r row' identity' hrow' hidentity'
  rw [Database.get_repoState_recordSnapshot] at hrow'
  by_cases hr : r = snapshot.repoId
  · subst hr
    rw [if_pos rfl] at hrow'
    obtain ⟨hi, he, hm⟩ : row'.sourceIdentity = m.sourceIdentity ∧ row'.indexEtag = m.indexEtag ∧
        row'.indexLastModified = m.indexLastModified := by
      cases hrow'
      unfold Database.snapshotState
      cases db.repoState.get snapshot.repoId <;> exact ⟨rfl, rfl, rfl⟩
    have hcatalog : (db.recordSnapshot snapshot m uuid).1.catalog snapshot.repoId =
        fun key => (snapshot.packages.lookup key).map (snapshot.row key) :=
      funext fun key => (Database.get_repoPackages_recordSnapshot _ _ _ _ _ _).trans (if_pos rfl)
    obtain rfl : identity = identity' := Option.some.inj (by rw [← hidentity, ← hi, hidentity'])
    rw [hcatalog, he, hm]
    exact horigin
  · rw [if_neg hr] at hrow'
    have hcatalog : (db.recordSnapshot snapshot m uuid).1.catalog r = db.catalog r :=
      funext fun key => (Database.get_repoPackages_recordSnapshot _ _ _ _ _ _).trans (if_neg hr)
    rw [hcatalog]
    exact h r row' identity' hrow' hidentity'

end

namespace CheckSystem

/-- What holds in every state that is reached. -/
structure Sound (lib : Library) (sha256 : Bytes → Str) (worlds : Nat → World) (began : RepoFields → Prop) (s : CheckSystem) :
    Prop where
  stored : StoredSound lib sha256 worlds began s.clock s.db
  checks : ∀ c ∈ s.checks, c.Sound lib sha256 worlds began s.clock

variable {lib : Library} {sha256 : Bytes → Str} {worlds : Nat → World} {began : RepoFields → Prop} {s s' : CheckSystem}
  {a : CheckAction}
  {actions : List CheckAction}

theorem sound_initial : Sound lib sha256 worlds began initial :=
  ⟨(fun repoId row identity hrow => by cases hrow), (fun c hc => by cases hc)⟩

theorem prev_startCheck (s : CheckSystem) (repo : RepoFields) :
    (s.startCheck sha256 repo).prev = s.db.getIndexMeta repo.id (some (catalogIdentity sha256 repo)) := rfl

/-- A check that begins reads validators only of a catalog under its own identity. -/
theorem sound_startCheck (h : Sound lib sha256 worlds began s) {repo : RepoFields} (hbegan : began repo) :
    (s.startCheck sha256 repo).Sound lib sha256 worlds began s.clock := by
  refine ⟨hbegan, fun hprev => ?_, (fun _ _ hphase => by cases hphase), (fun _ _ _ hphase => by cases hphase)⟩
  unfold startCheck at hprev ⊢
  dsimp only at hprev ⊢
  unfold Database.getIndexMeta at hprev ⊢
  cases hrow : s.db.repoState.get repo.id with
  | none => simp [hrow] at hprev
  | some row =>
    rw [hrow] at hprev
    dsimp only at hprev ⊢
    by_cases hid : row.sourceIdentity = some (catalogIdentity sha256 repo)
    · rw [if_neg (by simp [hid])]
      exact h.stored repo.id row _ hrow hid
    · rw [if_pos (by simp [hid])] at hprev
      simp at hprev

theorem sound_step (h : Sound lib sha256 worlds began s) (hbegan : ∀ repo, a = .start repo → began repo)
    (hs : step lib sha256 worlds s a = some s') :
    Sound lib sha256 worlds began s' := by
  cases a with
  | tick =>
    cases hs
    refine ⟨fun repoId row identity hrow hid => (h.stored repoId row identity hrow hid).mono (Nat.le_succ _), ?_⟩
    exact fun c hc => (h.checks c hc).mono (Nat.le_succ _)
  | start repo =>
    cases hs
    refine ⟨h.stored, fun c hc => ?_⟩
    rcases List.mem_append.1 hc with hc | hc
    · exact h.checks c hc
    · rw [List.mem_singleton.1 hc]
      exact sound_startCheck h (hbegan repo rfl)
  | head i now =>
    simp only [step] at hs
    split at hs
    · rename_i repo prev catalog hcheck
      have hsound := h.checks _ (List.mem_of_getElem? hcheck)
      split at hs
      · cases hs
        exact ⟨h.stored.keep (keepsMeta_touchLastCheck repo.id now), fun c hc => h.checks c (List.mem_of_mem_eraseIdx hc)⟩
      · cases hs
        refine ⟨h.stored, fun c hc => ?_⟩
        rcases List.mem_or_eq_of_mem_set hc with hc | rfl
        · exact h.checks c hc
        · refine ⟨hsound.repo, hsound.read, fun head time hphase => ?_, (fun _ _ _ hphase => by cases hphase)⟩
          cases hphase
          exact ⟨Nat.le_refl _, rfl⟩
    · cases hs
  | fetch i host at_ evaluatedAt =>
    simp only [step] at hs
    split at hs
    · rename_i repo prev catalog head time hcheck
      have hsound := h.checks _ (List.mem_of_getElem? hcheck)
      split at hs
      · cases hs
        exact ⟨h.stored, fun c hc => h.checks c (List.mem_of_mem_eraseIdx hc)⟩
      · rename_i snapshot hfetch
        cases hs
        refine ⟨h.stored, fun c hc => ?_⟩
        rcases List.mem_or_eq_of_mem_set hc with hc | rfl
        · exact h.checks c hc
        · obtain ⟨htime, hhead⟩ := hsound.headed head time rfl
          refine ⟨hsound.repo, hsound.read, (fun _ _ hphase => by cases hphase), fun head' time' snapshot' hphase => ?_⟩
          cases hphase
          exact ⟨hhead, s.clock, at_, evaluatedAt, host, htime, Nat.le_refl _, hfetch⟩
    · cases hs
  | record i now uuid =>
    simp only [step] at hs
    split at hs
    · rename_i repo prev catalog head time snapshot hcheck
      have hsound := h.checks _ (List.mem_of_getElem? hcheck)
      cases hs
      refine ⟨storedSound_recordSnapshot h.stored rfl (hsound.origin rfl), fun c hc => ?_⟩
      exact h.checks c (List.mem_of_mem_eraseIdx hc)
    · cases hs
  | store op =>
    cases op with
    | recordSnapshot snapshot m uuid => cases hs
    | recordKeyExpiry repoId expiresAt isKnown =>
      cases hs
      exact ⟨h.stored.keep (keepsMeta_recordKeyExpiry repoId expiresAt isKnown), h.checks⟩
    | touchLastCheck repoId now =>
      cases hs
      exact ⟨h.stored.keep (keepsMeta_touchLastCheck repoId now), h.checks⟩
    | deleteRepoRows repoId =>
      cases hs
      exact ⟨h.stored.keep (keepsMeta_deleteRepoRows repoId), h.checks⟩
    | purgeOrphanedRepos active repoIds =>
      cases hs
      exact ⟨h.stored.keep (keepsMeta_purgeOrphanedRepos active repoIds), h.checks⟩
  | write events pending warmed artifacts =>
    cases hs
    exact ⟨fun repoId row identity hrow hid => h.stored repoId row identity hrow hid, h.checks⟩

/-- What a run has begun: the configurations of its checks. -/
def Began (actions : List CheckAction) (repo : RepoFields) : Prop := .start repo ∈ actions

theorem sound (h : Runs lib sha256 worlds initial actions s) (hbegan : ∀ repo, Began actions repo → began repo) :
    Sound lib sha256 worlds began s := by
  induction h with
  | nil => exact sound_initial
  | snoc _ hs ih =>
    refine sound_step (ih fun repo hrepo => hbegan repo (List.mem_append_left _ hrepo)) (fun repo ha => hbegan repo ?_) hs
    exact List.mem_append_right _ (List.mem_singleton.2 ha.symm)

end CheckSystem

/-! ## Validators that can be trusted -/

/-- The head tells nothing new for these validators. -/
def HeadHolds (serve : HeadServer) (etag lastModified : Option Str) : Prop :=
  ∃ head, checkIndexChanged serve etag lastModified = .ok head ∧ head.unchanged = true

def World.headOf (w : World) (repo : RepoFields) : HeadServer := w.head ((indexUrl repo).getD [])

/-- While the validators of a head hold, what is served under the bases of the index is what it was. -/
def HeadsTruthful (worlds : Nat → World) : Prop :=
  ∀ repo first now u etag lastModified head, first ≤ u → u ≤ now →
    checkIndexChanged ((worlds first).headOf repo) etag lastModified = .ok head →
    HeadHolds ((worlds now).headOf repo) (header head.etag) (header head.lastModified) →
    ∀ base ∈ indexBases repo, AgreeUnder base (worlds u).upstream (worlds now).upstream

@[simp] theorem header_header (v : Option Str) : header (header v) = header v := by
  cases v with
  | none => rfl
  | some v => by_cases hv : v = [] <;> simp [header, Option.filter, hv]

@[simp] theorem known_header (v : Option Str) : known (header v) = known v := by
  cases v with
  | none => rfl
  | some v => by_cases hv : v = [] <;> simp [header, known, Option.filter, hv]

theorem header_of_known {v : Option Str} (h : known v = true) : header v = v := by
  cases v with
  | none => rfl
  | some v =>
    have hv : v ≠ [] := by simpa [known] using h
    simp [header, Option.filter, hv]

/-- An empty validator is no validator. -/
theorem HeadHolds.header {serve : HeadServer} {etag lastModified : Option Str} (h : HeadHolds serve etag lastModified) :
    HeadHolds serve (header etag) (header lastModified) := by
  obtain ⟨head, hhead, hunchanged⟩ := h
  unfold HeadHolds checkIndexChanged at *
  rw [header_header, header_header]
  cases hreply : serve (RepoWatch.header etag) (RepoWatch.header lastModified) with
  | failed => rw [hreply] at hhead; cases hhead
  | refused status => rw [hreply] at hhead; cases hhead
  | notModified => exact ⟨_, rfl, rfl⟩
  | found newEtag newModified =>
    rw [hreply] at hhead
    refine ⟨_, rfl, ?_⟩
    cases hhead
    dsimp only at hunchanged ⊢
    rw [known_header, known_header]
    simp only [Bool.or_eq_true, Bool.and_eq_true] at hunchanged ⊢
    rcases hunchanged with ⟨⟨hknown, hnew⟩, heq⟩ | ⟨⟨⟨hmissing, hknown⟩, hnew⟩, heq⟩
    · exact .inl ⟨⟨hknown, hnew⟩, by rwa [header_of_known hknown]⟩
    · exact .inr ⟨⟨⟨hmissing, hknown⟩, hnew⟩, by rwa [header_of_known hknown]⟩

namespace Apt

theorem unprefixed_prefixed (v : Option Str) : unprefixed (prefixed v) = header v := by
  unfold prefixed
  cases header v with
  | none => rfl
  | some v => simp [unprefixed, startsWith]

end Apt

/-- What the parser for the type sends of a stored validator. -/
def sentValidator (repo : RepoFields) (v : Option Str) : Option Str := if repo.type = .apt then Apt.unprefixed v else v

/-- What the parser for the type stores of a validator. -/
def keptValidator (repo : RepoFields) (v : Option Str) : Option Str := if repo.type = .apt then Apt.prefixed v else v

theorem header_sentValidator {a b : RepoFields} (htype : a.type = b.type) (v : Option Str) :
    header (sentValidator b (keptValidator a v)) = header v := by
  unfold sentValidator keptValidator
  rw [htype]
  by_cases hapt : b.type = .apt <;> simp [hapt, Apt.unprefixed_prefixed]

/-- A head is one of the plain parser, or it says nothing. -/
theorem indexHead_cases (repo : RepoFields) (serve : HeadServer) (prev : Option Str × Option Str) :
    indexHead repo serve prev = ⟨false, none, none⟩ ∨
      ∃ head, checkIndexChanged serve (sentValidator repo prev.1) (sentValidator repo prev.2) = .ok head ∧
        (indexHead repo serve prev).etag = keptValidator repo head.etag ∧
        (indexHead repo serve prev).lastModified = keptValidator repo head.lastModified ∧
        ((indexHead repo serve prev).unchanged = true → head.unchanged = true) := by
  by_cases hnix : repo.type = .nix
  · exact .inl (by simp [indexHead, hnix])
  by_cases hapt : repo.type = .apt
  · have hhead : indexHead repo serve prev = match Apt.checkIndexChanged repo.verifySignature serve prev.1 prev.2 with
      | .ok head => head
      | .error _ => ⟨false, none, none⟩ := by simp only [indexHead, hapt]
    rw [hhead]
    unfold Apt.checkIndexChanged
    simp only [sentValidator, keptValidator, hapt, if_true]
    cases hbase : checkIndexChanged serve (Apt.unprefixed prev.1) (Apt.unprefixed prev.2) with
    | ok head => exact .inr ⟨head, rfl, rfl, rfl, fun h => (Bool.and_eq_true _ _ ▸ h).1⟩
    | error e =>
      left
      cases e <;> try rfl
      dsimp only
      split_ifs <;> rfl
  · have hhead : indexHead repo serve prev = match checkIndexChanged serve prev.1 prev.2 with
      | .ok head => head
      | .error _ => ⟨false, none, none⟩ := by
      unfold indexHead
      cases htype : repo.type <;> simp_all
    rw [hhead]
    simp only [sentValidator, keptValidator, hapt, if_false]
    cases checkIndexChanged serve prev.1 prev.2 with
    | ok head => exact .inr ⟨head, rfl, rfl, rfl, id⟩
    | error e => exact .inl rfl

/-- What is served since the head that a validator comes from, when a later head holds for it. -/
theorem agreeUnder_of_heads {worlds : Nat → World} (htruthful : HeadsTruthful worlds) {a b : RepoFields}
    (hsame : SameCatalog a b) {first now u : Nat} {prev validators : Option Str × Option Str}
    (hvalidators : ((indexHead a ((worlds first).headOf a) prev).etag,
      (indexHead a ((worlds first).headOf a) prev).lastModified) = validators)
    (hsome : validators.1.isSome ∨ validators.2.isSome)
    (hholds : (indexHead b ((worlds now).headOf b) validators).unchanged = true) (hfirst : first ≤ u) (hnow : u ≤ now) :
    ∀ base ∈ indexBases a, AgreeUnder base (worlds u).upstream (worlds now).upstream := by
  have hserve : ∀ w : World, w.headOf b = w.headOf a := fun w => by rw [World.headOf, World.headOf, hsame.indexUrl_eq]
  rw [hserve] at hholds
  subst hvalidators
  rcases indexHead_cases a ((worlds first).headOf a) prev with hnone | ⟨head, hhead, hetag, hmodified, -⟩
  · simp [hnone] at hsome
  refine htruthful a first now u _ _ head hfirst hnow hhead ?_
  rcases indexHead_cases b ((worlds now).headOf a) ((indexHead a ((worlds first).headOf a) prev).etag,
    (indexHead a ((worlds first).headOf a) prev).lastModified) with hnone | ⟨later, hlater, -, -, hunchanged⟩
  · rw [hnone] at hholds
    cases hholds
  have hlast : HeadHolds ((worlds now).headOf a) _ _ := ⟨later, hlater, hunchanged hholds⟩
  have := hlast.header
  rwa [hetag, hmodified, header_sentValidator hsame.type, header_sentValidator hsame.type] at this

/-! ## A check that skips -/

section
variable {lib : Library} {sha256 : Bytes → Str} {worlds : Nat → World} {began : RepoFields → Prop} {clock : Nat}

/-- The packages that a snapshot records. -/
def RepoSnapshot.rowOf (snapshot : RepoSnapshot) (key : Str) : Option PackageRow :=
  (snapshot.packages.lookup key).map (snapshot.row key)

/-- What a check skips is what it has the origin of. -/
theorem Origin.lossless (hgzip : Apk.GzipAgrees lib) (hsha256 : Function.Injective sha256) (htruthful : HeadsTruthful worlds)
    {c : IndexCheck} {catalog : Str → Option PackageRow}
    (h : Origin lib sha256 worlds began clock c.repo.id (c.identity sha256) c.prev catalog)
    (hsome : c.prev.1.isSome ∨ c.prev.2.isSome) (hhead : (c.headAt worlds clock).unchanged = true)
    (hplain : ∀ repo, began repo → SameCatalog repo c.repo → PlainSignatures lib (worlds clock).upstream repo c.repo)
    {host : Host} {snapshot : RepoSnapshot} (hfetch : fetchSnapshot lib (worlds clock).upstream host c.repo = .ok snapshot) :
    catalog = snapshot.rowOf := by
  obtain ⟨a, first, last, at_, evaluatedAt, host', recorded, hbegan, hid, hidentity, hfirst, hlast, hvalidators, hrecorded,
    rfl⟩ := h
  have hsame : SameCatalog a.repo c.repo := sameCatalog_of_identity hsha256 hid hidentity
  have hagree : ∀ u, first ≤ u → u ≤ clock →
      ∀ base ∈ indexBases a.repo, AgreeUnder base (worlds u).upstream (worlds clock).upstream := fun u hu hu' =>
    agreeUnder_of_heads htruthful hsame hvalidators hsome hhead hu hu'
  have hnix : a.repo.type ≠ .nix := by
    intro hnix
    rw [← hvalidators] at hsome
    simp [IndexCheck.headAt, indexHead, hnix] at hsome
  -- every answer that the recorded fetch has read is the answer of now
  have hread : fetchSnapshot lib (readBetween worlds first last at_ evaluatedAt) host' a.repo =
      fetchSnapshot lib (worlds clock).upstream host' a.repo :=
    fetchSnapshot_local (fun base hbase rest => hagree _ (by omega) (by omega) base hbase rest) (fun h => absurd h hnix)
  rw [hread] at hrecorded
  rw [hsame.fetchSnapshot_agree hgzip (hplain a.repo hbegan hsame) hrecorded hfetch]
  rfl

namespace CheckSystem

/-- **A skipped download loses nothing**: whatever checks, deletions and other writers have run, a check that skips has read
its validators beside the catalog that a fetch under its own configuration would record now, and so has the database while
the validators are still those.  For apk that takes a plain signature where verification was switched in between. -/
theorem skip_lossless (hgzip : Apk.GzipAgrees lib) (hsha256 : Function.Injective sha256) (htruthful : HeadsTruthful worlds)
    {actions : List CheckAction} {s : CheckSystem} (hrun : Runs lib sha256 worlds initial actions s) {c : IndexCheck}
    (hc : c ∈ s.checks) (hskips : c.skips worlds s.db s.clock = true)
    (hplain : ∀ repo, Began actions repo → SameCatalog repo c.repo →
      PlainSignatures lib (worlds s.clock).upstream repo c.repo)
    {host : Host} {snapshot : RepoSnapshot}
    (hfetch : fetchSnapshot lib (worlds s.clock).upstream host c.repo = .ok snapshot) :
    c.catalog = snapshot.rowOf ∧
      (s.db.getIndexMeta c.repo.id (some (c.identity sha256)) = c.prev → s.db.catalog c.repo.id = snapshot.rowOf) := by
  have hsound := sound hrun (fun _ hrepo => hrepo)
  simp only [IndexCheck.skips, Bool.and_eq_true, Bool.or_eq_true] at hskips
  obtain ⟨⟨⟨hhead, -⟩, hsome⟩, -⟩ := hskips
  refine ⟨((hsound.checks c hc).read hsome).lossless hgzip hsha256 htruthful hsome hhead hplain hfetch, fun hmeta => ?_⟩
  have hstored : (s.startCheck sha256 c.repo).Sound lib sha256 worlds (Began actions) s.clock :=
    sound_startCheck hsound (hsound.checks c hc).repo
  have hprev : (s.startCheck sha256 c.repo).prev = c.prev := hmeta
  have horigin := hstored.read (by rwa [hprev])
  rw [hprev] at horigin
  exact horigin.lossless hgzip hsha256 htruthful hsome hhead hplain hfetch

theorem getIndexMeta_recordSnapshot (db : Database) (uuid : Str → Str) {snapshot : RepoSnapshot} {m : CheckMeta}
    {repoId : Str} {identity : Option Str} (hid : snapshot.repoId = repoId) (hidentity : m.sourceIdentity = identity) :
    (db.recordSnapshot snapshot m uuid).1.getIndexMeta repoId identity = (m.indexEtag, m.indexLastModified) := by
  subst hid hidentity
  unfold Database.getIndexMeta
  rw [Database.get_repoState_recordSnapshot, if_pos rfl]
  unfold Database.snapshotState
  cases db.repoState.get snapshot.repoId <;> simp

theorem hasSnapshot_recordSnapshot (db : Database) (uuid : Str → Str) {snapshot : RepoSnapshot} {m : CheckMeta}
    {repoId : Str} (hid : snapshot.repoId = repoId) (hnow : m.now ≠ []) :
    (db.recordSnapshot snapshot m uuid).1.hasSnapshot repoId = true := by
  subst hid
  unfold Database.hasSnapshot
  rw [Database.get_repoState_recordSnapshot, if_pos rfl]
  unfold Database.snapshotState
  cases db.repoState.get snapshot.repoId <;> simp [hnow]

end CheckSystem

/-- An index that does not change, under one `ETag`. -/
def demoWorlds (_ : Nat) : World where
  upstream := demoUpstream demoCut
  head _ etag _ := if etag = some ['v'] then .notModified else .found (some ['v']) none

/-- A check under verification records the index; then verification is switched off, and another check begins. -/
def demoActions : List CheckAction :=
  ((((([] ++ [.start (demoRepo true).toRepoFields]) ++ [.head 0 ['1']]) ++ [.fetch 0 demoHost (fun _ => 0) (fun _ => 0)]) ++
    [.record 0 ['2'] id]) ++ [.start (demoRepo false).toRepoFields])

theorem headsTruthful_demoWorlds : HeadsTruthful demoWorlds := fun _ _ _ _ _ _ _ _ _ _ _ _ _ _ _ => rfl

/-- The second check skips. -/
theorem skip_lossless_demo :
    ∃ s c, CheckSystem.Runs demoLibrary demoSha256 demoWorlds .initial demoActions s ∧ c ∈ s.checks ∧
      c.skips demoWorlds s.db s.clock = true ∧ c.catalog = (fetch "alpine".toList demoPackages).rowOf := by
  have hfetch := fetchSnapshot_demoCut true
  let verified := (demoRepo true).toRepoFields
  let repo := (demoRepo false).toRepoFields
  let m : CheckMeta := ⟨['2'], some ['v'], none, some (catalogIdentity demoSha256 repo)⟩
  let db := (Database.empty.recordSnapshot (fetch "alpine".toList demoPackages) m id).1
  let s : CheckSystem := ⟨db, 0, []⟩
  have hread : CheckSystem.step demoLibrary demoSha256 demoWorlds
      ⟨.empty, 0, [⟨verified, (none, none), Database.empty.catalog verified.id, .headed ⟨false, some ['v'], none⟩ 0⟩]⟩
      (.fetch 0 demoHost (fun _ => 0) (fun _ => 0)) =
        some ⟨.empty, 0, [⟨verified, (none, none), Database.empty.catalog verified.id,
          .fetched ⟨false, some ['v'], none⟩ 0 (fetch "alpine".toList demoPackages)⟩]⟩ := by
    have hbetween : readBetween demoWorlds 0 0 (fun _ => 0) (fun _ => 0) = demoUpstream demoCut := rfl
    simp only [CheckSystem.step, List.getElem?_cons_zero, hbetween]
    rw [hfetch]
    rfl
  have hrun : CheckSystem.Runs demoLibrary demoSha256 demoWorlds .initial demoActions
      { s with checks := [s.startCheck demoSha256 repo] } :=
    .snoc (.snoc (.snoc (.snoc (.snoc (.nil _) rfl) rfl) hread) rfl) rfl
  have hid : (fetch "alpine".toList demoPackages).repoId = repo.id := rfl
  have hidentity : m.sourceIdentity = some (catalogIdentity demoSha256 repo) := rfl
  have hmeta := CheckSystem.getIndexMeta_recordSnapshot .empty id hid hidentity
  have hprev : (s.startCheck demoSha256 repo).prev = (some ['v'], none) := (CheckSystem.prev_startCheck s repo).trans hmeta
  have hskips : (s.startCheck demoSha256 repo).skips demoWorlds db 0 = true := by
    have hnow : m.now ≠ [] := List.cons_ne_nil _ _
    have hsnapshot := CheckSystem.hasSnapshot_recordSnapshot .empty id hid hnow
    unfold IndexCheck.skips IndexCheck.headAt
    rw [hprev]
    simp only [Bool.and_eq_true]
    exact ⟨⟨⟨rfl, rfl⟩, rfl⟩, hsnapshot⟩
  have hplain : ∀ began, CheckSystem.Began demoActions began → SameCatalog began repo →
      PlainSignatures demoLibrary (demoWorlds 0).upstream began repo := by
    intro began hbegan _
    obtain rfl | rfl : began = verified ∨ began = repo := by simpa [CheckSystem.Began, demoActions] using hbegan
    · exact plainSignatures_demoCut
    · exact fun _ hdiffer => absurd rfl hdiffer
  exact ⟨_, _, hrun, List.mem_singleton_self _, hskips, (CheckSystem.skip_lossless gzipAgrees_demoLibrary
    demoSha256_injective headsTruthful_demoWorlds hrun (List.mem_singleton_self _) hskips hplain
    (fetchSnapshot_demoCut false)).1⟩

end

end RepoWatch
