import RepoWatch.CatalogFetch
/-!
# VerifiedFetch — what a signature vouches for

With `verify_signature` a fetch reads its packages from one document that the verifying program has accepted under the keys of
the repository, and from files whose digests stand in it.  So the document decides the packages, whatever else the upstream
sends (`verified_catalog`).
-/
namespace RepoWatch

open Lib Lib.Utf8

/-! ## Settings -/

/-- A value that Python takes for true. -/
def truthy (s : Option Str) : Bool := s.any (· ≠ [])

/-- What `__post_init__` requires of the settings of signatures. -/
def RepoFields.signatureOk (repo : RepoFields) : Bool :=
  ["openssl", "apk-tools"].any (fun backend => repo.apkSignatureBackend = backend.toList) &&
    (!repo.verifySignature || match repo.type with
      | .gentoo => false
      | .xbps => false
      | .nix => decide (repo.nixPublicKeys ≠ [])
      | .apk => truthy repo.apkKeysDir
      | _ => truthy repo.keyringPath)

/-! ## The signed document -/

section
variable (lib : Library) (up : Upstream) (host : Host) (repo : RepoFields)

/-- A file with the signature next to it. -/
def detachedDocument (url signatureUrl : Str) : Except FetchError Bytes := do
  let raw ← httpGet up url
  let signature ← httpGet up signatureUrl
  let _ ← verifyDetached host raw signature (keyringOf repo)
  return raw

/-- The document that decides the packages: the body of the InRelease file for apt, and elsewhere the bytes that the signature
is over.  Nix signs files, not catalogs. -/
def signedDocument : Except FetchError Bytes :=
  match repo.type with
  | .apt => do
    let body ← Apt.releaseBody up host repo
    decoded body
  | .pacman => detachedDocument up host repo (Pacman.indexUrl repo) (Pacman.indexUrl repo ++ ".sig".toList)
  | .apk => do
    let raw ← httpGet up (Apk.indexUrl repo)
    Apk.trustedIndex lib host repo raw
  | .dnf => detachedDocument up host repo (RpmMd.indexUrl repo) (RpmMd.indexUrl repo ++ ".asc".toList)
  | .aptRpm => do
    let release ← httpGet up (AptRpm.indexUrl repo)
    AptRpm.releaseBody host release repo.keyringPath
  | .slackware =>
    let checksums := rstripSlash repo.upstream ++ "/CHECKSUMS.md5".toList
    detachedDocument up host repo checksums (checksums ++ ".asc".toList)
  | _ => .error .library

/-- What is read behind a signed document. -/
def readSigned (doc : Bytes) : Except FetchError (List PackageRef) :=
  match repo.type with
  | .apt => do
    let (filename, digest) ← Apt.selectIndex repo (some doc)
    let raw ← Apt.getPackages up (Apt.packagesUrl repo (some doc) filename digest)
      (Apt.distUrl repo ++ Apt.binaryPath repo ++ filename)
    let _ ← Apt.checkDigest lib repo raw filename digest
    Apt.decodePackages lib raw filename
  | .pacman => Pacman.parseDbTarGz lib doc
  | .apk => Apk.parseApkindexTarGz lib doc
  | .dnf => do
    let metadata ← RpmMd.parseRepomd lib doc
    let primary ← httpGet up (rstripSlash repo.upstream ++ '/' :: metadata.href)
    RpmMd.checkedPrimary lib host primary metadata repo.arch
  | .aptRpm => AptRpm.fetchPkglist lib up repo doc
  | .slackware => do
    let raw ← httpGet up (Slackware.indexUrl repo)
    let _ ← Slackware.checkIndex lib raw doc (Slackware.indexPath repo)
    Slackware.parsePackages raw repo.arch
  | _ => .error .library

end

/-! ## Acceptance -/

/-- gpgv has confirmed a signature and found no bad one. -/
def GpgvRun.Confirms (run : GpgvRun) : Prop :=
  ∃ returncode stdout stderr, run = .finished returncode stdout stderr ∧
    (∃ line ∈ splitlines stdout, startsWith line "[GNUPG:] VALIDSIG".toList = true) ∧
    ∀ line ∈ splitlines stdout, startsWith line "[GNUPG:] BADSIG".toList = false

/-- A program has run and accepted. -/
def ToolRun.Accepts (run : ToolRun) : Prop := ∃ stdout stderr, run = .finished 0 stdout stderr

/-- The verifying program has accepted the document under the keys of the repository. -/
def Accepted (lib : Library) (host : Host) (repo : RepoFields) (doc : Bytes) : Prop :=
  match repo.type with
  | .apt => ∃ raw, (host.gpgv (keyringOf repo) none raw).Confirms ∧ extractClearsignedBody raw = .ok doc
  | .apk => ∃ name key, host.apkKey (repo.apkKeysDir.getD []) name = some key ∧
      ((∃ sha1 signature, (host.openssl sha1 key signature doc).Accepts) ∨
        ∃ raw front n, lib.inflate raw n = some ⟨front, some doc⟩ ∧ (host.apkVerify key raw).Accepts)
  | _ => ∃ signature, (host.gpgv (keyringOf repo) (some signature) doc).Confirms

section
variable {lib : Library} {up up' : Upstream} {host host' : Host} {repo : RepoFields} {doc : Bytes} {packages : List PackageRef}

theorem runGpgv_ok {gpgv : Bytes → GpgvRun} {data : Bytes} {signers : List (Str × Str)} (h : runGpgv gpgv data = .ok signers) :
    (gpgv data).Confirms := by
  unfold runGpgv at h
  split at h
  · cases h
  · cases h
  · rename_i returncode stdout stderr hrun
    dsimp only at h
    split at h
    · cases h
    · rename_i hbad
      split at h
      · cases h
      · rename_i hvalid
        refine ⟨returncode, stdout, stderr, hrun, ?_, ?_⟩
        · rw [Bool.not_eq_true', Bool.not_eq_false] at hvalid
          exact List.any_eq_true.1 hvalid
        · intro line hline
          rw [Bool.not_eq_true, List.any_eq_false] at hbad
          exact Bool.not_eq_true _ ▸ hbad line hline

theorem verifyDetached_ok {signature : Bytes} {keyring : Str} {signers : List (Str × Str)}
    (h : verifyDetached host doc signature keyring = .ok signers) : (host.gpgv keyring (some signature) doc).Confirms :=
  runGpgv_ok (raising_eq_ok.1 h)

theorem toolOutput_ok {program : String} {run : ToolRun} {stdout : Str} (h : Apk.toolOutput program run = .ok stdout) :
    run.Accepts := by
  unfold Apk.toolOutput at h
  split at h
  · cases h
  · rename_i returncode stdout' stderr
    split at h
    · cases h
    · rename_i hcode
      obtain rfl : returncode = 0 := not_not.1 hcode
      exact ⟨stdout', stderr, rfl⟩

/-- One of the two backends has accepted. -/
theorem checkSignature_ok {backend : Str} {raw payload key signature : Bytes} {sha1 : Bool}
    (h : Apk.checkSignature host backend raw payload sha1 key signature = .ok ()) :
    (host.openssl sha1 key signature payload).Accepts ∨ (host.apkVerify key raw).Accepts := by
  unfold Apk.checkSignature at h
  split at h
  · obtain ⟨stdout, hrun, -⟩ := bind_eq_ok.1 h
    exact .inl (toolOutput_ok hrun)
  split at h
  · obtain ⟨version, -, h⟩ := bind_eq_ok.1 h
    split at h
    · cases h
    · obtain ⟨number, -, h⟩ := bind_eq_ok.1 h
      split at h
      · cases h
      · obtain ⟨stdout, hrun, -⟩ := bind_eq_ok.1 h
        exact .inr (toolOutput_ok hrun)
  · cases h

theorem verifyIndex_accepted {raw : Bytes} {keysDir backend : Str} (h : Apk.verifyIndex lib host raw keysDir backend = .ok doc) :
    ∃ name key, host.apkKey keysDir name = some key ∧
      ((∃ sha1 signature, (host.openssl sha1 key signature doc).Accepts) ∨
        ∃ raw front n, lib.inflate raw n = some ⟨front, some doc⟩ ∧ (host.apkVerify key raw).Accepts) := by
  unfold Apk.verifyIndex at h
  obtain ⟨⟨front, payload⟩, hfront, h⟩ := bind_eq_ok.1 h
  dsimp only at h
  split at h
  · cases h
  · obtain ⟨⟨back, trailing⟩, -, h⟩ := bind_eq_ok.1 h
    dsimp only at h
    split at h
    · cases h
    · obtain ⟨⟨sha1, name, signature⟩, -, h⟩ := bind_eq_ok.1 h
      dsimp only at h
      split at h
      · cases h
      · rename_i key hkey
        obtain ⟨⟨⟩, hcheck, h⟩ := bind_eq_ok.1 h
        cases h
        refine ⟨name, key, hkey, ?_⟩
        obtain hopenssl | hapk := checkSignature_ok hcheck
        · exact .inl ⟨sha1, signature, hopenssl⟩
        · exact .inr ⟨raw, front, _, Apk.gzipMember_ok hfront, hapk⟩

/-! ## One fetch -/

/-- The packages come from behind an accepted document. -/
def Signed (lib : Library) (up : Upstream) (host : Host) (repo : RepoFields) (packages : List PackageRef) : Prop :=
  ∃ doc, signedDocument lib up host repo = .ok doc ∧ Accepted lib host repo doc ∧
    readSigned lib up host repo doc = .ok packages

theorem detached_signed {url signatureUrl : Str} {raw signature : Bytes} {signers : List (Str × Str)}
    (hraw : httpGet up url = .ok raw) (hsignature : httpGet up signatureUrl = .ok signature)
    (hsigners : verifyDetached host raw signature (keyringOf repo) = .ok signers) :
    detachedDocument up host repo url signatureUrl = .ok raw :=
  bind_eq_ok.2 ⟨raw, hraw, bind_eq_ok.2 ⟨signature, hsignature, bind_eq_ok.2 ⟨signers, hsigners, rfl⟩⟩⟩

section
variable (hverify : repo.verifySignature = true)
include hverify

theorem apt_signed (htype : repo.type = .apt) (h : Apt.fetchPackages lib up host repo = .ok packages) :
    Signed lib up host repo packages := by
  obtain ⟨body, hbody, h⟩ := bind_eq_ok.1 h
  have hrelease := hbody
  unfold Apt.releaseBody at hrelease
  split at hrelease
  · rename_i raw hraw
    obtain ⟨doc, hdoc, hsome⟩ := bind_eq_ok.1 hrelease
    cases hsome
    rw [raising_eq_ok, Apt.extractBody, if_pos hverify] at hdoc
    obtain ⟨signers, hsigners, hextract⟩ := bind_eq_ok.1 hdoc
    refine ⟨doc, ?_, ?_, ?_⟩
    · unfold signedDocument
      rw [htype]
      exact bind_eq_ok.2 ⟨some doc, hbody, rfl⟩
    · unfold Accepted
      rw [htype]
      exact ⟨raw, runGpgv_ok hsigners, hextract⟩
    · unfold readSigned
      rw [htype]
      exact h
  · rw [hverify, Bool.true_or, if_pos rfl] at hrelease
    cases hrelease
  · cases hrelease

theorem pacman_signed (htype : repo.type = .pacman) (h : Pacman.fetchPackages lib up host repo = .ok packages) :
    Signed lib up host repo packages := by
  obtain ⟨raw, hraw, h⟩ := bind_eq_ok.1 h
  obtain ⟨⟨⟩, hcheck, h⟩ := bind_eq_ok.1 h
  rw [Pacman.verify, if_pos hverify] at hcheck
  obtain ⟨signature, hsignature, hcheck⟩ := bind_eq_ok.1 hcheck
  obtain ⟨signers, hsigners, -⟩ := bind_eq_ok.1 hcheck
  unfold Signed signedDocument Accepted readSigned
  rw [htype]
  exact ⟨raw, detached_signed hraw hsignature hsigners, ⟨signature, verifyDetached_ok hsigners⟩, h⟩

theorem apk_signed (htype : repo.type = .apk) (h : Apk.fetchPackages lib host up repo = .ok packages) :
    Signed lib up host repo packages := by
  obtain ⟨raw, hraw, h⟩ := bind_eq_ok.1 h
  obtain ⟨index, hindex, h⟩ := bind_eq_ok.1 h
  have hverified := hindex
  rw [Apk.trustedIndex, if_pos hverify] at hverified
  unfold Signed signedDocument Accepted readSigned
  rw [htype]
  exact ⟨index, bind_eq_ok.2 ⟨raw, hraw, hindex⟩, verifyIndex_accepted hverified, h⟩

theorem dnf_signed (htype : repo.type = .dnf) (h : RpmMd.fetchPackages lib up host repo = .ok packages) :
    Signed lib up host repo packages := by
  obtain ⟨raw, hraw, h⟩ := bind_eq_ok.1 h
  obtain ⟨⟨⟩, hcheck, h⟩ := bind_eq_ok.1 h
  rw [RpmMd.verify, if_pos hverify] at hcheck
  obtain ⟨signature, hsignature, hcheck⟩ := bind_eq_ok.1 hcheck
  obtain ⟨signers, hsigners, -⟩ := bind_eq_ok.1 hcheck
  unfold Signed signedDocument Accepted readSigned
  rw [htype]
  exact ⟨raw, detached_signed hraw hsignature hsigners, ⟨signature, verifyDetached_ok hsigners⟩, h⟩

theorem aptRpm_signed (htype : repo.type = .aptRpm) (hkeyring : truthy repo.keyringPath = true)
    (h : AptRpm.fetchPackages lib up host repo = .ok packages) : Signed lib up host repo packages := by
  obtain ⟨release, hrelease, h⟩ := bind_eq_ok.1 h
  obtain ⟨body, hbody, h⟩ := bind_eq_ok.1 h
  rw [if_pos hverify] at hbody
  have haccepted : ∃ signature, (host.gpgv (keyringOf repo) (some signature) body).Confirms := by
    unfold AptRpm.releaseBody at hbody
    cases hpath : repo.keyringPath with
    | none => simp [truthy, hpath] at hkeyring
    | some keyring =>
      have hne : keyring ≠ [] := by simpa [truthy, hpath] using hkeyring
      simp only [hpath, Option.filter_some, hne, ne_eq, not_false_eq_true, decide_true, if_true] at hbody
      split at hbody
      · cases hbody
      · obtain ⟨signers, hsigners, hbody⟩ := bind_eq_ok.1 hbody
        cases hbody
        rw [keyringOf, hpath]
        exact ⟨_, verifyDetached_ok hsigners⟩
  unfold Signed signedDocument Accepted readSigned
  rw [htype]
  exact ⟨body, bind_eq_ok.2 ⟨release, hrelease, hbody⟩, haccepted, h⟩

theorem slackware_signed (htype : repo.type = .slackware) (h : Slackware.fetchPackages lib host up repo = .ok packages) :
    Signed lib up host repo packages := by
  obtain ⟨raw, hraw, h⟩ := bind_eq_ok.1 h
  obtain ⟨⟨⟩, hcheck, h⟩ := bind_eq_ok.1 h
  rw [Slackware.verify, if_pos hverify] at hcheck
  obtain ⟨checksums, hchecksums, hcheck⟩ := bind_eq_ok.1 hcheck
  obtain ⟨signature, hsignature, hcheck⟩ := bind_eq_ok.1 hcheck
  obtain ⟨signers, hsigners, hcheck⟩ := bind_eq_ok.1 hcheck
  unfold Signed signedDocument Accepted readSigned
  rw [htype]
  refine ⟨checksums, ?_, ⟨signature, verifyDetached_ok hsigners⟩,
    bind_eq_ok.2 ⟨raw, hraw, bind_eq_ok.2 ⟨⟨⟩, hcheck, h⟩⟩⟩
  refine detached_signed hchecksums ?_ hsigners
  rwa [List.append_assoc]

/-- **A verified fetch** reads what it returns behind a signed document that was accepted. -/
theorem fetchPackages_signed (hok : repo.signatureOk = true) (htype : repo.type ≠ .nix)
    (h : fetchPackages lib up host repo = .ok packages) : Signed lib up host repo packages := by
  have hkeys := (Bool.and_eq_true _ _ ▸ hok).2
  rw [hverify, Bool.not_true, Bool.false_or] at hkeys
  unfold fetchPackages at h
  cases hrepo : repo.type <;> rw [hrepo] at h hkeys
  case apt => exact apt_signed hverify hrepo h
  case pacman => exact pacman_signed hverify hrepo h
  case apk => exact apk_signed hverify hrepo h
  case dnf => exact dnf_signed hverify hrepo h
  case aptRpm => exact aptRpm_signed hverify hrepo hkeys h
  case xbps => cases hkeys
  case gentoo => cases hkeys
  case slackware => exact slackware_signed hverify hrepo h
  case nix => exact absurd hrepo htype

end

/-! ## Two upstreams -/

/-- No two files of the upstreams share a digest. -/
def CollisionFree (lib : Library) (up up' : Upstream) : Prop :=
  ∀ algorithm url url' raw raw', up.get url = .body raw → up'.get url' = .body raw' →
    lib.hexdigest algorithm raw = lib.hexdigest algorithm raw' → raw = raw'

theorem getPackages_ok {url directUrl : Str} {raw : Bytes} (h : Apt.getPackages up url directUrl = .ok raw) :
    ∃ url, up.get url = .body raw := by
  unfold Apt.getPackages at h
  split at h
  · rename_i content hget
    cases h
    exact ⟨url, hget⟩
  · split at h
    · cases h
    · exact ⟨directUrl, httpGet_eq_ok.1 h⟩
  · cases h

theorem checkDigest_ok {raw : Bytes} {filename digest : Str} (h : Apt.checkDigest lib repo raw filename (some digest) = .ok ()) :
    lib.hexdigest "sha256".toList raw = digest := by
  unfold Apt.checkDigest at h
  dsimp only at h
  split at h
  · cases h
  · rename_i hdigest
    exact not_not.1 hdigest

theorem verifyBytes_ok {raw : Bytes} {metadata : RpmMd.PrimaryMetadata} (h : RpmMd.verifyBytes lib raw metadata = .ok ()) :
    lib.hexdigest metadata.checksum.1 raw = metadata.checksum.2 := by
  unfold RpmMd.verifyBytes at h
  split at h
  · cases h
  · split at h
    · cases h
    · rename_i hdigest
      exact not_not.1 hdigest

theorem checkPkglist_ok {raw : Bytes} {expected : AptRpm.Expected} (h : AptRpm.checkPkglist lib raw expected = .ok ()) :
    lib.hexdigest expected.algorithm raw = expected.digest := by
  unfold AptRpm.checkPkglist at h
  split at h
  · cases h
  · rename_i hsame
    exact not_not.1 (not_or.1 hsame).2

/-- The list of checksums has one entry for the index, with its digest. -/
theorem checkIndex_ok {raw checksums : Bytes} {indexPath : Str} (h : Slackware.checkIndex lib raw checksums indexPath = .ok ()) :
    ∃ text, decodeStrict checksums = some text ∧
      (((splitlines text).filterMap Slackware.checksumLine).filter fun entry => entry.2 = indexPath).map Prod.fst =
        [lib.hexdigest "md5".toList raw] := by
  unfold Slackware.checkIndex at h
  obtain ⟨text, htext, h⟩ := bind_eq_ok.1 h
  dsimp only at h
  split at h
  · rename_i hfound
    refine ⟨text, ?_, hfound⟩
    cases hdecode : decodeStrict checksums with
    | none => rw [hdecode] at htext; cases htext
    | some text' => rw [hdecode] at htext; cases htext; rfl
  · cases h

section
variable (hfree : CollisionFree lib up up')
include hfree

theorem CollisionFree.httpGet {algorithm url url' : Str} {raw raw' : Bytes} (h : httpGet up url = .ok raw)
    (h' : httpGet up' url' = .ok raw') (hdigest : lib.hexdigest algorithm raw = lib.hexdigest algorithm raw') : raw = raw' :=
  hfree algorithm url url' raw raw' (httpGet_eq_ok.1 h) (httpGet_eq_ok.1 h') hdigest

theorem CollisionFree.apt (repo : RepoFields) (doc : Bytes) (filename digest : Str) :
    Agree
      (do
        let raw ← Apt.getPackages up (Apt.packagesUrl repo (some doc) filename (some digest))
          (Apt.distUrl repo ++ Apt.binaryPath repo ++ filename)
        let _ ← Apt.checkDigest lib repo raw filename (some digest)
        Apt.decodePackages lib raw filename)
      (do
        let raw ← Apt.getPackages up' (Apt.packagesUrl repo (some doc) filename (some digest))
          (Apt.distUrl repo ++ Apt.binaryPath repo ++ filename)
        let _ ← Apt.checkDigest lib repo raw filename (some digest)
        Apt.decodePackages lib raw filename) := by
  refine .pinned (fun raw raw' c c' hraw hraw' hc hc' => ?_) fun _ => .refl _
  obtain ⟨url, hurl⟩ := getPackages_ok hraw
  obtain ⟨url', hurl'⟩ := getPackages_ok hraw'
  exact hfree _ url url' raw raw' hurl hurl' ((checkDigest_ok hc).trans (checkDigest_ok hc').symm)

theorem CollisionFree.dnf (repo : RepoFields) (metadata : RpmMd.PrimaryMetadata) :
    Agree
      (do
        let primary ← RepoWatch.httpGet up (rstripSlash repo.upstream ++ '/' :: metadata.href)
        RpmMd.checkedPrimary lib host primary metadata repo.arch)
      (do
        let primary ← RepoWatch.httpGet up' (rstripSlash repo.upstream ++ '/' :: metadata.href)
        RpmMd.checkedPrimary lib host' primary metadata repo.arch) := by
  unfold RpmMd.checkedPrimary
  intro packages packages' h h'
  obtain ⟨primary, hprimary, h⟩ := bind_eq_ok.1 h
  obtain ⟨primary', hprimary', h'⟩ := bind_eq_ok.1 h'
  obtain ⟨⟨⟩, hbytes, h⟩ := bind_eq_ok.1 h
  obtain ⟨⟨⟩, hbytes', h'⟩ := bind_eq_ok.1 h'
  obtain rfl := hfree.httpGet hprimary hprimary' ((verifyBytes_ok hbytes).trans (verifyBytes_ok hbytes').symm)
  exact (RpmMd.openPrimary_agree primary metadata.href).bind (fun _ => .refl _) h h'

theorem CollisionFree.aptRpm (repo : RepoFields) (doc : Bytes) :
    Agree (AptRpm.fetchPkglist lib up repo doc) (AptRpm.fetchPkglist lib up' repo doc) := by
  unfold AptRpm.fetchPkglist
  refine (Agree.refl _).bind fun entries => ?_
  dsimp only
  split
  · exact .refl _
  · rename_i suffix hfind
    cases hentry : entries.lookup ("base/pkglist.".toList ++ formatOption repo.component ++ suffix) with
    | none =>
      intro packages _ h _
      obtain ⟨raw, -, h⟩ := bind_eq_ok.1 h
      cases h
    | some expected =>
      refine .pinned (fun raw raw' c c' hraw hraw' hc hc' => ?_) fun _ => .refl _
      exact hfree.httpGet hraw hraw' ((checkPkglist_ok hc).trans (checkPkglist_ok hc').symm)

theorem CollisionFree.slackware (repo : RepoFields) (doc : Bytes) :
    Agree
      (do
        let raw ← RepoWatch.httpGet up (Slackware.indexUrl repo)
        let _ ← Slackware.checkIndex lib raw doc (Slackware.indexPath repo)
        Slackware.parsePackages raw repo.arch)
      (do
        let raw ← RepoWatch.httpGet up' (Slackware.indexUrl repo)
        let _ ← Slackware.checkIndex lib raw doc (Slackware.indexPath repo)
        Slackware.parsePackages raw repo.arch) := by
  refine .pinned (fun raw raw' c c' hraw hraw' hc hc' => ?_) fun _ => .refl _
  obtain ⟨text, htext, hfound⟩ := checkIndex_ok hc
  obtain ⟨text', htext', hfound'⟩ := checkIndex_ok hc'
  obtain rfl : text = text' := Option.some.inj (htext.symm.trans htext')
  exact hfree.httpGet hraw hraw' (List.cons.inj (hfound.symm.trans hfound')).1

/-- **The document decides** what is read behind it, whoever sends the files. -/
theorem CollisionFree.readSigned_agree (repo : RepoFields) (doc : Bytes) :
    Agree (readSigned lib up host repo doc) (readSigned lib up' host' repo doc) := by
  unfold readSigned
  cases repo.type
  case apt =>
    dsimp only
    intro packages packages' h h'
    obtain ⟨⟨filename, digest⟩, hselect, h⟩ := bind_eq_ok.1 h
    obtain ⟨selected, hselect', h'⟩ := bind_eq_ok.1 h'
    obtain rfl : selected = (filename, digest) := Except.ok.inj (hselect'.symm.trans hselect)
    obtain ⟨digest, rfl⟩ : ∃ d, digest = some d := by
      unfold Apt.selectIndex at hselect
      obtain ⟨⟨name, listed⟩, -, hselect⟩ := bind_eq_ok.1 hselect
      dsimp only at hselect
      split at hselect
      · cases hselect
      · cases hselect
        exact ⟨listed, rfl⟩
    exact hfree.apt repo doc filename digest h h'
  case dnf => exact (Agree.refl _).bind fun metadata => hfree.dnf repo metadata
  case aptRpm => exact hfree.aptRpm repo doc
  case slackware => exact hfree.slackware repo doc
  all_goals exact .refl _

end

/-- **A signed document vouches for the catalog**: a verified fetch ends with a snapshot only behind a document that the
verifying program has accepted under the keys of the repository, and every other upstream that shows this document gives
the same snapshot or none. -/
theorem verified_catalog (hok : repo.signatureOk = true) (hverify : repo.verifySignature = true) (htype : repo.type ≠ .nix)
    {s : RepoSnapshot} (h : fetchSnapshot lib up host repo = .ok s) :
    ∃ doc, signedDocument lib up host repo = .ok doc ∧ Accepted lib host repo doc ∧
      ∀ up' host' s', CollisionFree lib up up' → signedDocument lib up' host' repo = .ok doc →
        fetchSnapshot lib up' host' repo = .ok s' → s' = s := by
  obtain ⟨packages, hfetch, h⟩ := bind_eq_ok.1 h
  cases h
  obtain ⟨doc, hdoc, haccepted, hread⟩ := fetchPackages_signed hverify hok htype hfetch
  refine ⟨doc, hdoc, haccepted, fun up' host' s' hfree hdoc' h' => ?_⟩
  obtain ⟨packages', hfetch', h'⟩ := bind_eq_ok.1 h'
  cases h'
  obtain ⟨doc', hsigned', -, hread'⟩ := fetchPackages_signed hverify hok htype hfetch'
  obtain rfl : doc = doc' := Except.ok.inj (hdoc'.symm.trans hsigned')
  rw [hfree.readSigned_agree repo doc hread hread']

end

/-! ## An archive -/

section

open Clearsigned

def archiveRepo : RepoFields :=
  { (aptRepo "debian" "http://h/debian").toRepoFields with
    verifySignature := true
    keyringPath := some "/etc/apt/keys.gpg".toList }

/-- An index of one package. -/
def archivePackages : Bytes := utf8Bytes
  (terminated '\n' ["Package: hello".toList, "Version: 2.10-3".toList, "Filename: pool/h/hello.deb".toList])

/-- Its SHA-256. -/
def archiveDigest : Str := hex [
  0xb1, 0x36, 0x6f, 0x41, 0x23, 0x3a, 0x09, 0x0a, 0xc6, 0xb2, 0xfc, 0xb4, 0xb5, 0x81, 0x52, 0x5d,
  0x66, 0xab, 0xbb, 0x6a, 0x14, 0x84, 0x76, 0x2d, 0x04, 0x7d, 0xf9, 0x63, 0xb8, 0x55, 0xbb, 0x56]

def archiveLines : List Str := ["SHA256:".toList, ' ' :: archiveDigest ++ " 58 main/binary-amd64/Packages".toList]

/-- An Ed25519 signature of these lines. -/
def archiveSignature : List Str :=
  [[], "iHUEARYIAB0WIQTCemLGnXlYi5m8QTtu8AItBfi6zgUCZZN9JQAKCRBu8AItBfi6".toList,
    "zlN3APwKSLhmh6Kxzpj4WMAESzfc0Qihgpmb57xmd+mYvoOmSwEAi3Uw6+borItm".toList,
    "VcPSPSt6ON4/Iv53qYA3u8jSlJEZIwo=".toList, "=lRF/".toList]

def archiveText : Str := terminated '\n' ([startMarker, "Hash: SHA256".toList, []] ++ archiveLines ++
  sigMarker :: archiveSignature ++ ["-----END PGP SIGNATURE-----".toList])

def archiveBody : Bytes := utf8Bytes (terminated '\n' archiveLines)

/-- What gpgv prints of that signature. -/
def archiveSig : GpgvRun := .finished 0 ("[GNUPG:] NEWSIG\n[GNUPG:] KEY_CONSIDERED ".toList ++ releaseKey ++
  " 0\n[GNUPG:] SIG_ID 3gPG17C+xqsaKKo+yy35JC/X4MQ 2024-01-02 1704164645\n".toList ++
  "[GNUPG:] GOODSIG 6EF0022D05F8BACE archive\n[GNUPG:] VALIDSIG ".toList ++ releaseKey ++
  " 2024-01-02 1704164645 0 4 0 22 8 01 ".toList ++ releaseKey ++ ['\n']) []

def archiveGpgv (keyring : Str) (signature : Option Bytes) (data : Bytes) : GpgvRun :=
  if keyring = keyringOf archiveRepo ∧ signature = none ∧ data = utf8Bytes archiveText then archiveSig else noData

def archiveHost : Host := { demoHost with gpgv := archiveGpgv }

/-- The SHA-256 of the index, and another text for every other file. -/
def archiveHexdigest (raw : Bytes) : Str :=
  if raw = archivePackages then archiveDigest else '-' :: raw.map fun b => Char.ofNat b.toNat

def archiveLibrary : Library := { demoLibrary with hexdigest := fun _ => archiveHexdigest }

def archive : Upstream where
  get url :=
    if url = Apt.indexUrl archiveRepo then .body (utf8Bytes archiveText)
    else if url = Apt.distUrl archiveRepo ++ Apt.binaryPath archiveRepo ++ "Packages".toList then .body archivePackages
    else .status 404
  evaluate _ := ⟨1, [], []⟩

theorem gpgv_archiveHost (keyring : Str) (signature : Option Bytes) (data : Bytes) :
    archiveHost.gpgv keyring signature data = archiveGpgv keyring signature data := rfl

theorem hexdigest_archiveLibrary (algorithm : Str) (raw : Bytes) :
    archiveLibrary.hexdigest algorithm raw = archiveHexdigest raw := rfl

theorem archiveHexdigest_injective : Function.Injective archiveHexdigest := by
  have hmarked : ∀ raw : Bytes, archiveDigest ≠ '-' :: raw.map fun b => Char.ofNat b.toNat := fun raw h => by
    have hhead : some 'b' = some '-' := congrArg List.head? h
    cases hhead
  intro raw raw' h
  unfold archiveHexdigest at h
  split at h
  · rename_i hraw
    split at h
    · rename_i hraw'
      rw [hraw, hraw']
    · exact absurd h (hmarked _)
  · split at h
    · exact absurd h.symm (hmarked _)
    · exact List.map_injective_iff.2 byteChar_injective (List.cons.inj h).2

theorem gpgv_archive : archiveHost.gpgv (keyringOf archiveRepo) none (utf8Bytes archiveText) = archiveSig := by
  rw [gpgv_archiveHost]
  unfold archiveGpgv
  rw [if_pos ⟨rfl, rfl, rfl⟩]

theorem runGpgv_congr {gpgv : Bytes → GpgvRun} {data : Bytes} {run : GpgvRun} (h : gpgv data = run) :
    runGpgv gpgv data = runGpgv (fun _ => run) data := by
  unfold runGpgv
  rw [h]

theorem runGpgv_archive : runGpgv (archiveHost.gpgv (keyringOf archiveRepo) none) (utf8Bytes archiveText) =
    .ok [(releaseKey, releaseKey)] := by
  rw [runGpgv_congr gpgv_archive]
  decide +kernel

theorem extractClearsignedBody_of_span {text : Str} {lines : List Str} {start stop : Nat}
    (hspan : bodySpan text = some (start, stop)) (hlines : (splitlines ((text.take stop).drop start)).map undash = lines) :
    extractClearsignedBody (utf8Bytes text) = .ok (utf8Bytes (joinNewline lines ++ ['\n'])) := by
  unfold extractClearsignedBody
  rw [decodeReplace_utf8Bytes]
  dsimp only
  rw [hspan]
  dsimp only
  rw [hlines]

theorem extractClearsignedBody_archive : extractClearsignedBody (utf8Bytes archiveText) = .ok archiveBody := by
  have hspan : bodySpan archiveText = some (49, 153) := by decide +kernel
  have hlines : (splitlines ((archiveText.take 153).drop 49)).map undash = archiveLines := by decide +kernel
  have hjoin : joinNewline archiveLines ++ ['\n'] = terminated '\n' archiveLines := by decide +kernel
  rw [extractClearsignedBody_of_span hspan hlines, hjoin, archiveBody]

theorem get_archive_index : archive.get (Apt.indexUrl archiveRepo) = .body (utf8Bytes archiveText) := by
  unfold archive
  dsimp only
  rw [if_pos rfl]

theorem releaseBody_archive : Apt.releaseBody archive archiveHost archiveRepo = .ok (some archiveBody) := by
  unfold Apt.releaseBody
  rw [get_archive_index]
  refine bind_eq_ok.2 ⟨archiveBody, raising_eq_ok.2 ?_, rfl⟩
  rw [Apt.extractBody, if_pos (show archiveRepo.verifySignature = true from rfl)]
  exact bind_eq_ok.2 ⟨_, runGpgv_archive, extractClearsignedBody_archive⟩

theorem selectIndex_archive :
    Apt.selectIndex archiveRepo (some archiveBody) = .ok ("Packages".toList, some archiveDigest) := by
  have hfind : ∀ path, findSha256InRelease archiveBody path =
      (sha256Entry path false (splitlines (terminated '\n' archiveLines))).elim (.error (.noEntry path)) .ok := fun path => by
    unfold findSha256InRelease archiveBody
    rw [decodeReplace_utf8Bytes]
    cases sha256Entry path false (splitlines (terminated '\n' archiveLines)) <;> rfl
  unfold Apt.selectIndex Apt.listedIndex
  simp only [hfind]
  decide +kernel

theorem decodePackages_archive : Apt.decodePackages archiveLibrary archivePackages "Packages".toList =
    .ok [⟨"hello".toList, "2.10-3".toList, some "pool/h/hello.deb".toList, none⟩] := by
  have hparse : Apt.parsePackages ⟨1024 * 1024, by decide⟩ archivePackages 4096 =
      [⟨"hello".toList, "2.10-3".toList, some "pool/h/hello.deb".toList, none⟩] := by
    rw [Apt.parsePackages_eq, Apt.parsePackagesReference, archivePackages, decodeReplace_utf8Bytes]
    decide +kernel
  exact congrArg Except.ok hparse

theorem fetchSnapshot_archive : fetchSnapshot archiveLibrary archive archiveHost archiveRepo =
    .ok (fetch archiveRepo.id [⟨"hello".toList, "2.10-3".toList, some "pool/h/hello.deb".toList, none⟩]) := by
  have hget : archive.get (Apt.packagesUrl archiveRepo (some archiveBody) "Packages".toList (some archiveDigest)) =
      .body archivePackages := by
    have hplain : Apt.packagesUrl archiveRepo (some archiveBody) "Packages".toList (some archiveDigest) =
        Apt.distUrl archiveRepo ++ Apt.binaryPath archiveRepo ++ "Packages".toList := by
      decide +kernel
    have hother : Apt.distUrl archiveRepo ++ Apt.binaryPath archiveRepo ++ "Packages".toList ≠ Apt.indexUrl archiveRepo := by
      decide +kernel
    rw [hplain]
    unfold archive
    dsimp only
    rw [if_neg hother, if_pos rfl]
  have hpackages : Apt.getPackages archive
      (Apt.packagesUrl archiveRepo (some archiveBody) "Packages".toList (some archiveDigest))
      (Apt.distUrl archiveRepo ++ Apt.binaryPath archiveRepo ++ "Packages".toList) = .ok archivePackages := by
    unfold Apt.getPackages
    rw [hget]
  have hdigest : Apt.checkDigest archiveLibrary archiveRepo archivePackages "Packages".toList (some archiveDigest) =
      .ok () := by
    have hactual : archiveLibrary.hexdigest "sha256".toList archivePackages = archiveDigest := by
      rw [hexdigest_archiveLibrary]
      unfold archiveHexdigest
      rw [if_pos rfl]
    unfold Apt.checkDigest
    dsimp only
    rw [hactual, if_neg (not_not_intro rfl)]
  refine bind_eq_ok.2 ⟨_, ?_, rfl⟩
  exact bind_eq_ok.2 ⟨_, releaseBody_archive, bind_eq_ok.2 ⟨_, selectIndex_archive,
    bind_eq_ok.2 ⟨_, hpackages, bind_eq_ok.2 ⟨_, hdigest, decodePackages_archive⟩⟩⟩⟩

/-- A verified fetch of an archive: every upstream that shows its Release gives the same packages or none. -/
theorem verified_catalog_archive :
    ∃ doc, signedDocument archiveLibrary archive archiveHost archiveRepo = .ok doc ∧
      Accepted archiveLibrary archiveHost archiveRepo doc ∧
      ∀ up' host' s', signedDocument archiveLibrary up' host' archiveRepo = .ok doc →
        fetchSnapshot archiveLibrary up' host' archiveRepo = .ok s' →
          s' = fetch archiveRepo.id [⟨"hello".toList, "2.10-3".toList, some "pool/h/hello.deb".toList, none⟩] := by
  obtain ⟨doc, hdoc, haccepted, hsame⟩ := verified_catalog (by decide) rfl (by decide) fetchSnapshot_archive
  exact ⟨doc, hdoc, haccepted, fun up' host' s' =>
    hsame up' host' s' fun _ _ _ _ _ _ _ h => archiveHexdigest_injective h⟩

end
end RepoWatch
