import RepoWatch.ApkIndex
import RepoWatch.Fingerprint
import RepoWatch.NixCatalog
import RepoWatch.PackageLists
import RepoWatch.PathIndex
import RepoWatch.RpmMd
import RepoWatch.SignedIndexes
/-!
# CatalogFetch — one fingerprint, one catalog

The parsers by type, and what the fingerprint says about two fetches: the URL of the index, the local paths and the packages
are the same under every other setting (`catalog_identity_covers`).  The exception is an APKINDEX whose signature is more
than one plain entry: without verification it may end the archive in front of the index (`signature_hides_index`).
-/
namespace RepoWatch

open Lib

/-- `index_url` of the parser for the type. -/
def indexUrl (repo : RepoFields) : Option Str :=
  match repo.type with
  | .apt => some (Apt.indexUrl repo)
  | .pacman => some (Pacman.indexUrl repo)
  | .apk => some (Apk.indexUrl repo)
  | .dnf => some (RpmMd.indexUrl repo)
  | .aptRpm => some (AptRpm.indexUrl repo)
  | .xbps => some (Xbps.indexUrl repo)
  | .gentoo => some (Gentoo.indexUrl repo)
  | .slackware => some (Slackware.indexUrl repo)
  | .nix => NixCatalog.indexUrl repo

section
variable (lib : Library) (up : Upstream) (host : Host)

/-- `fetch_packages` of the parser for the type. -/
def fetchPackages (repo : RepoFields) : Except FetchError (List PackageRef) :=
  match repo.type with
  | .apt => Apt.fetchPackages lib up host repo
  | .pacman => Pacman.fetchPackages lib up host repo
  | .apk => Apk.fetchPackages lib host up repo
  | .dnf => RpmMd.fetchPackages lib up host repo
  | .aptRpm => AptRpm.fetchPackages lib up host repo
  | .xbps => Xbps.fetchPackages lib host up repo
  | .gentoo => Gentoo.fetchPackages lib up repo
  | .slackware => Slackware.fetchPackages lib host up repo
  | .nix => NixCatalog.fetchPackages lib up host repo

/-- `IndexParser.fetch`. -/
def fetchSnapshot (repo : RepoFields) : Except FetchError RepoSnapshot := do
  let packages ← fetchPackages lib up host repo
  return fetch repo.id packages

end

/-! ## Two configurations -/

section
variable {lib : Library} {up : Upstream} {host host' : Host}

theorem SameCatalog.indexUrl_eq {a b : RepoFields} (h : SameCatalog a b) : indexUrl a = indexUrl b := by
  unfold indexUrl Apt.indexUrl Pacman.indexUrl Apk.indexUrl RpmMd.indexUrl AptRpm.indexUrl Xbps.indexUrl Gentoo.indexUrl
    Slackware.indexUrl Slackware.indexPath NixCatalog.indexUrl
  rw [h.type, h.upstream, h.arch, h.repoName, h.distribution, h.component, h.nixSource]

/-- Where one of two apk configurations verifies, the signature of every index is one plain entry. -/
def PlainSignatures (lib : Library) (up : Upstream) (a b : RepoFields) : Prop :=
  a.type = .apk → a.verifySignature ≠ b.verifySignature →
    ∀ raw, up.get (Apk.indexUrl a) = .body raw → Apk.PlainSignature lib raw

theorem SameCatalog.fetchPackages_agree {a b : RepoFields} (h : SameCatalog a b) (hgzip : Apk.GzipAgrees lib)
    (hplain : PlainSignatures lib up a b) : Agree (fetchPackages lib up host a) (fetchPackages lib up host' b) := by
  unfold fetchPackages
  cases htype : a.type <;> rw [← h.type, htype]
  case apt => exact Apt.fetchPackages_agree h.id h.upstream h.arch h.distribution h.component
  case pacman => exact Pacman.fetchPackages_agree h.upstream h.repoName
  case apk =>
    have hurl : Apk.indexUrl a = Apk.indexUrl b := by rw [Apk.indexUrl, h.upstream, h.arch, Apk.indexUrl]
    exact Apk.fetchPackages_agree hgzip hurl (hplain htype)
  case dnf => exact RpmMd.fetchPackages_agree h.upstream h.arch
  case aptRpm => exact AptRpm.fetchPackages_agree h.upstream h.arch h.component
  case xbps => exact Xbps.fetchPackages_agree h.upstream h.arch
  case gentoo => exact .of_eq (Gentoo.fetchPackages_eq h.upstream)
  case slackware => exact Slackware.fetchPackages_agree h.upstream h.arch h.component
  case nix => exact NixCatalog.fetchPackages_agree h.nixSource h.arch h.nixAttributes

theorem SameCatalog.fetchSnapshot_agree {a b : RepoFields} (h : SameCatalog a b) (hgzip : Apk.GzipAgrees lib)
    (hplain : PlainSignatures lib up a b) : Agree (fetchSnapshot lib up host a) (fetchSnapshot lib up host' b) := by
  unfold fetchSnapshot
  rw [h.id]
  exact (h.fetchPackages_agree hgzip hplain).bind fun _ => .refl _

theorem SameCatalog.packagePathIndex_eq {a b : RepoConfig} (h : SameCatalog a.toRepoFields b.toRepoFields)
    (netlocOk : Str → Bool) (packages : Dict Str Str) :
    packagePathIndex netlocOk a packages = packagePathIndex netlocOk b packages := by
  rw [packagePathIndex, h.packagePrefix_eq, packagePathIndex]

/-- **The fingerprint covers the catalog**: the index URL, the local paths and the path index, and what a fetch reads of the
same answers. -/
theorem catalog_identity_covers {lib : Library} (hgzip : Apk.GzipAgrees lib) {sha256 : Bytes → Str}
    (hsha256 : Function.Injective sha256) {a b : RepoConfig} (hid : a.id = b.id)
    (h : catalogIdentity sha256 a.toRepoFields = catalogIdentity sha256 b.toRepoFields) :
    indexUrl a.toRepoFields = indexUrl b.toRepoFields ∧
    (∀ filename, packagePath a filename = packagePath b filename) ∧
    (∀ netlocOk packages, packagePathIndex netlocOk a packages = packagePathIndex netlocOk b packages) ∧
    ∀ (up : Upstream) (host host' : Host), PlainSignatures lib up a.toRepoFields b.toRepoFields →
      Agree (fetchSnapshot lib up host a.toRepoFields) (fetchSnapshot lib up host' b.toRepoFields) := by
  have hsame := sameCatalog_of_identity hsha256 hid h
  exact ⟨hsame.indexUrl_eq, hsame.packagePath_eq, hsame.packagePathIndex_eq, fun _ _ _ => hsame.fetchSnapshot_agree hgzip⟩

end

/-! ## An index behind a signature -/

section

open Lib.Utf8 Pacman

/-- Octal zeros with their NUL. -/
def demoZeros (n : Nat) : Bytes := List.replicate n 48 ++ [0]

/-- The header of a file of root. -/
def demoHeader (name size chksum : Bytes) : Bytes :=
  padTo 512 (padTo 100 name ++ [48, 48, 48, 48, 54, 52, 52, 0] ++ demoZeros 7 ++ demoZeros 7 ++
    (List.replicate 9 48 ++ size ++ [0]) ++ demoZeros 11 ++ (chksum ++ [0, 32]) ++ [48] ++ padTo 100 [] ++ posixMagic)

def demoEntry (name size chksum content : Bytes) : Bytes := demoHeader name size chksum ++ padTo 512 content

/-- `P:hello` and `V:1.0` on a line each, as the member `APKINDEX`. -/
def demoMember : Tar.Member :=
  ⟨[65, 80, 75, 73, 78, 68, 69, 88], 48, [], [80, 58, 104, 101, 108, 108, 111, 10, 86, 58, 49, 46, 48, 10]⟩

/-- `sig` as the member `.SIGN.RSA256.k`. -/
def demoSigner : Tar.Member := ⟨[46, 83, 73, 71, 78, 46, 82, 83, 65, 50, 53, 54, 46, 107], 48, [], [115, 105, 103]⟩

def demoIndex : Bytes := demoEntry demoMember.name [49, 54] [48, 48, 55, 48, 55, 48] demoMember.content ++ padTo 1024 []

def demoSignature : Bytes := demoEntry demoSigner.name [48, 51] [48, 48, 55, 54, 49, 49] demoSigner.content

/-- `demoIndex` as a gzip member. -/
def demoPayload : Bytes :=
  [31, 139, 8, 0, 0, 0, 0, 0, 2, 3, 115, 12, 240, 246, 244, 115, 113, 141, 96, 160, 33, 48, 0, 2, 51, 19, 19, 48, 13, 4, 232,
    180, 129, 129, 161, 25, 130, 13, 22, 55, 7, 66, 6, 5, 3, 6, 58, 128, 210, 226, 146, 196, 34, 160, 149, 12, 35, 19, 4, 88,
    101, 164, 230, 228, 228, 115, 133, 89, 25, 234, 25, 112, 49, 140, 130, 81, 48, 10, 70, 193, 40, 24, 33, 0, 0, 195, 2, 73,
    30, 0, 8, 0, 0]

/-- `demoSignature` as a gzip member. -/
def demoCut : Bytes :=
  [31, 139, 8, 0, 0, 0, 0, 0, 2, 3, 211, 11, 246, 116, 247, 211, 11, 10, 118, 52, 50, 53, 211, 203, 102, 160, 9, 48, 0, 2,
    51, 19, 19, 48, 13, 4, 232, 52, 16, 24, 35, 177, 65, 226, 230, 102, 134, 134, 12, 10, 6, 12, 116, 0, 165, 197, 37, 137,
    69, 64, 43, 25, 70, 38, 40, 206, 76, 103, 24, 5, 35, 23, 0, 0, 128, 220, 65, 80, 0, 4, 0, 0]

/-- `demoSignature` with the end of an archive as a gzip member. -/
def demoClosed : Bytes :=
  [31, 139, 8, 0, 0, 0, 0, 0, 2, 3, 211, 11, 246, 116, 247, 211, 11, 10, 118, 52, 50, 53, 211, 203, 102, 160, 9, 48, 0, 2,
    51, 19, 19, 48, 13, 4, 232, 52, 16, 24, 35, 177, 65, 226, 230, 102, 134, 134, 12, 10, 6, 12, 116, 0, 165, 197, 37, 137,
    69, 64, 43, 25, 70, 38, 40, 206, 76, 103, 24, 5, 163, 96, 20, 140, 130, 81, 48, 242, 0, 0, 201, 131, 197, 184, 0, 8, 0,
    0]

def demoInflate (raw : Bytes) : Option Inflated :=
  if raw = demoPayload then some ⟨demoIndex, some []⟩
  else if raw = demoCut ++ demoPayload then some ⟨demoSignature, some demoPayload⟩
  else if raw = demoClosed ++ demoPayload then some ⟨demoSignature ++ padTo 1024 [], some demoPayload⟩
  else none

def demoGunzip (raw : Bytes) : Stream :=
  match demoInflate raw with
  | some ⟨content, some []⟩ => ⟨[content], none⟩
  | some ⟨front, some rest⟩ =>
    match demoInflate rest with
    | some ⟨back, some []⟩ => ⟨[front ++ back], none⟩
    | _ => ⟨[front], some "Not a gzipped file".toList⟩
  | _ => ⟨[], some "Not a gzipped file".toList⟩

def demoLibrary : Library where
  gunzip := demoGunzip
  inflate raw _ := demoInflate raw
  decompress _ _ := none
  extension _ _ := .error []
  recursionLimit := 1000
  parseXml _ := none
  loadPlist _ := none
  loadsJson _ := none
  dumpsJson _ := []
  format _ := []
  hexdigest _ _ := []
  lower := asciiLower
  isdigit := Char.isDigit

def demoHost : Host where
  gpgv _ _ _ := .notFound
  apkKey _ name := if name = ['k'] then some [1] else none
  openssl _ _ _ _ := .finished 0 "Verified OK\n".toList []
  apkVersion := .failed []
  apkVerify _ _ := .failed []
  completes _ _ := true
  zstd := .missing

/-- The index behind a signature, for every URL. -/
def demoUpstream (signature : Bytes) : Upstream where
  get _ := .body (signature ++ demoPayload)
  evaluate _ := ⟨1, [], []⟩

def demoRepo (verify : Bool) : RepoConfig where
  id := "alpine".toList
  type := .apk
  upstream := "https://example.org/alpine/main".toList
  arch := "x86_64".toList
  verifySignature := verify
  apkKeysDir := some "/etc/apk/keys".toList
  expands := rfl

def demoIdentity : Str :=
  ("\x7b\"arch\": \"x86_64\", \"component\": null, \"distribution\": null, \"nix_attributes\": [], \"nix_source\": null, " ++
    "\"repo_name\": null, \"type\": \"apk\", \"upstream\": \"https://example.org/alpine/main\", \"url_template\": null, " ++
    "\"url_variables\": \x7b\x7d\x7d").toList

/-- The digest of `demoIdentity`, and another text for everything else. -/
def demoSha256 (raw : Bytes) : Str :=
  if raw = utf8Bytes demoIdentity then "1767a58507a20142cfabf03cdc7d64c82619926a3aa1ddc732299e08f9259ee7".toList
  else '-' :: raw.map fun b => Char.ofNat b.toNat

theorem demoSha256_injective : Function.Injective demoSha256 := by
  intro raw raw' h
  unfold demoSha256 at h
  split at h
  · rename_i hraw
    split at h
    · rename_i hraw'
      rw [hraw, hraw']
    · have hhead : '1' = '-' := Option.some.inj (congrArg List.head? h)
      exact absurd hhead (by decide)
  · split at h
    · have hhead : '-' = '1' := Option.some.inj (congrArg List.head? h)
      exact absurd hhead (by decide)
    · exact List.map_injective_iff.2 byteChar_injective (List.cons.inj h).2

theorem inflate_demoLibrary (raw : Bytes) (n : Nat) : demoLibrary.inflate raw n = demoInflate raw := rfl

theorem gunzip_demoLibrary (raw : Bytes) : demoLibrary.gunzip raw = demoGunzip raw := rfl

theorem gunzipped_whole {lib : Library} {raw content : Bytes} (h : lib.gunzip raw = ⟨[content], none⟩) :
    lib.gunzipped raw = content ∧ (lib.gunzip raw).damage = none := by
  unfold Library.gunzipped
  rw [h]
  by_cases hcontent : content = []
  · rw [hcontent]
    exact ⟨rfl, rfl⟩
  · exact ⟨by simp [hcontent], rfl⟩

theorem gzipAgrees_demoLibrary : Apk.GzipAgrees demoLibrary where
  single := by
    intro raw content n h
    rw [inflate_demoLibrary] at h
    exact gunzipped_whole (by rw [gunzip_demoLibrary, demoGunzip, h])
  double := by
    intro raw rest front back n m hfront hback
    rw [inflate_demoLibrary] at hfront hback
    refine gunzipped_whole ?_
    rw [gunzip_demoLibrary, demoGunzip, hfront]
    cases rest with
    | nil =>
      have hempty : demoInflate [] = none := by decide
      rw [hempty] at hback
      cases hback
    | cons b rest =>
      dsimp only
      rw [hback]

/-! ### The members -/

section
variable {name size chksum content : Bytes}

theorem length_demoHeader (hname : name.length ≤ 100) (hsize : size.length = 2) (hchksum : chksum.length = 6) :
    (demoHeader name size chksum).length = 512 := by
  have hlink : (padTo 100 []).length = 100 := TarMember.length_padTo (Nat.zero_le _)
  refine TarMember.length_padTo ?_
  simp only [demoZeros, posixMagic, List.length_append, TarMember.length_padTo hname, hlink, List.length_replicate, hsize,
    hchksum, List.length_cons, List.length_nil]
  omega

/-- The entry of a short file, whatever stands behind it. -/
structure DemoEntry (name size chksum content : Bytes) : Prop where
  length : (demoHeader name size chksum).length = 512
  zero : (demoHeader name size chksum).all (· == 0) = false
  head : Tar.frombuf (demoHeader name size chksum) = .ok ⟨name, content.length, 48, []⟩
  short : 0 < content.length ∧ content.length ≤ 512

theorem demoMember_entry : DemoEntry demoMember.name [49, 54] [48, 48, 55, 48, 55, 48] demoMember.content where
  length := length_demoHeader (by decide) rfl rfl
  zero := rfl
  head := by decide +kernel
  short := by decide

theorem demoSigner_entry : DemoEntry demoSigner.name [48, 51] [48, 48, 55, 54, 49, 49] demoSigner.content where
  length := length_demoHeader (by decide) rfl rfl
  zero := rfl
  head := by decide +kernel
  short := by decide

theorem DemoEntry.block (h : DemoEntry name size chksum content) : Tar.block content.length = 512 := by
  have := h.short
  unfold Tar.block padding
  omega

theorem DemoEntry.isEntry (h : DemoEntry name size chksum content) :
    Tar.isEntry (demoEntry name size chksum content) = true := by
  have hlength : (demoEntry name size chksum content).length = 1024 := by
    rw [demoEntry, List.length_append, h.length, TarMember.length_padTo h.short.2]
  unfold Tar.isEntry
  rw [hlength, demoEntry, List.take_left' h.length, h.head]
  dsimp only
  rw [Int.toNat_natCast, h.block, h.zero, decide_eq_true (Int.natCast_nonneg _)]
  rfl

variable {extension : Tar.Extension} {damaged first : Bool} {rest : Bytes} {members : List Tar.Member}

theorem DemoEntry.membersFrom (h : DemoEntry name size chksum content)
    (hrest : Tar.membersFrom extension damaged false rest = .ok members) :
    Tar.membersFrom extension damaged first (demoEntry name size chksum content ++ rest) =
      .ok (⟨name, 48, [], content⟩ :: members) := by
  have hdata : (padTo 512 content).length = 512 := TarMember.length_padTo h.short.2
  have htake : (demoEntry name size chksum content ++ rest).take 512 = demoHeader name size chksum := by
    rw [demoEntry, List.append_assoc, List.take_left' h.length]
  have hdrop : (demoEntry name size chksum content ++ rest).drop 512 = padTo 512 content ++ rest := by
    rw [demoEntry, List.append_assoc, List.drop_left' h.length]
  have hlength : 512 ≤ (demoEntry name size chksum content ++ rest).length := by
    rw [demoEntry, List.length_append, List.length_append, h.length]
    omega
  have hroom : Tar.block (content.length : Int).toNat ≤ ((demoEntry name size chksum content ++ rest).drop 512).length := by
    rw [hdrop, Int.toNat_natCast, h.block, List.length_append, hdata]
    omega
  have hcontent : (padTo 512 content ++ rest).take content.length = content := by
    rw [padTo, List.append_assoc, List.take_left]
  rw [Tar.membersFrom_entry first hlength (htake ▸ h.zero) (htake ▸ h.head) rfl rfl (Int.natCast_nonneg _) hroom, hdrop]
  dsimp only
  rw [Int.toNat_natCast, h.block, List.drop_left' hdata, hrest, hcontent]
  rfl

theorem membersFrom_nil : Tar.membersFrom extension false false [] = .ok [] := by
  rw [Tar.membersFrom, dif_pos (by decide), if_neg (by decide)]
  rfl

theorem membersFrom_end : Tar.membersFrom extension damaged false (padTo 1024 [] ++ rest) = .ok [] := by
  have hlength : (padTo 1024 []).length = 1024 := TarMember.length_padTo (Nat.zero_le _)
  have hzero : ((padTo 1024 [] ++ rest).take 512).all (· == 0) = true := by
    rw [List.take_append_of_le_length (by omega), padTo, List.nil_append, List.take_replicate]
    exact List.all_eq_true.2 fun b hb => by rw [List.eq_of_mem_replicate hb]; rfl
  exact Tar.membersFrom_zero false (by rw [List.length_append]; omega) hzero

theorem length_demoSignature : demoSignature.length = 1024 := by
  rw [demoSignature, demoEntry, List.length_append, demoSigner_entry.length, TarMember.length_padTo demoSigner_entry.short.2]

theorem length_demoIndex : demoIndex.length = 2048 := by
  rw [demoIndex, demoEntry, List.length_append, List.length_append, demoMember_entry.length,
    TarMember.length_padTo demoMember_entry.short.2, TarMember.length_padTo (Nat.zero_le _)]

theorem membersFrom_demoIndex : Tar.membersFrom extension damaged first demoIndex = .ok [demoMember] := by
  have hend : Tar.membersFrom extension damaged false (padTo 1024 [] ++ []) = .ok [] := membersFrom_end
  rw [List.append_nil] at hend
  exact demoMember_entry.membersFrom hend

end

/-! ### The fetches -/

def demoPackages : List PackageRef := [⟨"hello".toList, "1.0".toList, some "hello-1.0.apk".toList, none⟩]

section
variable (n : Nat)

theorem inflate_demoPayload : demoLibrary.inflate demoPayload n = some ⟨demoIndex, some []⟩ := by
  rw [inflate_demoLibrary, demoInflate, if_pos rfl]

theorem inflate_demoCut : demoLibrary.inflate (demoCut ++ demoPayload) n = some ⟨demoSignature, some demoPayload⟩ := by
  have hne : demoCut ++ demoPayload ≠ demoPayload := fun h => absurd (congrArg (·.getD 10 0) h) (by decide)
  rw [inflate_demoLibrary, demoInflate, if_neg hne, if_pos rfl]

theorem inflate_demoClosed :
    demoLibrary.inflate (demoClosed ++ demoPayload) n = some ⟨demoSignature ++ padTo 1024 [], some demoPayload⟩ := by
  have hne : demoClosed ++ demoPayload ≠ demoPayload := fun h => absurd (congrArg (·.getD 10 0) h) (by decide)
  have hne' : demoClosed ++ demoPayload ≠ demoCut ++ demoPayload := fun h => absurd (congrArg (·.getD 70 0) h) (by decide)
  rw [inflate_demoLibrary, demoInflate, if_neg hne, if_neg hne', if_pos rfl]

end

theorem parse_demo {raw : Bytes} {members : List Tar.Member} (hmembers : demoLibrary.gzipMembers raw = .ok members)
    (hread : demoLibrary.readMember members Apk.apkindex = .ok (some demoMember.content)) :
    Apk.parseApkindexTarGz demoLibrary raw = .ok demoPackages := by
  have hcontent : demoMember.content = utf8Bytes "P:hello\nV:1.0\n".toList := by decide
  have hrecords : Apk.parseRecords "P:hello\nV:1.0\n".toList = demoPackages := by decide
  refine bind_eq_ok.2 ⟨members, raising_eq_ok.2 hmembers, bind_eq_ok.2 ⟨_, raising_eq_ok.2 hread, ?_⟩⟩
  dsimp only
  rw [hcontent, decodeReplace_utf8Bytes, hrecords]
  rfl

theorem parse_demoPayload : Apk.parseApkindexTarGz demoLibrary demoPayload = .ok demoPackages := by
  obtain ⟨hcontent, hdamage⟩ := gzipAgrees_demoLibrary.single (inflate_demoPayload 0)
  have hmembers : demoLibrary.gzipMembers demoPayload = .ok [demoMember] := by
    unfold Library.gzipMembers
    rw [hcontent, hdamage]
    exact membersFrom_demoIndex
  exact parse_demo hmembers (by decide)

section
variable {signature front : Bytes}
  (hinflate : ∀ n, demoLibrary.inflate (signature ++ demoPayload) n = some ⟨front, some demoPayload⟩)
include hinflate

theorem gzipMembers_demo {members : List Tar.Member}
    (hmembers : Tar.getmembers demoLibrary.extension false (front ++ demoIndex) = .ok members) :
    demoLibrary.gzipMembers (signature ++ demoPayload) = .ok members := by
  obtain ⟨hcontent, hdamage⟩ := gzipAgrees_demoLibrary.double (hinflate 0) (inflate_demoPayload 0)
  unfold Library.gzipMembers
  rw [hcontent, hdamage]
  exact hmembers

theorem trustedIndex_demo (hsmall : front.length ≤ 1024 * 1024)
    (hmembers : demoLibrary.membersOf front = .ok [demoSigner]) :
    Apk.trustedIndex demoLibrary demoHost (demoRepo true).toRepoFields (signature ++ demoPayload) = .ok demoPayload := by
  have hmember : Apk.gzipMember demoLibrary (signature ++ demoPayload) (1024 * 1024) = .ok (front, demoPayload) := by
    unfold Apk.gzipMember
    rw [hinflate]
    exact if_neg (by omega)
  have hpayload : Apk.gzipMember demoLibrary demoPayload (256 * 1024 * 1024) = .ok (demoIndex, []) := by
    unfold Apk.gzipMember
    rw [inflate_demoPayload]
    exact if_neg (by rw [length_demoIndex]; decide)
  have hname : demoSigner.name = utf8Bytes ".SIGN.RSA256.k".toList := by decide
  have hkey : Apk.signatureKey ".SIGN.RSA256.k".toList = some (false, ['k']) := by decide
  have hsignature : Apk.signatureOf demoLibrary front = .ok (false, ['k'], demoSigner.content) := by
    refine bind_eq_ok.2 ⟨[demoSigner], raising_eq_ok.2 hmembers, ?_⟩
    dsimp only
    rw [hname, decodeReplace_utf8Bytes, hkey]
    rfl
  show Apk.verifyIndex demoLibrary demoHost _ _ _ = _
  unfold Apk.verifyIndex
  refine bind_eq_ok.2 ⟨_, hmember, ?_⟩
  dsimp only
  rw [if_neg (by decide)]
  refine bind_eq_ok.2 ⟨_, hpayload, ?_⟩
  dsimp only
  rw [if_neg (by decide)]
  exact bind_eq_ok.2 ⟨_, hsignature, rfl⟩

end

theorem fetchSnapshot_demo {signature index : Bytes} {verify : Bool} {packages : List PackageRef}
    (hindex : Apk.trustedIndex demoLibrary demoHost (demoRepo verify).toRepoFields (signature ++ demoPayload) = .ok index)
    (hparse : Apk.parseApkindexTarGz demoLibrary index = .ok packages) :
    fetchSnapshot demoLibrary (demoUpstream signature) demoHost (demoRepo verify).toRepoFields =
      .ok (fetch "alpine".toList packages) := by
  have hget : (demoUpstream signature).get (Apk.indexUrl (demoRepo verify).toRepoFields) =
      .body (signature ++ demoPayload) := rfl
  have hfetch : Apk.fetchPackages demoLibrary demoHost (demoUpstream signature) (demoRepo verify).toRepoFields =
      .ok packages := bind_eq_ok.2 ⟨_, httpGet_eq_ok.2 hget, bind_eq_ok.2 ⟨index, hindex, hparse⟩⟩
  exact bind_eq_ok.2 ⟨packages, hfetch, rfl⟩

/-- Behind a signature that does not end its archive both fetches find the index. -/
theorem fetchSnapshot_demoCut (verify : Bool) :
    fetchSnapshot demoLibrary (demoUpstream demoCut) demoHost (demoRepo verify).toRepoFields =
      .ok (fetch "alpine".toList demoPackages) := by
  cases verify with
  | true =>
    have hmember : demoLibrary.membersOf demoSignature = .ok [demoSigner] := by
      have hread : demoLibrary.membersOf (demoSignature ++ []) = .ok [demoSigner] :=
        demoSigner_entry.membersFrom membersFrom_nil
      rwa [List.append_nil] at hread
    have hsmall : demoSignature.length ≤ 1024 * 1024 := by
      rw [length_demoSignature]
      decide
    exact fetchSnapshot_demo (trustedIndex_demo inflate_demoCut hsmall hmember) parse_demoPayload
  | false =>
    have hmembers : demoLibrary.gzipMembers (demoCut ++ demoPayload) = .ok [demoSigner, demoMember] :=
      gzipMembers_demo inflate_demoCut (demoSigner_entry.membersFrom membersFrom_demoIndex)
    exact fetchSnapshot_demo rfl (parse_demo hmembers (by decide))

theorem plainSignatures_demoCut :
    PlainSignatures demoLibrary (demoUpstream demoCut) (demoRepo true).toRepoFields (demoRepo false).toRepoFields := by
  intro _ _ raw hraw d hd
  obtain rfl : demoCut ++ demoPayload = raw := Reply.body.inj hraw
  rw [inflate_demoCut] at hd
  obtain rfl := Option.some.inj hd
  exact demoSigner_entry.isEntry

theorem catalog_identity_covers_demo :
    ∃ s s', fetchSnapshot demoLibrary (demoUpstream demoCut) demoHost (demoRepo true).toRepoFields = .ok s ∧
      fetchSnapshot demoLibrary (demoUpstream demoCut) demoHost (demoRepo false).toRepoFields = .ok s' ∧ s = s' := by
  have htrue := fetchSnapshot_demoCut true
  have hfalse := fetchSnapshot_demoCut false
  obtain ⟨-, -, -, hagree⟩ := catalog_identity_covers gzipAgrees_demoLibrary demoSha256_injective (a := demoRepo true)
    (b := demoRepo false) rfl rfl
  exact ⟨_, _, htrue, hfalse, hagree _ _ _ plainSignatures_demoCut htrue hfalse⟩

/-- **A signature that ends its archive** hides the index from the fetch that does not verify. -/
theorem signature_hides_index :
    Apk.GzipAgrees demoLibrary ∧ Function.Injective demoSha256 ∧ (demoRepo true).id = (demoRepo false).id ∧
      catalogIdentity demoSha256 (demoRepo true).toRepoFields = catalogIdentity demoSha256 (demoRepo false).toRepoFields ∧
      ∃ s s', fetchSnapshot demoLibrary (demoUpstream demoClosed) demoHost (demoRepo true).toRepoFields = .ok s ∧
        fetchSnapshot demoLibrary (demoUpstream demoClosed) demoHost (demoRepo false).toRepoFields = .ok s' ∧
        s.names.rows = [("hello-1.0".toList, "hello".toList)] ∧ s'.names.rows = [] := by
  have hmember : demoLibrary.membersOf (demoSignature ++ padTo 1024 []) = .ok [demoSigner] := by
    have hread : demoLibrary.membersOf (demoSignature ++ (padTo 1024 [] ++ [])) = .ok [demoSigner] :=
      demoSigner_entry.membersFrom membersFrom_end
    rwa [List.append_nil] at hread
  have hsmall : (demoSignature ++ padTo 1024 []).length ≤ 1024 * 1024 := by
    rw [List.length_append, length_demoSignature, TarMember.length_padTo (Nat.zero_le _)]
    decide
  have hmembers : demoLibrary.gzipMembers (demoClosed ++ demoPayload) = .ok [demoSigner] := by
    refine gzipMembers_demo inflate_demoClosed ?_
    rw [List.append_assoc]
    exact demoSigner_entry.membersFrom membersFrom_end
  have hread : demoLibrary.readMember [demoSigner] Apk.apkindex = .ok none := by decide
  have hparse : Apk.parseApkindexTarGz demoLibrary (demoClosed ++ demoPayload) = .ok [] :=
    bind_eq_ok.2 ⟨_, raising_eq_ok.2 hmembers, bind_eq_ok.2 ⟨none, raising_eq_ok.2 hread, rfl⟩⟩
  exact ⟨gzipAgrees_demoLibrary, demoSha256_injective, rfl, rfl, _, _,
    fetchSnapshot_demo (trustedIndex_demo inflate_demoClosed hsmall hmember) parse_demoPayload,
    fetchSnapshot_demo rfl hparse, by decide, rfl⟩

end

end RepoWatch
