import RepoWatch.AptPackages
import RepoWatch.Parsers
import RepoWatch.Pkglist
/-!
# SignedIndexes — the indexes of apt, pacman and APT-RPM

A signature of apt is around the Release file, one of pacman is in a file of its own, and one of APT-RPM is at the end of the
release.  Verification takes a fetch down or leaves it as it is: what is parsed is the same without it.
-/
namespace RepoWatch

open Lib Lib.Utf8

/-! ## apt -/

namespace Apt

def indexUrl (repo : RepoFields) : Str :=
  repo.upstream ++ "/dists/".toList ++ formatOption repo.distribution ++ "/InRelease".toList

/-- `index_url().removesuffix("InRelease")`. -/
def distUrl (repo : RepoFields) : Str := repo.upstream ++ "/dists/".toList ++ formatOption repo.distribution ++ "/".toList

/-- `{repo.component}/binary-{repo.arch}/`. -/
def binaryPath (repo : RepoFields) : Str := formatOption repo.component ++ "/binary-".toList ++ repo.arch ++ "/".toList

/-- A file that the upstream does not have. -/
def isMissing (code : Nat) : Bool := code == 404 || code == 410

section
variable (lib : Library) (up : Upstream) (host : Host)

/-- The Release file of a repository without InRelease, if it has one. -/
def legacyRelease (repo : RepoFields) : Except FetchError (Option Bytes) :=
  match up.get (distUrl repo ++ "Release".toList) with
  | .body content => .ok (some content)
  | .status code => if isMissing code then .ok none else .error (.status code)
  | .failed => .error .transport

/-- The body of an InRelease file, verified where it is asked for. -/
def extractBody (repo : RepoFields) (raw : Bytes) : Except SignatureError Bytes :=
  if repo.verifySignature then verifyClearsigned (host.gpgv (keyringOf repo) none) raw else extractClearsignedBody raw

/-- The body of the Release file, if the repository has one. -/
def releaseBody (repo : RepoFields) : Except FetchError (Option Bytes) :=
  match up.get (indexUrl repo) with
  | .body raw => do
    let body ← raising .signature (extractBody host repo raw)
    return some body
  | .status code => if repo.verifySignature || !isMissing code then .error (.status code) else legacyRelease up repo
  | .failed => .error .transport

def filenames : List Str := ["Packages.gz", "Packages.xz", "Packages"].map String.toList

/-- The first of the files that the release lists, with its digest. -/
def listedIndex (body : Bytes) (path : Str) : List Str → Except FetchError (Str × Str)
  | [] => raiseSignature "No supported Packages index in Release SHA256 section".toList
  | filename :: filenames =>
    match findSha256InRelease body (path ++ filename) with
    | .ok digest => .ok (filename, digest)
    | .error _ => listedIndex body path filenames

/-- The file to read, with the digest it is to have. -/
def selectIndex (repo : RepoFields) : Option Bytes → Except FetchError (Str × Option Str)
  | none => .ok ("Packages.gz".toList, none)
  | some body => do
    let (filename, digest) ← listedIndex body (binaryPath repo) filenames
    if isSha256 digest = false then raiseSignature "Invalid SHA256 in Release".toList else return (filename, some digest)

/-- `\s` in bytes. -/
def isByteSpace (b : UInt8) : Bool := b == 32 || decide (9 ≤ b ∧ b ≤ 13)

/-- A letter of a word matched without regard to case. -/
def lowerByte (b : UInt8) : UInt8 := if 65 ≤ b ∧ b ≤ 90 then b + 32 else b

/-- The word begins the bytes, without regard to case. -/
def startsWithWord (word : String) (bs : Bytes) : Bool := (utf8Bytes word.toList).isPrefixOf (bs.map lowerByte)

/-- `(?mi)^Acquire-By-Hash:\s*yes\s*$` at a line start. -/
def acquiresByHash (bs : Bytes) : Bool :=
  let value := (bs.drop 16).dropWhile isByteSpace
  startsWithWord "acquire-by-hash:" bs && startsWithWord "yes" value && endsLine 10 isByteSpace (value.drop 3)

/-- The URL to try first. -/
def packagesUrl (repo : RepoFields) (body : Option Bytes) (filename : Str) (digest : Option Str) : Str :=
  let base := distUrl repo ++ binaryPath repo
  if (body.any fun body => (lineStarts 10 body).any acquiresByHash) = true then
    base ++ "by-hash/SHA256/".toList ++ formatOption digest
  else base ++ filename

/-- The bytes of the index; a mirror may lack the object of a hash. -/
def getPackages (url directUrl : Str) : Except FetchError Bytes :=
  match up.get url with
  | .body content => .ok content
  | .status code => if url = directUrl ∨ isMissing code = false then .error (.status code) else httpGet up directUrl
  | .failed => .error .transport

/-- `_decode_packages`. -/
def decodePackages (raw : Bytes) (filename : Str) : Except FetchError (List PackageRef) := do
  let data ←
    if ".gz".toList.isSuffixOf filename then decoded (lib.decompress .gzip raw)
    else if ".xz".toList.isSuffixOf filename then decoded (lib.decompress .xz raw)
    else .ok raw
  return parsePackages ⟨1024 * 1024, by decide⟩ data 4096

/-- The index has the digest that the release lists. -/
def checkDigest (repo : RepoFields) (raw : Bytes) (filename : Str) : Option Str → Except FetchError Unit
  | none => .ok ()
  | some expected =>
    let actual := lib.hexdigest "sha256".toList raw
    if actual ≠ expected then
      raiseSignature (repo.id ++ ": ".toList ++ filename ++ " SHA256 does not match Release (".toList ++ actual ++
        " != ".toList ++ expected ++ ") — possible tampering".toList)
    else .ok ()

/-- `AptParser.fetch_packages`. -/
def fetchPackages (repo : RepoFields) : Except FetchError (List PackageRef) := do
  let body ← releaseBody up host repo
  let (filename, digest) ← selectIndex repo body
  let raw ← getPackages up (packagesUrl repo body filename digest) (distUrl repo ++ binaryPath repo ++ filename)
  let _ ← checkDigest lib repo raw filename digest
  decodePackages lib raw filename

end

end Apt

/-! ## pacman -/

namespace Pacman

/-- `line.strip("%")`. -/
def stripPercent (s : Str) : Str := (s.dropWhile (· == '%')).rdropWhile (· == '%')

/-- The lines of a value, and the lines behind the empty one that ends it. -/
def valueLines : List Str → List Str × List Str
  | [] => ([], [])
  | line :: lines => if line = [] then ([], lines) else (line :: (valueLines lines).1, (valueLines lines).2)

theorem length_valueLines : ∀ lines : List Str, (valueLines lines).2.length ≤ lines.length
  | [] => le_refl 0
  | line :: lines => by
    have := length_valueLines lines
    rw [valueLines]
    split <;> simp only [List.length_cons] <;> omega

/-- The loop of `_parse_desc`. -/
def descFields (fields : Dict Str Str) : List Str → Dict Str Str
  | [] => fields
  | line :: lines =>
    if startsWith line ['%'] && ['%'].isSuffixOf line then
      descFields (fields.set (stripPercent line) (joinNewline (valueLines lines).1)) (valueLines lines).2
    else descFields fields lines
termination_by lines => lines.length
decreasing_by
  · have := length_valueLines lines
    simp only [List.length_cons]
    omega
  · simp only [List.length_cons]
    omega

/-- `_parse_desc`. -/
def parseDesc (text : Str) : Dict Str Str := descFields Table.empty (splitlines text)

/-- `_package`. -/
def packageOf (desc : Bytes) : Option PackageRef :=
  let fields := parseDesc (decodeReplace desc)
  match fields.lookup "NAME".toList, fields.lookup "VERSION".toList with
  | some name, some version =>
    if name ≠ [] ∧ version ≠ [] then
      some { name := name, version := version, filename := fields.lookup "FILENAME".toList,
             contentHash := (fields.lookup "SHA256SUM".toList).filter Apt.isSha256 }
    else none
  | _, _ => none

section
variable (lib : Library) (up : Upstream) (host : Host)

/-- The content of a member of a package database, if it is one. -/
def descContent (members : List Tar.Member) (entry : Tar.Member × Nat) : Except FetchError (Option Bytes) :=
  if descSuffix <:+ entry.1.name then raising .tar (Tar.extractfile members lib.recursionLimit entry.2) else .ok none

/-- `_parse_db_tar_gz_reference`. -/
def parseDbTarGzReference (raw : Bytes) : Except FetchError (List PackageRef) := do
  let members ← raising .tar (lib.gzipMembers raw)
  let contents ← members.zipIdx.mapM (descContent lib members)
  return contents.filterMap fun content => content.bind packageOf

/-- `_parse_db_tar_gz`. -/
def parseDbTarGz (raw : Bytes) : Except FetchError (List PackageRef) :=
  match descMembers (lib.gunzip raw) with
  | .ok bodies => .ok (bodies.filterMap packageOf)
  | .error _ => parseDbTarGzReference lib raw

def indexUrl (repo : RepoFields) : Str := repo.upstream ++ '/' :: formatOption repo.repoName ++ ".db.tar.gz".toList

/-- The verification of the database, where it is asked for. -/
def verify (repo : RepoFields) (raw : Bytes) : Except FetchError Unit :=
  if repo.verifySignature then do
    let signature ← httpGet up (indexUrl repo ++ ".sig".toList)
    let _ ← verifyDetached host raw signature (keyringOf repo)
    return ()
  else .ok ()

/-- `PacmanParser.fetch_packages`. -/
def fetchPackages (repo : RepoFields) : Except FetchError (List PackageRef) := do
  let raw ← httpGet up (indexUrl repo)
  let _ ← verify up host repo raw
  parseDbTarGz lib raw

end

end Pacman

/-! ## APT-RPM -/

namespace AptRpm

/-- An exception of the pkglist among those of a fetch. -/
def fetchError : PkglistError → FetchError
  | .signatureError message => .signature (.message message)
  | .valueError message => .value message
  | .unicodeError => .library
  | .structError => .library

def signatureMarker : Bytes := utf8Bytes "-----BEGIN PGP SIGNATURE-----".toList

/-- `release_body`: what stands before the signature, which is checked if there is a keyring. -/
def releaseBody (host : Host) (raw : Bytes) (keyring : Option Str) : Except FetchError Bytes :=
  let stop := find signatureMarker raw
  let body := raw.take (stop.getD raw.length)
  match keyring.filter (· ≠ []) with
  | none => .ok body
  | some keyring =>
    if stop = none then raiseSignature "apt-rpm: release has no appended OpenPGP signature".toList
    else do
      let _ ← verifyDetached host body (raw.drop (stop.getD raw.length)) keyring
      return body

def sectionAlgorithm (line : Str) : Option Str :=
  if line = "BLAKE2b:".toList then some "blake2b".toList
  else if line = "SHA256:".toList then some "sha256".toList
  else none

/-- The length of a hexadecimal digest. -/
def digestLength (algorithm : Str) : Nat := if algorithm = "blake2b".toList then 128 else 64

def rank (algorithm : Str) : Nat := if algorithm = "blake2b".toList then 2 else 1

/-- The entries read so far, and the algorithm of the section. -/
structure Checksums where
  entries : Dict Str Expected
  algorithm : Option Str

section
variable (lib : Library)

/-- An entry of a section. -/
def checksumEntry (algorithm line : Str) : Except FetchError (Str × Expected) :=
  match splitBlank line with
  | [digest, size, path] =>
    let isHexDigit := fun c : Char => c.isDigit || decide ('a' ≤ c ∧ c ≤ 'f') || decide ('A' ≤ c ∧ c ≤ 'F')
    if digest.length ≠ digestLength algorithm ∨ digest.all isHexDigit = false ∨ size.all lib.isdigit = false then
      raiseSignature "apt-rpm: malformed checksum/size".toList
    else (intOf size).map fun n => (path, ⟨algorithm, asciiLower digest, n.toNat⟩)
  | _ => raiseSignature "apt-rpm: malformed checksum entry".toList

/-- An entry among those before it: the better algorithm stays. -/
def addChecksum (entries : Dict Str Expected) (path : Str) (entry : Expected) : Except FetchError (Dict Str Expected) :=
  match entries.lookup path with
  | none => .ok (entries.set path entry)
  | some previous =>
    if previous.algorithm = entry.algorithm then raiseSignature "apt-rpm: duplicate checksum entry".toList
    else .ok (if rank entry.algorithm < rank previous.algorithm then entries else entries.set path entry)

/-- One round of the loop over the lines. -/
def Checksums.readLine (c : Checksums) (line : Str) : Except FetchError Checksums :=
  if !(startsWith line [' '] || startsWith line ['\t']) then .ok { c with algorithm := sectionAlgorithm line }
  else match c.algorithm with
    | none => .ok c
    | some algorithm => do
      let (path, entry) ← checksumEntry lib algorithm line
      let entries ← addChecksum c.entries path entry
      return { c with entries := entries }

/-- `checksums`. -/
def checksums (body : Bytes) : Except FetchError (Dict Str Expected) := do
  let text ← decoded (decodeStrict body)
  let read ← (splitlines text).foldlM (Checksums.readLine lib) ⟨Table.empty, none⟩
  return read.entries

def suffixes : List Str := [".xz", ".bz2", ".gz", ""].map String.toList

/-- `_check`. -/
def checkPkglist (raw : Bytes) (expected : Expected) : Except FetchError Unit :=
  if raw.length ≠ expected.size ∨ lib.hexdigest expected.algorithm raw ≠ expected.digest then
    raiseSignature "apt-rpm: pkglist checksum/size mismatch".toList
  else .ok ()

/-- What a compressed pkglist expands to. -/
def expandPkglist (raw : Bytes) (suffix : Str) : Except FetchError Bytes :=
  if suffix = ".gz".toList then decoded (lib.decompress .gzip raw)
  else if suffix = ".xz".toList then decoded (lib.decompress .xz raw)
  else if suffix = ".bz2".toList then decoded (lib.decompress .bz2 raw)
  else .ok raw

variable (up : Upstream) (host : Host)

def indexUrl (repo : RepoFields) : Str := rstripSlash repo.upstream ++ "/base/release".toList

/-- The pkglist of the first suffix that the release lists, with what it expands to if that is listed as well. -/
def fetchPkglist (repo : RepoFields) (body : Bytes) : Except FetchError (List PackageRef) := do
  let entries ← checksums lib body
  let base := "base/pkglist.".toList ++ formatOption repo.component
  match suffixes.find? fun suffix => (entries.lookup (base ++ suffix)).isSome with
  | none => raiseSignature "apt-rpm: release has no SHA256/BLAKE2b entry for pkglist".toList
  | some suffix =>
    let raw ← httpGet up (rstripSlash repo.upstream ++ '/' :: base ++ suffix)
    match entries.lookup (base ++ suffix) with
    | none => .error .library
    | some expected =>
      let _ ← checkPkglist lib raw expected
      let content ← expandPkglist lib raw suffix
      raising fetchError (parsePkglist lib.hexdigest (entries.lookup base) repo.arch (formatOption repo.component) content)

/-- `AptRpmParser.fetch_packages`. -/
def fetchPackages (repo : RepoFields) : Except FetchError (List PackageRef) := do
  let release ← httpGet up (indexUrl repo)
  let body ← releaseBody host release (if repo.verifySignature then repo.keyringPath else none)
  fetchPkglist lib up repo body

end

end AptRpm

/-! ## Two fetches -/

section
variable {lib : Library} {up : Upstream} {host host' : Host} {a b : RepoFields}

/-- **A body that gpgv has accepted** is the one that is taken without it. -/
theorem Apt.extractBody_ok {raw body : Bytes} (h : Apt.extractBody host a raw = .ok body) :
    extractClearsignedBody raw = .ok body := by
  unfold Apt.extractBody at h
  split at h
  · obtain ⟨-, -, h⟩ := bind_eq_ok.1 h
    exact h
  · exact h

theorem Apt.extractBody_agree (raw : Bytes) : Agree (Apt.extractBody host a raw) (Apt.extractBody host' b raw) := fun _ _ h h' =>
  Agree.refl _ (Apt.extractBody_ok h) (Apt.extractBody_ok h')

/-- **One release for all who get one**: a verified file, the same file unverified, or the one of a legacy repository. -/
theorem Apt.releaseBody_agree (hupstream : a.upstream = b.upstream) (hdistribution : a.distribution = b.distribution) :
    Agree (Apt.releaseBody up host a) (Apt.releaseBody up host' b) := by
  have hurl : Apt.indexUrl a = Apt.indexUrl b := by rw [Apt.indexUrl, hupstream, hdistribution, Apt.indexUrl]
  have hlegacy : Apt.legacyRelease up a = Apt.legacyRelease up b := by
    unfold Apt.legacyRelease Apt.distUrl
    rw [hupstream, hdistribution]
  unfold Apt.releaseBody
  rw [hurl]
  cases up.get (Apt.indexUrl b) with
  | body raw => exact (raising_agree (Apt.extractBody_agree raw)).bind fun _ => .refl _
  | status code =>
    dsimp only
    rw [hlegacy]
    exact Agree.guard (.refl _)
  | failed => exact .refl _

theorem Apt.fetchPackages_agree (hid : a.id = b.id) (hupstream : a.upstream = b.upstream) (harch : a.arch = b.arch)
    (hdistribution : a.distribution = b.distribution) (hcomponent : a.component = b.component) :
    Agree (Apt.fetchPackages lib up host a) (Apt.fetchPackages lib up host' b) := by
  have hbinary : Apt.binaryPath a = Apt.binaryPath b := by rw [Apt.binaryPath, hcomponent, harch, Apt.binaryPath]
  have hdist : Apt.distUrl a = Apt.distUrl b := by rw [Apt.distUrl, hupstream, hdistribution, Apt.distUrl]
  unfold Apt.fetchPackages
  refine (Apt.releaseBody_agree hupstream hdistribution).bind fun body => ?_
  unfold Apt.selectIndex Apt.packagesUrl Apt.checkDigest
  rw [hbinary, hdist, hid]
  exact .refl _

/-- **A verified database** is read like any other. -/
theorem Pacman.fetchPackages_agree (hupstream : a.upstream = b.upstream) (hrepoName : a.repoName = b.repoName) :
    Agree (Pacman.fetchPackages lib up host a) (Pacman.fetchPackages lib up host' b) := by
  have hurl : Pacman.indexUrl a = Pacman.indexUrl b := by rw [Pacman.indexUrl, hupstream, hrepoName, Pacman.indexUrl]
  unfold Pacman.fetchPackages
  rw [hurl]
  exact (Agree.refl _).bind fun raw => (Agree.check _ _).bind fun _ => .refl _

/-- The body of a release does not depend on the keyring. -/
theorem AptRpm.releaseBody_agree (raw : Bytes) (keyring keyring' : Option Str) :
    Agree (AptRpm.releaseBody host raw keyring) (AptRpm.releaseBody host' raw keyring') := by
  have hbody : ∀ {host keyring body}, AptRpm.releaseBody host raw keyring = .ok body →
      body = raw.take ((find AptRpm.signatureMarker raw).getD raw.length) := by
    intro host keyring body h
    unfold AptRpm.releaseBody at h
    dsimp only at h
    split at h
    · exact (Except.ok.inj h).symm
    · split at h
      · cases h
      · obtain ⟨-, -, h⟩ := bind_eq_ok.1 h
        exact (Except.ok.inj h).symm
  intro body body' h h'
  rw [hbody h, hbody h']

theorem AptRpm.fetchPackages_agree (hupstream : a.upstream = b.upstream) (harch : a.arch = b.arch)
    (hcomponent : a.component = b.component) :
    Agree (AptRpm.fetchPackages lib up host a) (AptRpm.fetchPackages lib up host' b) := by
  have hpkglist : AptRpm.fetchPkglist lib up a = AptRpm.fetchPkglist lib up b := by
    unfold AptRpm.fetchPkglist
    rw [hupstream, harch, hcomponent]
  unfold AptRpm.fetchPackages AptRpm.indexUrl
  rw [hupstream, hpkglist]
  exact (Agree.refl _).bind fun release => (AptRpm.releaseBody_agree release _ _).bind fun _ => .refl _

end

end RepoWatch
