import RepoWatch.AptPackages
import RepoWatch.Gentoo
import RepoWatch.Lib.Regex
import RepoWatch.Parsers
/-!
# PackageLists — the indexes of Gentoo, Slackware and XBPS

Each is one document: records of fields, blocks of a text, or a property list in an archive.  Only the one of Slackware may be
verified, against a signed list of checksums.
-/
namespace RepoWatch

open Lib Lib.Utf8

/-! ## Gentoo -/

namespace Gentoo

/-- `[A-Za-z0-9_+.-]`. -/
def isNameChar (c : Char) : Bool := c.isAlphanum || ['_', '+', '.', '-'].contains c

/-- A category and a package. -/
def isPackageName (s : Str) : Bool :=
  match s.splitOn '/' with
  | [category, package] => category ≠ [] && package ≠ [] && category.all isNameChar && package.all isNameChar
  | _ => false

def digitRegex : Regex := .char Char.isDigit

/-- The second group of `_CPV`. -/
def versionRegex : Regex :=
  .seqs [.plus digitRegex, .star (.seq (.lit ['.']) (.plus digitRegex)), .opt (.char Char.isLower),
    .star (.seqs [.lit ['_'], .words (["alpha", "beta", "pre", "rc", "p"].map String.toList), .star digitRegex]),
    .opt (.seq (.lit "-r".toList) (.plus digitRegex))]

def isVersion (s : Str) : Bool := ([] : Str) ∈ versionRegex.rests s

/-- The groups of `_CPV`, matched whole: the first one takes as much as it can. -/
def splitCpv (cpv : Str) : Option (Str × Str) :=
  ((List.range cpv.length).reverse.find? fun i =>
      cpv[i]? == some '-' && isPackageName (cpv.take i) && isVersion (cpv.drop (i + 1))).map
    fun i => (cpv.take i, cpv.drop (i + 1))

/-- The finished records and the current one. -/
structure Records where
  records : List (Dict Str Str)
  current : Dict Str Str

/-- One round of the loop over the lines. -/
def Records.readLine (r : Records) (line : Str) : Except FetchError Records :=
  if strip line = [] then .ok (if r.current.rows = [] then r else ⟨r.records ++ [r.current], Table.empty⟩)
  else match partitionField line with
    | (_, none) => raiseValue "gentoo: malformed or duplicate index field".toList
    | (key, some value) =>
      if (r.current.lookup key).isSome then raiseValue "gentoo: malformed or duplicate index field".toList
      else .ok { r with current := r.current.set key (strip value) }

/-- The build of a package as a part of its version. -/
def buildSuffix (build : Str) : Except FetchError Str :=
  if build = [] then .ok []
  else if build.all Char.isDigit = false then raiseValue "gentoo: invalid BUILD_ID".toList
  else do
    let number ← intOf build
    if number < 1 then raiseValue "gentoo: invalid BUILD_ID".toList
    else return "-build".toList ++ (toString number).toList

def suffixes : List Str := [".gpkg.tar", ".tbz2", ".xpak"].map String.toList

/-- The package of an entry. -/
def entryRef (entry : Dict Str Str) : Except FetchError PackageRef := do
  let field := fun name : String => (entry.lookup name.toList).getD []
  let cpv := field "CPV"
  match splitCpv cpv with
  | none => raiseValue ("gentoo: invalid CPV: ".toList ++ reprStr cpv)
  | some (name, version) =>
    let build ← buildSuffix (field "BUILD_ID")
    let filename ← safePackagePath (if field "PATH" ≠ [] then field "PATH" else cpv ++ ".tbz2".toList)
    if (suffixes.any fun suffix => suffix.isSuffixOf filename) = false then
      raiseValue "gentoo: unsupported binary package suffix".toList
    else
      let digest := entry.lookup "SHA256".toList
      if (digest.any fun d => !Apt.isSha256 d) = true then raiseValue "gentoo: invalid SHA256".toList
      else return { name := name, version := version ++ build, filename := some filename, contentHash := digest.map asciiLower }

/-- One round of the loop over the entries. -/
def addEntry (packages : List PackageRef) (entry : Dict Str Str) : Except FetchError (List PackageRef) := do
  let package ← entryRef entry
  if package.key ∈ packages.map PackageRef.key then raiseValue "gentoo: duplicate package instance".toList
  else return packages ++ [package]

section
variable (lib : Library)

/-- The header of the index is the one of this source and counts the entries. -/
def checkHeader (header : Dict Str Str) (count : Nat) (upstream : Str) : Except FetchError Unit := do
  if header.lookup "VERSION".toList ≠ some ['0'] then raiseValue "gentoo: expected Packages index version 0".toList
  else if rstripSlash ((header.lookup "URI".toList).getD upstream) ≠ rstripSlash upstream then
    raiseValue "gentoo: alternate index URI is unsupported; use a binhost with local package paths".toList
  else
    let packages := (header.lookup "PACKAGES".toList).getD []
    if packages = [] ∨ packages.all lib.isdigit = false then
      raiseValue "gentoo: package count does not match the index".toList
    else
      let declared ← intOf packages
      if declared ≠ count then raiseValue "gentoo: package count does not match the index".toList else return ()

/-- `_parse_packages`. -/
def parsePackages (raw : Bytes) (upstream : Str) : Except FetchError (List PackageRef) := do
  let generated := lines (1024 * 1024) raw
  let read ← generated.yielded.foldlM Records.readLine ⟨[], Table.empty⟩
  if generated.raised = true then .error .library
  else match read.records with
    | [] => raiseValue "gentoo: expected Packages index version 0".toList
    | header :: entries =>
      let _ ← checkHeader lib header entries.length upstream
      entries.foldlM addEntry []

def indexUrl (repo : RepoFields) : Str := rstripSlash repo.upstream ++ "/Packages".toList

/-- `GentooParser.fetch_packages`. -/
def fetchPackages (up : Upstream) (repo : RepoFields) : Except FetchError (List PackageRef) := do
  let raw ← httpGet up (indexUrl repo)
  parsePackages lib raw repo.upstream

end

end Gentoo

/-! ## Slackware -/

namespace Slackware

def packageName : Str := "PACKAGE NAME:".toList

/-- `re.split` at the package names: what stands before the first one, and what follows each. -/
def splitNames (atStart : Bool) (s : Str) : List Str :=
  if _h : atStart = true ∧ packageName <+: s then
    [] :: splitNames false ((s.drop packageName.length).dropWhile (· == ' '))
  else match s with
    | [] => [[]]
    | c :: s =>
      match splitNames (c == '\n') s with
      | [] => [[c]]
      | block :: blocks => (c :: block) :: blocks
termination_by s.length
decreasing_by
  · have hlength := _h.2.length_le
    have hdrop := (List.dropWhile_suffix (· == ' ') (l := s.drop packageName.length)).length_le
    have hpositive : 0 < packageName.length := by decide
    rw [List.length_drop] at hdrop
    omega
  · exact Nat.lt_succ_self _

/-- The summary at a line start: a number of megabytes. -/
def isSummary (s : Str) : Bool :=
  let lead := "Total size of all packages (compressed):".toList
  let rest := s.drop lead.length
  let number := rest.dropWhile (· == ' ')
  let unit := number.dropWhile Char.isDigit
  let tail := unit.drop 3
  startsWith s lead && decide (number.length < rest.length) && decide (unit.length < number.length) &&
    startsWith unit " MB".toList && (tail.isEmpty || startsWith tail ['\n'])

/-- The location at a line start. -/
def locationAt (s : Str) : Option Str :=
  let lead := "PACKAGE LOCATION:".toList
  let rest := (s.drop lead.length).dropWhile (· == ' ')
  let location := rest.takeWhile fun c => !isSpace c
  if (startsWith s lead && decide (location ≠ []) && endsLine '\n' isSpace (rest.drop location.length)) = true then some location
  else none

/-- `s.rsplit('-', 3)` where it has four parts. -/
def rsplitThree (s : Str) : Option (Str × Str × Str × Str) :=
  match (s.splitOn '-').reverse with
  | build :: arch :: version :: name :: front => some (['-'].intercalate (name :: front).reverse, version, arch, build)
  | _ => none

def suffixes : List Str := [".tgz", ".txz", ".tlz", ".tbz"].map String.toList

/-- The path of a file at its location. -/
def locatedPath (block filename : Str) : Except FetchError Str :=
  let metadata := block.take ((find "PACKAGE DESCRIPTION:".toList block).getD block.length)
  match (lineStarts '\n' metadata).filterMap locationAt with
  | [location] =>
    let location := if startsWith location "./".toList then location.drop 2 else location
    safePackagePath (if location ≠ [] then location ++ '/' :: filename else filename)
  | _ => raiseValue "slackware: missing or duplicate package location".toList

/-- The package of a block; `none` for another architecture. -/
def blockRef (arch block : Str) : Except FetchError (Option PackageRef) := do
  match splitlines block with
  | [] => .error .library
  | line :: _ =>
    let filename ← safePackagePath (strip line)
    if '/' ∈ filename ∨ (suffixes.any fun suffix => suffix.isSuffixOf filename) = false then
      raiseValue "slackware: invalid package filename".toList
    else match rsplitThree (filename.take (filename.length - 4)) with
      | none => raiseValue "slackware: expected name-version-arch-build filename".toList
      | some (name, version, packageArch, build) =>
        if name = [] ∨ version = [] ∨ packageArch = [] ∨ build = [] then
          raiseValue "slackware: expected name-version-arch-build filename".toList
        else
          let path ← locatedPath block filename
          if packageArch ≠ arch ∧ packageArch ≠ "noarch".toList ∧ packageArch ≠ "fw".toList then return none
          else return some { name := name, version := version ++ '-' :: packageArch ++ '-' :: build, filename := some path }

/-- One round of the loop over the blocks. -/
def addBlock (arch : Str) (packages : List PackageRef) (block : Str) : Except FetchError (List PackageRef) := do
  let package ← blockRef arch block
  match package with
  | none => return packages
  | some package =>
    if package.key ∈ packages.map PackageRef.key then
      raiseValue "slackware: duplicate package identity; configure components separately".toList
    else return packages ++ [package]

/-- `_parse_packages`. -/
def parsePackages (raw : Bytes) (arch : Str) : Except FetchError (List PackageRef) := do
  let text ← decoded (decodeStrict raw)
  if startsWith (text.dropWhile isSpace) "PACKAGES.TXT;".toList = false then
    raiseValue "slackware: missing PACKAGES.TXT header".toList
  else if (lineStarts '\n' text).any isSummary = false then raiseValue "slackware: missing package size summary".toList
  else (splitNames true text).tail.foldlM (addBlock arch) []

/-- An entry of the list of checksums: the digest and the path. -/
def checksumLine (line : Str) : Option (Str × Str) :=
  let digest := line.take 32
  let mark := line.getD 33 'x'
  let filename := line.drop 34
  if digest.length = 32 ∧ digest.all (fun c => c.isDigit || decide ('a' ≤ c ∧ c ≤ 'f') || decide ('A' ≤ c ∧ c ≤ 'F')) ∧
      (line.drop 32).head? = some ' ' ∧ (mark = ' ' ∨ mark = '*') ∧ filename ≠ [] then
    some (asciiLower digest, if startsWith filename "./".toList then filename.drop 2 else filename)
  else none

section
variable (lib : Library) (host : Host)

/-- `_check_index`. -/
def checkIndex (raw checksums : Bytes) (indexPath : Str) : Except FetchError Unit := do
  let text ← decoded (decodeStrict checksums)
  let found := ((splitlines text).filterMap checksumLine).filter fun entry => entry.2 = indexPath
  if found.map Prod.fst = [lib.hexdigest "md5".toList raw] then return ()
  else raiseSignature ("slackware: missing, ambiguous or mismatched checksum for ".toList ++ indexPath)

/-- `index_path`. -/
def indexPath (repo : RepoFields) : Str :=
  match repo.component with
  | some (c :: component) => c :: component ++ "/PACKAGES.TXT".toList
  | _ => "PACKAGES.TXT".toList

def indexUrl (repo : RepoFields) : Str := rstripSlash repo.upstream ++ '/' :: indexPath repo

/-- The verification of the index, where it is asked for. -/
def verify (up : Upstream) (repo : RepoFields) (raw : Bytes) : Except FetchError Unit :=
  if repo.verifySignature then do
    let root := rstripSlash repo.upstream
    let checksums ← httpGet up (root ++ "/CHECKSUMS.md5".toList)
    let signature ← httpGet up (root ++ "/CHECKSUMS.md5.asc".toList)
    let _ ← verifyDetached host checksums signature (keyringOf repo)
    checkIndex lib raw checksums (indexPath repo)
  else .ok ()

/-- `SlackwareParser.fetch_packages`. -/
def fetchPackages (up : Upstream) (repo : RepoFields) : Except FetchError (List PackageRef) := do
  let raw ← httpGet up (indexUrl repo)
  let _ ← verify lib host up repo raw
  parsePackages raw repo.arch

end

end Slackware

/-! ## XBPS -/

namespace Xbps

section
variable (lib : Library) (host : Host)

/-- `_decompress`. -/
def decompress (raw : Bytes) : Except FetchError Bytes :=
  unzstd lib host "xbps: repodata is Zstandard-compressed — install the system 'zstd' package".toList
    "xbps: failed to run zstd: ".toList raw

/-- The package of an entry of the property list. -/
def entryRef (entry : Option Str × Plist) : Except FetchError PackageRef :=
  match entry with
  | (some (c :: name), .dict info) =>
    let pkgname := c :: name
    let info := Dict.ofPairs info
    match info.lookup (some "pkgver".toList) with
    | some (.string pkgver) =>
      if startsWith pkgver (pkgname ++ ['-']) = false then
        raiseValue ("xbps: pkgver does not match package name: ".toList ++ reprStr pkgname)
      else
        let version := pkgver.drop (pkgname.length + 1)
        if version = [] then raiseValue ("xbps: empty version for ".toList ++ reprStr pkgname)
        else match info.lookup (some "architecture".toList) with
          | some (.string (a :: arch)) =>
            let contentHash :=
              match info.lookup (some "filename-sha256".toList) with
              | some (.string digest) => if Apt.isSha256 digest then some digest else none
              | _ => none
            .ok {
              name := pkgname
              version := version
              filename := some (pkgver ++ '.' :: a :: arch ++ ".xbps".toList)
              contentHash := contentHash }
          | _ => raiseValue ("xbps: missing architecture for ".toList ++ reprStr pkgname)
    | _ => raiseValue ("xbps: pkgver does not match package name: ".toList ++ reprStr pkgname)
  | _ => raiseValue "xbps: malformed index.plist entry".toList

/-- The property list in the archive. -/
def indexPlist (members : List Tar.Member) : Except FetchError Plist := do
  let name := utf8Bytes "index.plist".toList
  if (members.find? fun m => m.name == name).any (fun m => ([48, 0, 55, 83] : List UInt8).contains m.type) = false then
    raiseValue "xbps: index.plist not found inside repodata".toList
  else
    let extracted ← raising .tar (lib.readMember members name)
    match extracted with
    | none => raiseValue "xbps: index.plist has no content".toList
    | some content => decoded (lib.loadPlist content)

/-- `_parse_repodata`. -/
def parseRepodata (raw : Bytes) : Except FetchError (List PackageRef) := do
  let decompressed ← decompress lib host raw
  let members ← raising .tar (lib.membersOf decompressed)
  let data ← indexPlist lib members
  match data with
  | .dict items => items.mapM entryRef
  | _ => raiseValue "xbps: index.plist root is not a dict".toList

def indexUrl (repo : RepoFields) : Str := rstripSlash repo.upstream ++ '/' :: repo.arch ++ "-repodata".toList

/-- `XbpsParser.fetch_packages`. -/
def fetchPackages (up : Upstream) (repo : RepoFields) : Except FetchError (List PackageRef) := do
  let raw ← httpGet up (indexUrl repo)
  parseRepodata lib host raw

end

end Xbps

/-! ## Two fetches -/

section
variable {lib : Library} {up : Upstream} {host host' : Host} {a b : RepoFields}

theorem Gentoo.fetchPackages_eq (hupstream : a.upstream = b.upstream) :
    Gentoo.fetchPackages lib up a = Gentoo.fetchPackages lib up b := by
  unfold Gentoo.fetchPackages Gentoo.indexUrl
  rw [hupstream]

/-- **A verified index** is read like any other. -/
theorem Slackware.fetchPackages_agree (hupstream : a.upstream = b.upstream) (harch : a.arch = b.arch)
    (hcomponent : a.component = b.component) :
    Agree (Slackware.fetchPackages lib host up a) (Slackware.fetchPackages lib host' up b) := by
  unfold Slackware.fetchPackages Slackware.indexUrl Slackware.indexPath
  rw [hupstream, harch, hcomponent]
  exact (Agree.refl _).bind fun raw => (Agree.check _ _).bind fun _ => .refl _

theorem Xbps.fetchPackages_agree (hupstream : a.upstream = b.upstream) (harch : a.arch = b.arch) :
    Agree (Xbps.fetchPackages lib host up a) (Xbps.fetchPackages lib host' up b) := by
  unfold Xbps.fetchPackages Xbps.indexUrl
  rw [hupstream, harch]
  exact (Agree.refl _).bind fun raw => (unzstd_agree _ _ raw).bind fun _ => .refl _

end

end RepoWatch
