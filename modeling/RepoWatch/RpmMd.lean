import RepoWatch.AptPackages
import RepoWatch.Parsers
/-!
# RpmMd — repomd.xml and the primary metadata it names

repomd.xml names the primary XML with its checksums, and the primary lists the packages of all architectures.  Only the
signature of repomd.xml depends on the settings, and it takes a fetch down or leaves it as it is (`fetchPackages_agree`).
-/
namespace RepoWatch
namespace RpmMd

/-! ## Elements -/

/-- `_REPO`. -/
def repoName (name : String) : Str := "\x7bhttp://linux.duke.edu/metadata/repo\x7d".toList ++ name.toList

/-- `_COMMON`. -/
def commonName (name : String) : Str := "\x7bhttp://linux.duke.edu/metadata/common\x7d".toList ++ name.toList

/-- `_XML_BASE`. -/
def xmlBase : Str := "\x7bhttp://www.w3.org/XML/1998/namespace\x7dbase".toList

end RpmMd

namespace Element

def tag : Element → Str
  | .node tag _ _ _ => tag

def text : Element → Option Str
  | .node _ _ text _ => text

def attrib : Element → List (Str × Str)
  | .node _ attrib _ _ => attrib

def children : Element → List Element
  | .node _ _ _ children => children

/-- `element.get(name)`. -/
def get (e : Element) (name : Str) : Option Str := (e.attrib.find? fun p => p.1 == name).map Prod.snd

/-- `element.find(tag)`. -/
def child (e : Element) (tag : Str) : Option Element := e.children.find? fun c => c.tag == tag

/-- `element.findtext(tag)`. -/
def childText (e : Element) (tag : Str) : Option Str := (e.child tag).map fun c => c.text.getD []

def hasBase (e : Element) : Bool := (e.get RpmMd.xmlBase).isSome

end Element

/-- What a parser of XML reports: where an element starts, and where it ends. -/
inductive XmlEvent where
  | start (e : Element)
  | stop (e : Element)

mutual

/-- The events of an element, in the order of the document. -/
def Element.events : Element → List XmlEvent
  | .node tag attrib text children =>
    .start (.node tag attrib text children) :: (childEvents children ++ [.stop (.node tag attrib text children)])

def childEvents : List Element → List XmlEvent
  | [] => []
  | e :: es => e.events ++ childEvents es

end

namespace RpmMd

open Lib

/-! ## repomd.xml -/

/-- `PrimaryMetadata`; a checksum is its algorithm and the digest. -/
structure PrimaryMetadata where
  href : Str
  checksum : Str × Str
  size : Option Int
  openChecksum : Option (Str × Str)
  openSize : Option Int

/-- `_relative_path`. -/
def relativePath (value : Option Str) : Except FetchError Str :=
  let value := value.getD []
  if value = [] ∨ (value.any fun c => isSpace c || decide (c.toNat < 32)) = true then
    raiseValue "dnf: empty or invalid location href".toList
  else if urlsplitOk value = false then .error .library
  else
    let parsed := urlsplit value
    if parsed.scheme ≠ [] ∨ parsed.netloc ≠ [] ∨ parsed.query ≠ [] ∨ parsed.fragment ≠ [] ∨ startsWith value ['/'] ∨
      '\\' ∈ value ∨
        '%' ∈ value then
      raiseValue ("dnf: location must be a relative path: ".toList ++ reprStr value)
    else
      let parts := (value.splitOn '/').filter fun part => part ≠ [] && part ≠ ['.']
      if ['.', '.'] ∈ parts ∨ parts = [] then raiseValue ("dnf: location escapes the repository: ".toList ++ reprStr value)
      else .ok (['/'].intercalate parts)

/-- The algorithms with the lengths of their hexadecimal digests. -/
def digestLengths : List (Str × Nat) :=
  [("sha256".toList, 64), ("sha512".toList, 128), ("sha384".toList, 96), ("sha224".toList, 56), ("sha1".toList, 40),
   ("md5".toList, 32)]

section
variable (lib : Library)

/-- `_checksum` of an element that is there. -/
def checksumOf (e : Element) : Except FetchError (Str × Str) :=
  let algorithm := lib.lower ((e.get "type".toList).getD [])
  let algorithm := if algorithm = "sha".toList then "sha1".toList else algorithm
  match digestLengths.lookup algorithm with
  | none => raiseSignature ("dnf: unsupported checksum type ".toList ++ reprStr algorithm)
  | some length =>
    let digest := lib.lower (strip (e.text.getD []))
    if digest.length ≠ length ∨ digest.all isHex = false then raiseSignature "dnf: invalid checksum in repomd.xml".toList
    else .ok (algorithm, digest)

/-- `_checksum` of an element that must be there. -/
def requiredChecksum : Option Element → Except FetchError (Str × Str)
  | none => raiseSignature "dnf: repomd.xml is missing the primary checksum".toList
  | some e => checksumOf lib e

/-- `_checksum` of an element that may be missing. -/
def optionalChecksum : Option Element → Except FetchError (Option (Str × Str))
  | none => .ok none
  | some e => (checksumOf lib e).map some

/-- `_size`. -/
def sizeOf : Option Element → Except FetchError (Option Int)
  | none => .ok none
  | some e =>
    let text := strip (e.text.getD [])
    if isDecimal text = false then raiseValue "dnf: invalid primary size in repomd.xml".toList else (intOf text).map some

/-- Some element has an `xml:base`. -/
def anyBase (events : List XmlEvent) : Bool :=
  events.any fun event =>
    match event with
    | .start e => e.hasBase
    | .stop _ => false

/-- `_parse_repomd`. -/
def parseRepomd (raw : Bytes) : Except FetchError PrimaryMetadata := do
  let root ← decoded (lib.parseXml raw)
  if root.tag ≠ repoName "repomd" then raiseValue "dnf: expected a repomd root with the RPM-MD namespace".toList
  else if anyBase root.events = true then raiseValue "dnf: xml:base is not supported, a single upstream is required".toList
  else match root.children.filter fun data => data.tag == repoName "data" && data.get "type".toList == some "primary".toList with
    | [primary] =>
      let href ← relativePath ((primary.child (repoName "location")).bind fun location => location.get "href".toList)
      let checksum ← requiredChecksum lib (primary.child (repoName "checksum"))
      let openChecksum ← optionalChecksum lib (primary.child (repoName "open-checksum"))
      let size ← sizeOf (primary.child (repoName "size"))
      let openSize ← sizeOf (primary.child (repoName "open-size"))
      return ⟨href, checksum, size, openChecksum, openSize⟩
    | _ => raiseValue "dnf: repomd.xml must contain exactly one data type=primary (XML)".toList

end

/-! ## The primary -/

/-- The version, the release and the epoch of a package. -/
def evrFields (version : Element) : Except FetchError (Str × Str × Str) :=
  let ver := (version.get "ver".toList).getD []
  let release := (version.get "rel".toList).getD []
  let epoch := (version.get "epoch".toList).getD ['0']
  if ver = [] ∨ release = [] ∨ isDecimal epoch = false then raiseValue "dnf: invalid package EVR".toList
  else .ok (ver, release, epoch)

/-- The SHA-256 of a package, where its checksum is one. -/
def contentHashOf (package : Element) : Option Str :=
  match package.child (commonName "checksum") with
  | none => none
  | some checksum =>
    if checksum.get "type".toList = some "sha256".toList then checksum.text.filter Apt.isSha256 else none

/-- The package of an element; `none` for another architecture. -/
def packageOf (arch : Str) (package : Element) : Except FetchError (Option PackageRef) := do
  if package.get "type".toList ≠ some "rpm".toList then raiseValue "dnf: unknown package type".toList
  else match package.childText (commonName "name"), package.childText (commonName "arch"),
    package.child (commonName "version") with
    | some (n :: name), some (a :: packageArch), some version =>
      let (ver, release, epoch) ← evrFields version
      let filename ← relativePath ((package.child (commonName "location")).bind fun location => location.get "href".toList)
      if a :: packageArch = arch ∨ a :: packageArch = "noarch".toList then
        let number ← intOf epoch
        let evr := (if number ≠ 0 then (toString number).toList ++ [':'] else []) ++ ver ++ '-' :: release ++
          '.' :: a :: packageArch
        return some { name := n :: name, version := evr, filename := some filename, contentHash := contentHashOf package }
      else return none
    | _, _, _ => raiseValue "dnf: package missing name/arch/version".toList

/-- The packages of the architecture, and how many there were of all. -/
structure Seen where
  packages : List PackageRef
  seen : Nat

/-- One round of the loop over the events behind the start of the root. -/
def Seen.read (arch : Str) (s : Seen) : XmlEvent → Except FetchError Seen
  | .start e =>
    if e.hasBase = true then raiseValue "dnf: xml:base is not supported, a single upstream is required".toList else .ok s
  | .stop e =>
    if e.tag ≠ commonName "package" then .ok s
    else do
      let package ← packageOf arch e
      match package with
      | none => return { s with seen := s.seen + 1 }
      | some package =>
        if package.key ∈ s.packages.map PackageRef.key then raiseValue ("dnf: duplicate NEVRA ".toList ++ reprStr package.key)
        else return ⟨s.packages ++ [package], s.seen + 1⟩

/-- The root is the one of a primary, with the number of packages if it says one. -/
def checkRoot (root : Element) : Except FetchError (Option Str) :=
  if root.tag ≠ commonName "metadata" then raiseValue "dnf: expected a metadata root with the RPM-MD namespace".toList
  else if root.hasBase = true then raiseValue "dnf: xml:base is not supported, a single upstream is required".toList
  else if ((root.get "packages".toList).any fun count => !isDecimal count) = true then
    raiseValue "dnf: invalid packages count".toList
  else .ok (root.get "packages".toList)

/-- The number of packages is the declared one. -/
def checkCount (seen : Nat) : Option Str → Except FetchError Unit
  | none => .ok ()
  | some count => do
    let declared ← intOf count
    if (seen : Int) ≠ declared then raiseValue "dnf: package count does not match metadata packages".toList else return ()

/-- `_parse_primary`. -/
def parsePrimary (root : Element) (arch : Str) : Except FetchError (List PackageRef) := do
  let count ← checkRoot root
  let read ← root.events.tail.foldlM (Seen.read arch) ⟨[], 0⟩
  let _ ← checkCount read.seen count
  return read.packages

section
variable (lib : Library) (up : Upstream) (host : Host)

/-- `_open_primary`, read to its end. -/
def openPrimary (raw : Bytes) (href : Str) : Except FetchError Bytes :=
  let hasSuffix := fun suffix : String => suffix.toList.isSuffixOf href
  if hasSuffix ".gz" then decoded (lib.decompress .gzip raw)
  else if hasSuffix ".xz" then decoded (lib.decompress .xz raw)
  else if hasSuffix ".bz2" then decoded (lib.decompress .bz2 raw)
  else if hasSuffix ".zst" || hasSuffix ".zstd" then
    unzstd lib host "dnf: primary is Zstandard-compressed — install the system \"zstd\" package".toList
      "dnf: zstd decompression failed: ".toList raw
  else if hasSuffix ".xml" then .ok raw
  else raiseValue ("dnf: unsupported primary compression: ".toList ++ reprStr href)

/-- `_verify_bytes`. -/
def verifyBytes (raw : Bytes) (metadata : PrimaryMetadata) : Except FetchError Unit :=
  if (metadata.size.any fun size => decide ((raw.length : Int) ≠ size)) = true then
    raiseSignature "dnf: primary size does not match repomd.xml".toList
  else if lib.hexdigest metadata.checksum.1 raw ≠ metadata.checksum.2 then
    raiseSignature "dnf: primary checksum does not match repomd.xml".toList
  else .ok ()

/-- `_CheckedReader.verify`, of all that was read. -/
def verifyOpen (content : Bytes) (metadata : PrimaryMetadata) : Except FetchError Unit :=
  if (metadata.openSize.any fun size => decide ((content.length : Int) ≠ size)) = true then
    raiseSignature "dnf: primary open size does not match repomd.xml".toList
  else if (metadata.openChecksum.any fun c => lib.hexdigest c.1 content ≠ c.2) = true then
    raiseSignature "dnf: primary open-checksum does not match repomd.xml".toList
  else .ok ()

/-- `_checked_primary`. -/
def checkedPrimary (raw : Bytes) (metadata : PrimaryMetadata) (arch : Str) : Except FetchError (List PackageRef) := do
  let _ ← verifyBytes lib raw metadata
  let content ← openPrimary lib host raw metadata.href
  let root ← decoded (lib.parseXml content)
  let packages ← parsePrimary root arch
  let _ ← verifyOpen lib content metadata
  return packages

def indexUrl (repo : RepoFields) : Str := rstripSlash repo.upstream ++ "/repodata/repomd.xml".toList

/-- The verification of repomd.xml, where it is asked for. -/
def verify (repo : RepoFields) (raw : Bytes) : Except FetchError Unit :=
  if repo.verifySignature then do
    let signature ← httpGet up (indexUrl repo ++ ".asc".toList)
    let _ ← verifyDetached host raw signature (keyringOf repo)
    return ()
  else .ok ()

/-- `DnfParser.fetch_packages`. -/
def fetchPackages (repo : RepoFields) : Except FetchError (List PackageRef) := do
  let raw ← httpGet up (indexUrl repo)
  let _ ← verify up host repo raw
  let metadata ← parseRepomd lib raw
  let primary ← httpGet up (rstripSlash repo.upstream ++ '/' :: metadata.href)
  checkedPrimary lib host primary metadata repo.arch

end

/-! ## Two fetches -/

section
variable {lib : Library} {up : Upstream} {host host' : Host}

theorem openPrimary_agree (raw : Bytes) (href : Str) :
    Agree (openPrimary lib host raw href) (openPrimary lib host' raw href) := by
  unfold openPrimary
  dsimp only
  split
  · exact .refl _
  split
  · exact .refl _
  split
  · exact .refl _
  split
  · exact unzstd_agree _ _ raw
  · exact .refl _

/-- **A verified repomd.xml** is read like any other. -/
theorem fetchPackages_agree {a b : RepoFields} (hupstream : a.upstream = b.upstream) (harch : a.arch = b.arch) :
    Agree (fetchPackages lib up host a) (fetchPackages lib up host' b) := by
  have hurl : indexUrl a = indexUrl b := by rw [indexUrl, hupstream, indexUrl]
  unfold fetchPackages checkedPrimary
  rw [hurl, hupstream, harch]
  refine (Agree.refl _).bind fun raw => (Agree.check _ _).bind fun _ => ?_
  refine (Agree.refl _).bind fun metadata => (Agree.refl _).bind fun primary => (Agree.refl _).bind fun _ => ?_
  exact (openPrimary_agree primary metadata.href).bind fun _ => .refl _

end

end RpmMd
end RepoWatch
