import RepoWatch.Clearsign
import RepoWatch.Fetch
import RepoWatch.Lib.Agree
import RepoWatch.Routing
import RepoWatch.Tarfile
/-!
# Parsers — what the index parsers share

A fetch reads `Upstream`, which answers for every URL and every Nix command, and asks the `Host` for what may change from one
fetch to the next: keys, verifying programs, and which programs run to their end.  The decoders of the standard library are
`Library`, a parameter of everything that follows.
-/
namespace RepoWatch

/-- The exceptions that end a fetch. -/
inductive FetchError where
  | status (code : Nat)
  | transport
  | signature (e : SignatureError)
  | value (message : Str)
  | tar (e : Tar.TarError)
  | library
  deriving DecidableEq

def raiseSignature {α : Type} (message : Str) : Except FetchError α := .error (.signature (.message message))

def raiseValue {α : Type} (message : Str) : Except FetchError α := .error (.value message)

/-- A result of another part of the program, with its exceptions among those of a fetch. -/
def raising {ε α : Type} (embed : ε → FetchError) : Except ε α → Except FetchError α
  | .ok a => .ok a
  | .error e => .error (embed e)

theorem raising_eq_ok {ε α : Type} {embed : ε → FetchError} {x : Except ε α} {a : α} : raising embed x = .ok a ↔ x = .ok a := by
  cases x <;> simp [raising]

theorem raising_agree {ε α : Type} {embed : ε → FetchError} {x y : Except ε α} (h : Lib.Agree x y) :
    Lib.Agree (raising embed x) (raising embed y) := fun _ _ ha hb => h (raising_eq_ok.1 ha) (raising_eq_ok.1 hb)

/-- What a decoder of the library returns, or its exception. -/
def decoded {α : Type} : Option α → Except FetchError α
  | some a => .ok a
  | none => .error .library

/-! ## The library -/

/-- What `zlib.decompressobj(31).decompress(raw, max_length)` has done: the bytes, and the rest behind the end of the member
if it was reached. -/
structure Inflated where
  content : Bytes
  unused : Option Bytes
  deriving DecidableEq

inductive Codec where
  | gzip | xz | bz2 | zstd
  deriving DecidableEq

/-- An element of an XML document. -/
inductive Element where
  | node (tag : Str) (attrib : List (Str × Str)) (text : Option Str) (children : List Element)

/-- A property list; a key is missing where it is not a string. -/
inductive Plist where
  | string (s : Str)
  | dict (items : List (Option Str × Plist))
  | other

/-- A JSON value; `other` is known by how it is written. -/
inductive NixJson where
  | string (s : Str)
  | object (fields : List (Str × NixJson))
  | other (written : Str)

/-- The decoders of the standard library, as functions of what they read. -/
structure Library where
  /-- The reads of a `GzipFile`. -/
  gunzip : Bytes → Pacman.Stream
  inflate : Bytes → Nat → Option Inflated
  decompress : Codec → Bytes → Option Bytes
  extension : Tar.Extension
  recursionLimit : Nat
  parseXml : Bytes → Option Element
  loadPlist : Bytes → Option Plist
  loadsJson : Bytes → Option NixJson
  dumpsJson : NixJson → Bytes
  /-- `str` of a value that is not a string. -/
  format : NixJson → Str
  /-- `hashlib.new(algorithm, raw).hexdigest()`. -/
  hexdigest : Str → Bytes → Str
  lower : Str → Str
  isdigit : Char → Bool

/-- What a `GzipFile` returns until it ends or raises. -/
def Library.gunzipped (lib : Library) (raw : Bytes) : Bytes := ((lib.gunzip raw).chunks.takeWhile (· ≠ [])).flatten

/-- `int(text)`. -/
def intOf (text : Str) : Except FetchError Int := raising (fun _ => .library) (pyInt text)

/-- `[0-9]+`, matched whole. -/
def isDecimal (s : Str) : Bool := s ≠ [] && s.all Char.isDigit

/-! ## The world -/

inductive Reply where
  | body (content : Bytes)
  | status (code : Nat)
  | failed

/-- What a finished program has written. -/
structure Output where
  returncode : Int
  stdout : Bytes
  stderr : Bytes

/-- What the other side answers. -/
structure Upstream where
  get : Str → Reply
  evaluate : List Str → Output

inductive ToolRun where
  | failed (error : Str)
  | finished (returncode : Int) (stdout stderr : Str)

/-- The zstd binary: not installed, failing to run, or at hand. -/
inductive Zstd where
  | missing
  | failed (error : Str)
  | available

/-- What a fetch finds on its own machine. -/
structure Host where
  /-- gpgv with a keyring, on a file and its detached signature if it has one. -/
  gpgv : Str → Option Bytes → Bytes → GpgvRun
  apkKey : Str → Str → Option Bytes
  /-- `openssl dgst -verify`, with SHA-1 or with SHA-256. -/
  openssl : Bool → Bytes → Bytes → Bytes → ToolRun
  apkVersion : ToolRun
  apkVerify : Bytes → Bytes → ToolRun
  /-- The program runs to its end within the timeout. -/
  completes : List Str → Nat → Bool
  zstd : Zstd

/-- `IndexParser._http_get`. -/
def httpGet (up : Upstream) (url : Str) : Except FetchError Bytes :=
  match up.get url with
  | .body content => .ok content
  | .status code => .error (.status code)
  | .failed => .error .transport

theorem httpGet_eq_ok {up : Upstream} {url : Str} {raw : Bytes} : httpGet up url = .ok raw ↔ up.get url = .body raw := by
  unfold httpGet
  cases up.get url <;> simp

/-- `verify_detached`. -/
def verifyDetached (host : Host) (data signature : Bytes) (keyring : Str) : Except FetchError (List (Str × Str)) :=
  raising .signature (runGpgv (host.gpgv keyring (some signature)) data)

/-- A keyring that the configuration has checked to be there. -/
def keyringOf (repo : RepoFields) : Str := repo.keyringPath.getD []

/-- The zstd binary on some bytes, with the texts of its two failures. -/
def unzstd (lib : Library) (host : Host) (missing failed : Str) (raw : Bytes) : Except FetchError Bytes :=
  match host.zstd with
  | .missing => raiseValue missing
  | .failed error => raiseValue (failed ++ error)
  | .available => decoded (lib.decompress .zstd raw)

theorem unzstd_agree {lib : Library} {host host' : Host} (missing failed : Str) (raw : Bytes) :
    Lib.Agree (unzstd lib host missing failed raw) (unzstd lib host' missing failed raw) := by
  unfold unzstd
  cases host.zstd with
  | missing => exact .error_left _
  | failed error => exact .error_left _
  | available =>
    cases host'.zstd with
    | missing => exact .error_right _
    | failed error => exact .error_right _
    | available => exact .refl _

/-! ## Paths -/

/-- `safe_package_path`. -/
def safePackagePath (value : Str) : Except FetchError Str :=
  if value = [] ∨ value.all isUriChar = false ∨
      ((value.splitOn '/').any fun part => part = [] || part = ['.'] || part = ['.', '.']) = true then
    raiseValue ("unsafe package path: ".toList ++ reprStr value)
  else .ok value

/-! ## Lines of an expression -/

section
variable {α : Type} [DecidableEq α]

/-- Where `^` matches in a text of several lines. -/
def lineStarts (newline : α) (s : List α) : List (List α) :=
  s :: s.tails.filterMap fun t =>
    match t with
    | c :: rest => if c = newline then some rest else none
    | [] => none

/-- `\s*$` matches at the start of the text. -/
def endsLine (newline : α) (space : α → Bool) (s : List α) : Bool :=
  (s.dropWhile space).isEmpty || (s.takeWhile space).contains newline

end

/-! ## Archives -/

/-- The members of an archive of bytes. -/
def Library.membersOf (lib : Library) (bs : Bytes) : Except Tar.TarError (List Tar.Member) :=
  Tar.getmembers lib.extension false bs

/-- The members of an archive in a gzip stream. -/
def Library.gzipMembers (lib : Library) (raw : Bytes) : Except Tar.TarError (List Tar.Member) :=
  Tar.getmembers lib.extension (lib.gunzip raw).damage.isSome (lib.gunzipped raw)

/-- The first member of a name, read whole; nothing where there is none or it has no data. -/
def Library.readMember (lib : Library) (members : List Tar.Member) (name : Bytes) : Except Tar.TarError (Option Bytes) :=
  match members.findIdx? fun m => m.name == name with
  | none => .ok none
  | some i => Tar.extractfile members lib.recursionLimit i

end RepoWatch
