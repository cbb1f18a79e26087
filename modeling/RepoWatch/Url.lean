import RepoWatch.Text
/-!
# Url — `urllib.parse` on the strings the routes are made of

`urlsplit` cuts a URL into its components; the library raises on a netloc with unmatched brackets, which `urlsplitOk`
reports.  (It also raises on a malformed bracketed host and on a netloc whose compatibility form contains a delimiter;
the routes accept neither brackets nor non-ASCII characters in a netloc, so both end in the same refusal.)
-/
namespace RepoWatch

structure SplitResult where
  scheme : Str
  netloc : Str
  path : Str
  query : Str
  fragment : Str
  deriving DecidableEq, Repr

def isSchemeChar (c : Char) : Bool := c.isAlphanum || ['+', '-', '.'].contains c

/-- The URL without leading control characters and blanks, and without tabs and line breaks anywhere. -/
def cleanUrl (url : Str) : Str :=
  (url.dropWhile (fun c => decide (c.toNat ≤ 0x20))).filter (fun c => ! ['\t', '\r', '\n'].contains c)

/-- The scheme, lowercased, and what follows its colon. -/
def splitScheme (url : Str) : Str × Str :=
  match url, partition ':' url with
  | first :: _, (scheme, some rest) =>
    if first.isAlpha && scheme.all isSchemeChar then (asciiLower scheme, rest) else ([], url)
  | _, _ => ([], url)

/-- The netloc after `//`, up to the first delimiter. -/
def splitNetloc : Str → Str × Str
  | '/' :: '/' :: rest => rest.span (fun c => ! ['/', '?', '#'].contains c)
  | url => ([], url)

/-- `urllib.parse.urlsplit`. -/
def urlsplit (url : Str) : SplitResult :=
  let (scheme, rest) := splitScheme (cleanUrl url)
  let (netloc, rest) := splitNetloc rest
  let (rest, fragment) := partition '#' rest
  let (path, query) := partition '?' rest
  ⟨scheme, netloc, path, query.getD [], fragment.getD []⟩

/-- `urlsplit` does not raise. -/
def urlsplitOk (url : Str) : Bool :=
  (urlsplit url).netloc.contains '[' == (urlsplit url).netloc.contains ']'

/-- The schemes whose last path segment may carry `;parameters`. -/
def usesParams : List Str :=
  ["", "ftp", "hdl", "prospero", "http", "https", "shttp", "rtsp", "rtspu", "sip", "sips", "mms", "sftp", "tel"].map
    String.toList

/-- `urllib.parse.urlparse(url).path`: the parameters of the last segment are cut off. -/
def urlparsePath (url : Str) : Str :=
  let u := urlsplit url
  if usesParams.contains u.scheme then
    let lastSegment := u.path.rtakeWhile (· != '/')
    u.path.take (u.path.length - lastSegment.length) ++ (partition ';' lastSegment).1
  else u.path

namespace SplitResult

/-- What follows the user information of a netloc. -/
def hostinfo (u : SplitResult) : Str := u.netloc.rtakeWhile (· != '@')

/-- `username or password`. -/
def hasUserinfo (u : SplitResult) : Bool :=
  match partition ':' (u.netloc.take (u.netloc.length - u.hostinfo.length - 1)) with
  | (username, password) => username != [] || password.getD [] != []

def hostname (u : SplitResult) : Str := asciiLower (partition ':' u.hostinfo).1

/-- `.port` does not raise. -/
def portOk (u : SplitResult) : Bool :=
  match (partition ':' u.hostinfo).2 with
  | none | some [] => true
  | some port => port.all Char.isDigit && decide (decimal port ≤ 65535)

end SplitResult

/-! ## Joining -/

def usesRelative : List Str :=
  ["", "ftp", "http", "gopher", "nntp", "imap", "wais", "file", "https", "shttp", "mms", "prospero", "rtsp", "rtsps",
    "rtspu", "sftp", "svn", "svn+ssh", "ws", "wss"].map String.toList

def usesNetloc : List Str :=
  ["", "ftp", "http", "gopher", "nntp", "telnet", "imap", "wais", "file", "mms", "https", "shttp", "snews", "prospero",
    "rtsp", "rtsps", "rtspu", "rsync", "svn", "svn+ssh", "sftp", "nfs", "git", "git+ssh", "ws", "wss"].map String.toList

/-- The result of `urlparse`: `path` is without the parameters of its last segment. -/
structure ParseResult extends SplitResult where
  params : Str

/-- `urllib.parse.urlparse(url, scheme)`. -/
def urlparse (url scheme : Str) : ParseResult :=
  let u := urlsplit url
  let scheme := if u.scheme = [] then scheme else u.scheme
  if usesParams.contains scheme then
    let lastSegment := u.path.rtakeWhile (· != '/')
    let (segment, params) := partition ';' lastSegment
    { u with scheme := scheme, path := u.path.take (u.path.length - lastSegment.length) ++ segment, params := params.getD [] }
  else { u with scheme := scheme, params := [] }

/-- `urllib.parse.urlunparse`. -/
def urlunparse (u : ParseResult) : Str :=
  let path := if u.params = [] then u.path else u.path ++ ';' :: u.params
  let rest :=
    if u.netloc ≠ [] ∨ (u.scheme ≠ [] ∧ usesNetloc.contains u.scheme) ∨ startsWith path ['/', '/'] then
      ['/', '/'] ++ u.netloc ++ (if path ≠ [] ∧ path.head? ≠ some '/' then '/' :: path else path)
    else path
  let rest := if u.scheme = [] then rest else u.scheme ++ ':' :: rest
  let rest := if u.query = [] then rest else rest ++ '?' :: u.query
  if u.fragment = [] then rest else rest ++ '#' :: u.fragment

/-- `resolved_path`: `..` takes the last segment away and `.` adds none. -/
def resolveSegments : List Str → List Str → List Str
  | resolved, [] => resolved
  | resolved, segment :: segments =>
    if segment = ['.', '.'] then resolveSegments resolved.dropLast segments
    else if segment = ['.'] then resolveSegments resolved segments
    else resolveSegments (resolved ++ [segment]) segments

/-- The segments that `urljoin` resolves: those of an absolute path, or those of the base's directory and of the path,
without empty ones inside. -/
def joinedSegments (basePath path : Str) : List Str :=
  if path.head? = some '/' then path.splitOn '/'
  else
    let directory := basePath.splitOn '/'
    let directory := if directory.getLast? = some [] then directory else directory.dropLast
    let segments := directory ++ path.splitOn '/'
    segments.take 1 ++ (segments.drop 1).dropLast.filter (· ≠ []) ++ (segments.drop 1).getLast?.toList

/-- `urllib.parse.urljoin`. -/
def urljoin (base url : Str) : Str :=
  if base = [] then url
  else if url = [] then base
  else
    let b := urlparse base []
    let u := urlparse url b.scheme
    if u.scheme ≠ b.scheme ∨ usesRelative.contains u.scheme = false then url
    else if usesNetloc.contains u.scheme ∧ u.netloc ≠ [] then urlunparse u
    else
      let netloc := if usesNetloc.contains u.scheme then b.netloc else u.netloc
      if u.path = [] ∧ u.params = [] then
        urlunparse { u with
          netloc := netloc
          path := b.path
          params := b.params
          query := if u.query = [] then b.query else u.query }
      else
        let segments := joinedSegments b.path u.path
        let resolved := resolveSegments [] segments
        let dotted := segments.getLast? = some ['.'] ∨ segments.getLast? = some ['.', '.']
        let path := ['/'].intercalate (if dotted then resolved ++ [[]] else resolved)
        urlunparse { u with netloc := netloc, path := if path = [] then ['/'] else path }

/-- `[A-Za-z0-9.-]+(?::[0-9]{1,5})?`, matched against a whole netloc. -/
def isPlainNetloc (netloc : Str) : Bool :=
  let (host, port) := partition ':' netloc
  host != [] && host.all (fun c => c.isAlphanum || c == '.' || c == '-') &&
    match port with
    | none => true
    | some ds => decide (1 ≤ ds.length ∧ ds.length ≤ 5) && ds.all Char.isDigit

/-- `quote(s, safe='')`: percent-encode the UTF-8 bytes of all but letters, digits and `_.-~`. -/
def quote (s : Str) : Str :=
  s.flatMap fun c =>
    if c.isAlphanum || ['_', '.', '-', '~'].contains c then [c]
    else (String.utf8EncodeChar c).flatMap fun b => '%' :: [hexDigit (b.toNat / 16), hexDigit (b.toNat % 16)]
where
  hexDigit (n : Nat) : Char := ['0', '1', '2', '3', '4', '5', '6', '7', '8', '9', 'A', 'B', 'C', 'D', 'E', 'F'].getD n '0'

end RepoWatch
