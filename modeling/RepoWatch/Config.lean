import RepoWatch.Lib.Table
import RepoWatch.Url
/-!
# Config — repositories, their URL templates and the nginx settings

`RepoFields` is what a repository entry says, `expand` its local path template, and `RepoConfig` an entry whose
construction passed `__post_init__`'s `expand(self)`, so the prefix functions read the expansion without an error case.
-/
namespace RepoWatch

open Lib (Dict)

/-- The exceptions the program raises here, with their messages. -/
inductive Error where
  | configError (message : Str)
  | valueError (message : Str)
  | cleanupChanged (message : Str)
  deriving DecidableEq, Repr

def configError {α : Type} (message : String) : Except Error α := .error (.configError message.toList)

inductive RepoType where
  | pacman | apt | apk | dnf | aptRpm | xbps | nix | gentoo | slackware
  deriving DecidableEq, Repr

def RepoType.name : RepoType → Str
  | .pacman => "pacman".toList
  | .apt => "apt".toList
  | .apk => "apk".toList
  | .dnf => "dnf".toList
  | .aptRpm => "apt-rpm".toList
  | .xbps => "xbps".toList
  | .nix => "nix".toList
  | .gentoo => "gentoo".toList
  | .slackware => "slackware".toList

/-- The fields of a repository entry that routing, the catalog, the parsers and the reports read. -/
structure RepoFields where
  id : Str
  type : RepoType
  upstream : Str
  arch : Str
  prefetch : Bool := true
  repoName : Option Str := none
  distribution : Option Str := none
  component : Option Str := none
  checkInterval : Option Int := none
  urlTemplate : Option Str := none
  urlVariables : List (Str × Str) := []
  nixSource : Option Str := none
  nixAttributes : List Str := []
  verifySignature : Bool := false
  apkSignatureBackend : Str := "openssl".toList
  apkKeysDir : Option Str := none
  keyringPath : Option Str := none
  group : Option Str := none
  nixPublicKeys : List Str := []
  nixTimeout : Nat := 600
  nixMaxPaths : Nat := 500000
  deriving DecidableEq

/-! ## URL templates -/

/-- What a replacement field and the text around it come to, in order. -/
inductive Piece where
  | literal (c : Char)
  | field (name : Str) (conversion : Option Char) (spec : Str)

/-- Where `string.Formatter().parse` stands in a template. -/
inductive Markup where
  | literal
  | brace (b : Char)
  | field (name : Str)
  | index (name : Str)
  | conversion (name : Str)
  | afterConversion (name : Str) (c : Char)
  | spec (name : Str) (conversion : Option Char) (depth : Nat) (text : Str)

/-- A character of a field name, or the one that ends it. -/
def fieldNext (name : Str) (c : Char) : Option (Markup × List Piece) :=
  match c with
  | '{' => none
  | '}' => some (.literal, [.field name none []])
  | ':' => some (.spec name none 1 [], [])
  | '!' => some (.conversion name, [])
  | '[' => some (.index (name ++ [c]), [])
  | _ => some (.field (name ++ [c]), [])

/-- One character of a template; `none` where the parser raises. -/
def Markup.next : Markup → Char → Option (Markup × List Piece)
  | .literal, c => if c = '{' ∨ c = '}' then some (.brace c, []) else some (.literal, [.literal c])
  | .brace b, c =>
    if c = b then some (.literal, [.literal c])
    else if b = '}' then none
    else fieldNext [] c
  | .field name, c => fieldNext name c
  | .index name, c => if c = ']' then some (.field (name ++ [c]), []) else some (.index (name ++ [c]), [])
  | .conversion name, c => some (.afterConversion name c, [])
  | .afterConversion name conv, c =>
    if c = '}' then some (.literal, [.field name (some conv) []])
    else if c = ':' then some (.spec name (some conv) 1 [], [])
    else none
  | .spec name conv depth text, c =>
    if c = '}' then
      if depth = 1 then some (.literal, [.field name conv text]) else some (.spec name conv (depth - 1) (text ++ [c]), [])
    else if c = '{' then some (.spec name conv (depth + 1) (text ++ [c]), [])
    else some (.spec name conv depth (text ++ [c]), [])

/-- The pieces of a template up to the end or to where the parser raises, and whether it raises. -/
def parseTemplate : Markup → Str → List Piece × Bool
  | .literal, [] => ([], false)
  | _, [] => ([], true)
  | m, c :: s =>
    match m.next c with
    | none => ([], true)
    | some (m', out) => (out ++ (parseTemplate m' s).1, (parseTemplate m' s).2)

/-- A segment of `[A-Za-z0-9_+~.-]+` other than `.` and `..`. -/
def isSegment (s : Str) : Bool :=
  s != [] && s.all (fun c => c.isAlphanum || ['_', '+', '~', '.', '-'].contains c) && s != ['.'] && s != ['.', '.']

/-- `[a-z][a-z0-9_]*`. -/
def isVariableName : Str → Bool
  | [] => false
  | c :: s => c.isLower && s.all (fun c => c.isLower || c.isDigit || c == '_')

/-- The standard fields of a template, `FIELDS`. -/
def RepoFields.standard (repo : RepoFields) : List (Str × Option Str) :=
  [("id".toList, some repo.id), ("type".toList, some repo.type.name), ("repo_name".toList, repo.repoName),
   ("arch".toList, some repo.arch), ("distribution".toList, repo.distribution), ("component".toList, repo.component)]

/-- The value of a replacement field, `values[name]`, checked. -/
def fieldValue (repo : RepoFields) (name : Str) (conversion : Option Char) (spec : Str) : Except Error Str :=
  let values := repo.urlVariables.reverse.map (fun p => (p.1, some p.2)) ++ repo.standard
  match values.find? (fun p => p.1 == name) with
  | none => configError "url_template: unknown variable; format/conversion are not allowed"
  | some (_, value) =>
    if spec != [] || conversion.isSome then
      configError "url_template: unknown variable; format/conversion are not allowed"
    else match value.filter isSegment with
      | some v => .ok v
      | none =>
        .error (.configError ("url_template: field ".toList ++ name ++ " is missing or is not a valid URL segment".toList))

def expandPieces (repo : RepoFields) : List Piece → Except Error Str
  | [] => .ok []
  | .literal c :: ps => do return c :: (← expandPieces repo ps)
  | .field name conversion spec :: ps => do
    let value ← fieldValue repo name conversion spec
    return value ++ (← expandPieces repo ps)

/-- `any(part in ('.', '..') for part in path.split('/'))`. -/
def hasDotSegment (path : Str) : Bool :=
  (path.splitOn '/').any fun part => part == ['.'] || part == ['.', '.']

/-- The path is absolute, of safe characters, and has neither empty nor dot segments. -/
def isTemplatePath (path : Str) : Bool :=
  decide (2 ≤ path.length) && path.head? == some '/' && path.all isUriChar && !decide (['/', '/'] <:+: path) &&
    !hasDotSegment path

def checkVariables (repo : RepoFields) : List (Str × Str) → Except Error Unit
  | [] => .ok ()
  | (name, value) :: rest =>
    if !isVariableName name || (repo.standard.map Prod.fst).contains name then
      configError "url_variables: invalid name, or it overrides a standard field"
    else if !isSegment value then configError "url_variables: values must be a single safe URL segment"
    else checkVariables repo rest

/-- `url_templates.expand`. -/
def expand (repo : RepoFields) : Except Error (Option Str) := do
  checkVariables repo repo.urlVariables
  match repo.urlTemplate with
  | none =>
    if repo.urlVariables != [] then configError "url_variables requires url_template" else return none
  | some template =>
    if template = [] ∨ 1024 < template.length then
      configError "url_template: must be a nonempty string up to 1024 characters"
    else
      let (pieces, raised) := parseTemplate .literal template
      let text ← expandPieces repo pieces
      if raised then configError "url_template: invalid curly braces"
      else
        let path := rstripSlash text
        if isTemplatePath path then return some path
        else configError "url_template: must be an absolute local path with no traversal/nginx syntax"

/-- A repository entry that was constructed: its template expands. -/
structure RepoConfig extends RepoFields where
  expands : (expand toRepoFields).isOk = true
  deriving DecidableEq

/-- The expansion of the repository's template, which construction has checked. -/
def RepoConfig.custom (repo : RepoConfig) : Option Str :=
  match h : expand repo.toRepoFields with
  | .ok path => path
  | .error _ => absurd repo.expands (by simp [h, Except.isOk, Except.toBool])

/-- A repository with the default path layout of its type. -/
def plainRepo (type : RepoType) (id upstream : String) : RepoConfig where
  id := id.toList
  type := type
  upstream := upstream.toList
  arch := "x86_64".toList
  expands := rfl

/-- An apt repository with the default path layout. -/
def aptRepo (id upstream : String) : RepoConfig where
  id := id.toList
  type := .apt
  upstream := upstream.toList
  arch := "amd64".toList
  distribution := some "stable".toList
  component := some "main".toList
  expands := rfl

/-! ## The configuration -/

structure NginxConfig where
  enabled : Bool := false
  cacheKeyVersion : Str := []
  indexTtl : Int := 300
  packageTtl : Int := 15552000
  cacheDir : Option Str := none
  enablePurge : Bool := false
  enableDedup : Bool := false
  enableCacheProbe : Bool := false
  deriving DecidableEq

/-- `cache_key_version` passed `NginxConfig.__post_init__`: `[A-Za-z0-9_-]{0,64}`. -/
def NginxConfig.versionOk (nginx : NginxConfig) : Bool :=
  nginx.cacheKeyVersion.all (fun c => c.isAlphanum || c == '_' || c == '-') &&
    decide (nginx.cacheKeyVersion.length ≤ 64)

theorem NginxConfig.versionOk_default : ({} : NginxConfig).versionOk = true := rfl

/-- A loaded configuration: `load_config` refuses a repository id that is listed twice. -/
structure Config where
  checkInterval : Int
  cacheBaseUrl : Str
  repos : List RepoConfig
  nginx : NginxConfig
  idsNodup : (repos.map (fun r => r.id)).Nodup
  versionOk : nginx.versionOk = true
  deriving DecidableEq

namespace Config

def repoById (config : Config) (id : Str) : Option RepoConfig := config.repos.find? (fun r => r.id == id)

def effectiveCheckInterval (config : Config) (repo : RepoConfig) : Int :=
  repo.checkInterval.getD config.checkInterval

theorem repoById_eq_some {config : Config} {id : Str} {repo : RepoConfig} (h : config.repoById id = some repo) :
    repo ∈ config.repos ∧ repo.id = id :=
  ⟨List.mem_of_find?_eq_some h, by simpa using List.find?_some h⟩

theorem repoById_of_mem {config : Config} {repo : RepoConfig} (h : repo ∈ config.repos) :
    config.repoById repo.id = some repo := by
  have := Lib.Table.find?_key_of_mem config.repos repo config.idsNodup h
  simpa [repoById, beq_eq_decide] using this

end Config
end RepoWatch
