import Mathlib.Data.List.Basic
import RepoWatch.Lib.Loop
import RepoWatch.Lib.Table
import RepoWatch.Lib.TextFile
import RepoWatch.NixStore
/-!
# Narinfo — the metadata record of a store path, as it is parsed

A binary cache answers `<hash>.narinfo` with lines `Name: value`.  `parseNarinfo` reads what the warm needs of them: the
store path, the narinfo files of the references, and the archive with its hash and size where they are known.  What it
accepts is about the file it was asked for, and names narinfo files only (`parseNarinfo_ok`).
-/
namespace RepoWatch

open Lib

/-- What reading a closure raises: the program's own messages, what a built-in raises as a `ValueError`, a failed request
and a failed verification. -/
inductive NixError where
  | valueError (message : Str)
  | builtin
  | httpError
  | signatureError
  deriving DecidableEq, Repr

def nixError {α : Type} (message : String) : Except NixError α := .error (.valueError message.toList)

/-! ## Text -/

/-- `str.isspace` of a character. -/
def isSpace (c : Char) : Bool :=
  let n := c.toNat
  decide (9 ≤ n ∧ n ≤ 13) || decide (0x1c ≤ n ∧ n ≤ 0x20) || decide (0x2000 ≤ n ∧ n ≤ 0x200a) ||
    [0x85, 0xa0, 0x1680, 0x2028, 0x2029, 0x202f, 0x205f, 0x3000].contains n

/-- `str.strip()`. -/
def strip (s : Str) : Str := (s.dropWhile isSpace).rdropWhile isSpace

/-- `str.split()`. -/
def splitBlank (s : Str) : List Str := (s.splitOnP isSpace).filter (· ≠ [])

def isLineBreak (c : Char) : Bool :=
  let n := c.toNat
  decide (10 ≤ n ∧ n ≤ 13) || decide (0x1c ≤ n ∧ n ≤ 0x1e) || [0x85, 0x2028, 0x2029].contains n

def splitlinesFrom (line : Str) : Str → List Str
  | [] => if line = [] then [] else [line]
  | '\r' :: '\n' :: s => line :: splitlinesFrom [] s
  | c :: s => if isLineBreak c then line :: splitlinesFrom [] s else splitlinesFrom (line ++ [c]) s

/-- `str.splitlines()`. -/
def splitlines (s : Str) : List Str := splitlinesFrom [] s

/-- `line.partition(': ')`: what precedes the first `: `, and what follows it if there is one. -/
def partitionField : Str → Str × Option Str
  | [] => ([], none)
  | ':' :: ' ' :: s => ([], some s)
  | c :: s => (c :: (partitionField s).1, (partitionField s).2)

/-- `raw.decode('utf-8')`. -/
def decodeUtf8 (raw : Bytes) : Except NixError Str :=
  match (TextFile.decode raw).mapM Sum.getLeft? with
  | some text => .ok text
  | none => .error .builtin

/-- The first code points of the runs of ten decimal digits, `Nd`. -/
def digitZeros : List Nat :=
  [0x30, 0x660, 0x6f0, 0x7c0, 0x966, 0x9e6, 0xa66, 0xae6, 0xb66, 0xbe6, 0xc66, 0xce6, 0xd66, 0xde6, 0xe50, 0xed0, 0xf20,
   0x1040, 0x1090, 0x17e0, 0x1810, 0x1946, 0x19d0, 0x1a80, 0x1a90, 0x1b50, 0x1bb0, 0x1c40, 0x1c50, 0xa620, 0xa8d0, 0xa900,
   0xa9d0, 0xa9f0, 0xaa50, 0xabf0, 0xff10, 0x104a0, 0x10d30, 0x11066, 0x110f0, 0x11136, 0x111d0, 0x112f0, 0x11450, 0x114d0,
   0x11650, 0x116c0, 0x11730, 0x118e0, 0x11950, 0x11c50, 0x11d50, 0x11da0, 0x16a60, 0x16ac0, 0x16b50, 0x1d7ce, 0x1d7d8,
   0x1d7e2, 0x1d7ec, 0x1d7f6, 0x1e140, 0x1e2f0, 0x1e950, 0x1fbf0]

def digitValue (c : Char) : Option Nat :=
  (digitZeros.find? fun z => decide (z ≤ c.toNat ∧ c.toNat < z + 10)).map (c.toNat - ·)

/-- The blanks that `int` strips. -/
def isIntSpace (c : Char) : Bool := isSpace c && !decide (0x1c ≤ c.toNat ∧ c.toNat ≤ 0x1f)

/-- The digits of a numeral, which may have single underscores between them. -/
def numeralDigits (s : Str) : Option (List Nat) :=
  if (s.splitOn '_').all (· ≠ []) then (s.filter (· ≠ '_')).mapM digitValue else none

/-- `int(value)`. -/
def pyInt (value : Str) : Except NixError Int :=
  let s := (value.dropWhile isIntSpace).rdropWhile isIntSpace
  let (negative, numeral) :=
    match s with
    | '-' :: s => (true, s)
    | '+' :: s => (false, s)
    | s => (false, s)
  match numeralDigits numeral with
  | none => .error .builtin
  | some digits =>
    if 4300 < digits.length then .error .builtin
    else
      let n : Nat := digits.foldl (fun n d => 10 * n + d) 0
      .ok (if negative then -(n : Int) else n)

/-! ## Hashes and store paths -/

def alphabet : Str := "0123456789abcdfghijklmnpqrsvwxyz".toList

def isHex (c : Char) : Bool := c.isDigit || decide ('a' ≤ c ∧ c ≤ 'f')

def hexDigits : Str := "0123456789abcdef".toList

/-- `bytes.hex`. -/
def hex (bs : Bytes) : Str := bs.flatMap fun b => [hexDigits.getD (b.toNat / 16) '0', hexDigits.getD (b.toNat % 16) '0']

/-- `number.to_bytes(32, 'little')` of a number that fits. -/
def toBytesLittle (number : Nat) : Bytes := (List.range 32).map fun i => UInt8.ofNat (number >>> (8 * i))

/-- `sha256_hex`. -/
def sha256Hex (value : Str) : Except NixError Str :=
  match partition ':' value with
  | (_, none) => .error .builtin
  | (algorithm, some encoded) =>
    if algorithm ≠ "sha256".toList then nixError "Nix FileHash must use SHA256"
    else if encoded.length = 64 ∧ encoded.all isHex then .ok encoded
    else if encoded.length ≠ 52 ∨ !encoded.all alphabet.contains then nixError "Invalid Nix SHA256 encoding"
    else
      let number := encoded.foldl (fun number char => number <<< 5 ||| alphabet.idxOf char) 0
      if number >>> 256 = 0 then .ok (hex (toBytesLittle number)) else nixError "Invalid Nix SHA256 padding"

/-- `HASH`, matched whole. -/
def isHash (s : Str) : Bool := decide (s.length = 32) && s.all alphabet.contains

/-- `NARINFO`, matched whole. -/
def isNarinfo (filename : Str) : Bool :=
  isHash (filename.take 32) && decide (filename.drop 32 = ".narinfo".toList)

def storeDir : Str := "/nix/store/".toList

/-- The hash of a path that `STORE_PATH` matches whole. -/
def storeHash (path : Str) : Option Str :=
  let rest := path.drop storeDir.length
  let name := rest.drop 33
  if startsWith path storeDir ∧ isHash (rest.take 32) ∧ (rest.drop 32).head? = some '-' ∧ name ≠ [] ∧
      name.all (fun c => c != '/' && !isSpace c) then
    some (rest.take 32)
  else none

/-- The narinfo file of a store path. -/
def narinfoOf (path : Str) : Option Str := (storeHash path).map (· ++ ".narinfo".toList)

/-! ## The record -/

/-- `nar_filename`. -/
def narFilename (upstream value : Str) : Except NixError Str :=
  let root := rstripSlash upstream ++ ['/']
  let base := urlsplit root
  let parsed := urlsplit (urljoin root value)
  let original := urlsplit value
  if !urlsplitOk root || !urlsplitOk value || !urlsplitOk (urljoin root value) then .error .builtin
  else if parsed.scheme ≠ base.scheme ∨ parsed.netloc ≠ base.netloc ∨ parsed.fragment ≠ [] ∨ parsed.hasUserinfo ∨
      !startsWith parsed.path base.path ∨ hasDotSegment original.path ∨
      !(parsed.path.head? == some '/' && decide (2 ≤ parsed.path.length) && parsed.path.all isUriChar) ∨
      value.any (fun c => isSpace c || decide (c.toNat < 32)) then
    nixError "Nix NAR URL must stay within its configured binary cache"
  else
    let filename := parsed.path.drop base.path.length
    if filename = [] ∨ filename.head? = some '/' then nixError "Invalid Nix NAR URL"
    else .ok (if parsed.query = [] then filename else filename ++ '?' :: parsed.query)

/-- What `parse_narinfo` returns. -/
structure NarInfo where
  path : Str
  refs : List Str
  filename : Str
  contentHash : Option Str
  size : Option Nat
  deriving DecidableEq

/-- The fields of the lines: a name may come twice only if it is `Sig`. -/
def parseFields : List Str → Dict Str Str → Except NixError (Dict Str Str)
  | [], fields => .ok fields
  | line :: lines, fields =>
    if line = [] then parseFields lines fields
    else
      match partitionField line with
      | (_, none) => nixError "Malformed or duplicate narinfo field"
      | (name, some value) =>
        if (fields.lookup name).isSome ∧ name ≠ "Sig".toList then nixError "Malformed or duplicate narinfo field"
        else parseFields lines (fields.set name value)

section Fields
variable (fields : Dict Str Str)

def narinfoField (name : String) : Option Str := fields.lookup name.toList

/-- The store path, which must be that of the file asked for. -/
def storePath (filename : Str) : Except NixError Str :=
  let path := (narinfoField fields "StorePath").getD []
  if narinfoOf path = some filename then .ok path
  else nixError "narinfo StorePath does not match the requested key"

/-- `URL`, required like `NarHash` and a nonnegative `NarSize`. -/
def requiredUrl : Except NixError Str :=
  let narHash := (narinfoField fields "NarHash").getD []
  let url := (narinfoField fields "URL").getD []
  let message := "narinfo requires URL, NarHash and nonnegative NarSize"
  if narHash = [] ∨ url = [] then nixError message
  else do
    if (← pyInt ((narinfoField fields "NarSize").getD "-1".toList)) < 0 then nixError message
    else
      let _ ← sha256Hex narHash
      return url

def parseRefs : List Str → Except NixError (List Str)
  | [] => .ok []
  | reference :: references =>
    match narinfoOf (storeDir ++ reference) with
    | none => nixError "Invalid narinfo reference"
    | some ref => do return ref :: (← parseRefs references)

def fileSize : Except NixError (Option Nat) :=
  match narinfoField fields "FileSize" with
  | none => .ok none
  | some value => do
    let size ← pyInt value
    if size < 0 then nixError "Negative Nix FileSize" else return some size.toNat

def fileHash : Except NixError (Option Str) :=
  match narinfoField fields "FileHash" with
  | none => .ok none
  | some value => do return some (← sha256Hex value)

end Fields

/-- `parse_narinfo`. -/
def parseNarinfo (raw : Bytes) (filename upstream : Str) : Except NixError NarInfo := do
  if !isNarinfo filename then nixError "Invalid narinfo filename"
  else
    let fields ← parseFields (splitlines (← decodeUtf8 raw)) Table.empty
    let path ← storePath fields filename
    let url ← requiredUrl fields
    let refs ← parseRefs (splitBlank ((narinfoField fields "References").getD []))
    let size ← fileSize fields
    return ⟨path, refs, ← narFilename upstream url, ← fileHash fields, size⟩

/-! ## What is accepted -/

theorem isHash_of_storeHash {path h : Str} (hs : storeHash path = some h) : isHash h = true := by
  unfold storeHash at hs
  dsimp only at hs
  split at hs
  · rename_i hcond
    cases hs
    exact hcond.2.1
  · cases hs

theorem isNarinfo_of_narinfoOf {path f : Str} (h : narinfoOf path = some f) : isNarinfo f = true := by
  obtain ⟨hash, hs, rfl⟩ := Option.map_eq_some_iff.1 h
  have hhash := isHash_of_storeHash hs
  have hlen : hash.length = 32 := by
    unfold isHash at hhash
    simp only [Bool.and_eq_true, decide_eq_true_eq] at hhash
    exact hhash.1
  unfold isNarinfo
  rw [List.take_left' hlen, List.drop_left' hlen, hhash]
  rfl

theorem parseRefs_ok : ∀ {references refs : List Str}, parseRefs references = .ok refs → ∀ r ∈ refs, isNarinfo r = true
  | [], refs, h => by
    cases h
    exact fun r hr => absurd hr List.not_mem_nil
  | reference :: references, refs, h => by
    unfold parseRefs at h
    split at h
    · cases h
    · rename_i ref href
      obtain ⟨rest, hrest, h⟩ := bind_eq_ok.1 h
      cases h
      intro r hr
      rcases List.mem_cons.1 hr with rfl | hr
      · exact isNarinfo_of_narinfoOf href
      · exact parseRefs_ok hrest r hr

theorem storePath_ok {fields : Dict Str Str} {filename path : Str} (h : storePath fields filename = .ok path) :
    narinfoOf path = some filename := by
  unfold storePath at h
  dsimp only at h
  split at h
  · rename_i hpath
    cases h
    exact hpath
  · cases h

theorem isHex_hexDigit : ∀ n < 16, isHex (hexDigits.getD n '0') = true := by decide

theorem isHex_of_mem_hex {bs : Bytes} {c : Char} (h : c ∈ hex bs) : isHex c = true := by
  obtain ⟨b, -, hc⟩ := List.mem_flatMap.1 h
  have hb := b.toNat_lt
  rcases List.mem_pair.1 hc with rfl | rfl
  · exact isHex_hexDigit _ (by omega)
  · exact isHex_hexDigit _ (by omega)

theorem toLower_of_isHex {c : Char} (h : isHex c = true) : c.toLower = c := by
  by_cases hc : c.toNat < 128
  · revert h
    exact forall_ascii (P := fun c => isHex c = true → c.toLower = c) (by decide) hc
  · exact toLower_of_not_ascii hc

/-- A hash that was read is written in lowercase. -/
theorem asciiLower_of_isHex {s : Str} (h : ∀ c ∈ s, isHex c = true) : asciiLower s = s := by
  unfold asciiLower
  exact (List.map_congr_left fun c hc => toLower_of_isHex (h c hc)).trans (List.map_id s)

theorem sha256Hex_ok {value h : Str} (hv : sha256Hex value = .ok h) : h ≠ [] ∧ ∀ c ∈ h, isHex c = true := by
  unfold sha256Hex at hv
  split at hv
  · cases hv
  split at hv
  · cases hv
  split at hv
  · rename_i hhex
    cases hv
    refine ⟨?_, List.all_eq_true.1 hhex.2⟩
    rintro rfl
    exact absurd hhex.1 (by decide)
  split at hv
  · cases hv
  dsimp only at hv
  split at hv
  · cases hv
    exact ⟨by simp [hex, toBytesLittle, List.range_succ_eq_map], fun c hc => isHex_of_mem_hex hc⟩
  · cases hv

theorem fileHash_ok {fields : Dict Str Str} {contentHash : Option Str} (h : fileHash fields = .ok contentHash) :
    ∀ s, contentHash = some s → s ≠ [] ∧ asciiLower s = s := by
  rintro s rfl
  unfold fileHash at h
  split at h
  · cases h
  · obtain ⟨s', hs, h⟩ := bind_eq_ok.1 h
    cases h
    obtain ⟨hne, hhex⟩ := sha256Hex_ok hs
    exact ⟨hne, asciiLower_of_isHex hhex⟩

/-- **What is accepted** is the record of the file asked for; its references are narinfo files too, and its archive's hash
is a lowercase one. -/
theorem parseNarinfo_ok {raw : Bytes} {filename upstream : Str} {info : NarInfo}
    (h : parseNarinfo raw filename upstream = .ok info) :
    narinfoOf info.path = some filename ∧ (∀ r ∈ info.refs, isNarinfo r = true) ∧
      ∀ s, info.contentHash = some s → s ≠ [] ∧ asciiLower s = s := by
  unfold parseNarinfo at h
  split at h
  · cases h
  obtain ⟨text, -, h⟩ := bind_eq_ok.1 h
  obtain ⟨fields, -, h⟩ := bind_eq_ok.1 h
  obtain ⟨path, hpath, h⟩ := bind_eq_ok.1 h
  obtain ⟨url, -, h⟩ := bind_eq_ok.1 h
  obtain ⟨refs, hrefs, h⟩ := bind_eq_ok.1 h
  obtain ⟨size, -, h⟩ := bind_eq_ok.1 h
  obtain ⟨nar, -, h⟩ := bind_eq_ok.1 h
  obtain ⟨contentHash, hhash, h⟩ := bind_eq_ok.1 h
  cases h
  exact ⟨storePath_ok hpath, parseRefs_ok hrefs, fileHash_ok hhash⟩

end RepoWatch
