import Mathlib.Algebra.Ring.Int.Defs
import Mathlib.Data.List.DropRight
import RepoWatch.Narinfo
import RepoWatch.Pacman
/-!
# Tarfile — archives as the library reads them

`getmembers` reads an archive header by header, as `tarfile` does.  The headers of the extension types (long names, pax,
sparse files) and negative sizes are left to a parameter that reads the rest of the archive from there.  Where the archive
begins matters only to the first header, so an entry in front of an archive adds a member and changes no other
(`getmembers_append`, `extractfile_cons`).
-/
namespace RepoWatch
namespace Tar

open Lib Pacman

inductive TarError where
  | readError (message : Str)
  | keyError (name : Bytes)
  | recursionError
  | damaged
  deriving DecidableEq

def readError {α : Type} (message : String) : Except TarError α := .error (.readError message.toList)

/-! ## Headers -/

def isOctalDigit (c : Char) : Bool := decide ('0' ≤ c ∧ c ≤ '7')

/-- Octal digits with single underscores between them. -/
def octalDigits (s : Str) : Option Nat :=
  let parts := s.splitOn '_'
  if parts.all (fun part => part ≠ [] && part.all isOctalDigit) then
    some (Radix.value 8 (parts.flatten.map fun c => c.toNat - '0'.toNat))
  else none

/-- A numeral after its sign: `0o` and one underscore may stand in front. -/
def octalUnsigned : Str → Option Nat
  | '0' :: c :: s =>
    if c = 'o' ∨ c = 'O' then
      match s with
      | '_' :: s => octalDigits s
      | s => octalDigits s
    else octalDigits ('0' :: c :: s)
  | s => octalDigits s

/-- `int(s, 8)`. -/
def octalInt : Str → Option Int
  | '-' :: s => (octalUnsigned s).map fun n => -(n : Int)
  | '+' :: s => (octalUnsigned s).map fun n => (n : Int)
  | s => (octalUnsigned s).map fun n => (n : Int)

/-- `nti`: an octal number, or a number of base 256 behind its mark. -/
def nti : Bytes → Option Int
  | 0x80 :: bs => some (BigEndian.decode bs : Int)
  | 0xff :: bs => some ((BigEndian.decode bs : Int) - (256 ^ bs.length : Nat))
  | bs =>
    let text := untilNul bs
    if text.all fun b => decide (b < 128) then
      let digits := strip (text.map fun b => Char.ofNat b.toNat)
      octalInt (if digits = [] then ['0'] else digits)
    else none

/-- The bytes of a header that its checksum is about; those of the checksum count as blanks. -/
def summed (head : Bytes) : Bytes := slice head 0 148 ++ slice head 156 512

/-- The sum of the bytes as signed numbers. -/
def signedSum (bs : Bytes) : Int := (bs.map fun b => if b < 128 then (b.toNat : Int) else (b.toNat : Int) - 256).sum

/-- `calc_chksums`. -/
def calcChksums (head : Bytes) : List Int := [256 + (byteSum (summed head) : Int), 256 + signedSum (summed head)]

/-- What is used of a header. -/
structure TarInfo where
  name : Bytes
  size : Int
  type : UInt8
  linkname : Bytes
  deriving DecidableEq

namespace TarInfo
variable (h : TarInfo)

def isDir : Bool := h.type == 53

/-- Long names, pax headers and sparse files. -/
def isExtension : Bool := [76, 75, 83, 120, 103, 88].contains h.type

/-- `isreg() or type not in SUPPORTED_TYPES`. -/
def hasData : Bool := !([49, 50, 51, 52, 53, 54] : List UInt8).contains h.type

end TarInfo

/-- `name.rstrip("/")`. -/
def rstripSlash (name : Bytes) : Bytes := name.rdropWhile (· == 47)

/-- `frombuf`, of a block that is not zero. -/
def frombuf (head : Bytes) : Except Str TarInfo :=
  match nti (slice head 148 156) with
  | none => .error "invalid header".toList
  | some chksum =>
    if ¬ chksum ∈ calcChksums head then .error "bad checksum".toList
    else match nti (slice head 124 136) with
      | none => .error "invalid header".toList
      | some size =>
        if (ignoredNumeric.any fun field => (nti (slice head field.1 field.2)).isNone) = true then .error "invalid header".toList
        else
          let name := untilNul (slice head 0 100)
          let type := head.getD 156 0
          let type := if type = 0 ∧ [47] <:+ name then 53 else type
          let name := if type = 53 then rstripSlash name else name
          let namePrefix := untilNul (slice head 345 500)
          let name := if namePrefix ≠ [] ∧ ¬ type ∈ [76, 75, 83] then namePrefix ++ 47 :: name else name
          .ok { name := name, size := size, type := type, linkname := untilNul (slice head 157 257) }

/-! ## Members -/

/-- A member with its data. -/
structure Member where
  name : Bytes
  type : UInt8
  linkname : Bytes
  content : Bytes
  deriving DecidableEq

/-- `_block`. -/
def block (size : Nat) : Nat := size + padding size

/-- `_proc_builtin`, with the data of the member. -/
def TarInfo.member (h : TarInfo) (content : Bytes) : Member where
  name := if h.isDir then rstripSlash h.name else h.name
  type := h.type
  linkname := h.linkname
  content := content

/-- The rest of an archive from a header of an extension on, and whether the stream is damaged at its end; the outer error
is one of the header itself. -/
abbrev Extension := Bool → Bytes → Except Str (Except TarError (List Member))

section
variable (extension : Extension) (damaged : Bool)

/-- An invalid header is an error where the archive begins, and the end of the archive elsewhere. -/
def invalid (first : Bool) (message : Str) : Except TarError (List Member) :=
  if first then .error (.readError message) else .ok []

/-- The members from a header on; `first` at the beginning of the archive. -/
def membersFrom (first : Bool) (bs : Bytes) : Except TarError (List Member) :=
  if _h : bs.length < 512 then
    if damaged then .error .damaged
    else invalid first (if bs = [] then "empty file".toList else "truncated header".toList)
  else if (bs.take 512).all (· == 0) then .ok []
  else match frombuf (bs.take 512) with
    | .error message => invalid first message
    | .ok h =>
      if h.isExtension || h.hasData && decide (h.size < 0) then
        match extension damaged bs with
        | .error message => invalid first message
        | .ok members => members
      else if !h.hasData then (membersFrom false (bs.drop 512)).map (h.member [] :: ·)
      else if (bs.drop 512).length < block h.size.toNat then
        if damaged then .error .damaged else readError "unexpected end of data"
      else
        (membersFrom false ((bs.drop 512).drop (block h.size.toNat))).map (h.member ((bs.drop 512).take h.size.toNat) :: ·)
termination_by bs.length
decreasing_by all_goals (simp only [List.length_drop]; omega)

/-- `TarFile.getmembers`. -/
def getmembers (bs : Bytes) : Except TarError (List Member) := membersFrom extension damaged true bs

end

/-! ## Links -/

/-- The components of a normal path, the last one first. -/
def normalParts (absolute : Bool) : List Bytes → List Bytes → List Bytes
  | done, [] => done
  | done, part :: parts =>
    if part = [] ∨ part = [46] then normalParts absolute done parts
    else if part ≠ [46, 46] then normalParts absolute (part :: done) parts
    else match done with
      | [] => if absolute then normalParts absolute [] parts else normalParts absolute [part] parts
      | last :: rest =>
        if last = [46, 46] then normalParts absolute (part :: last :: rest) parts else normalParts absolute rest parts

/-- `os.path.normpath`. -/
def normpath (path : Bytes) : Bytes :=
  let slashes := (path.takeWhile (· == 47)).length
  let initial := if slashes = 2 then 2 else min slashes 1
  let text := [(47 : UInt8)].intercalate (normalParts (initial ≠ 0) [] (path.splitOn 47)).reverse
  let result := List.replicate initial 47 ++ text
  if result = [] then [46] else result

/-- `os.path.dirname`. -/
def dirname (path : Bytes) : Bytes :=
  let head := path.rdropWhile (· != 47)
  if head.all (· == 47) then head else rstripSlash head

/-- The name that a symbolic link stands for. -/
def symlinkName (m : Member) : Bytes := [(47 : UInt8)].intercalate ([dirname m.name, m.linkname].filter (· ≠ []))

/-- The place of the last element with a property. -/
def lastIdx? {α : Type} (p : α → Bool) : List α → Option Nat
  | [] => none
  | a :: l =>
    match lastIdx? p l with
    | some i => some (i + 1)
    | none => if p a then some 0 else none

/-- `_find_link_target`: a hard link is to a member before it. -/
def linkTarget (members : List Member) (i : Nat) (m : Member) : Except TarError Nat :=
  let name := if m.type = 50 then symlinkName m else m.linkname
  let scope := if m.type = 50 then members else members.take i
  match lastIdx? (fun other => normpath other.name == normpath name) scope with
  | some j => .ok j
  | none => .error (.keyError name)

/-- `extractfile` of the member at a place, read whole; links may be followed as deep as the interpreter recurses. -/
def extractfile (members : List Member) : Nat → Nat → Except TarError (Option Bytes)
  | 0, _ => .error .recursionError
  | depth + 1, i =>
    match members[i]? with
    | none => .ok none
    | some m =>
      if !([49, 50, 51, 52, 53, 54] : List UInt8).contains m.type then .ok (some m.content)
      else if m.type = 49 ∨ m.type = 50 then (linkTarget members i m).bind (extractfile members depth)
      else .ok none

/-! ## An entry in front -/

/-- One plain entry with its data, and nothing after it. -/
def isEntry (bs : Bytes) : Bool :=
  match frombuf (bs.take 512) with
  | .error _ => false
  | .ok h => !h.isExtension && h.hasData && decide (0 ≤ h.size) && decide (bs.length = 512 + block h.size.toNat) &&
    !(bs.take 512).all (· == 0)

section
variable {extension : Extension} {damaged : Bool}

/-- **Only the first header can be at fault** for where it stands. -/
theorem membersFrom_false {bs : Bytes} {members : List Member} (h : membersFrom extension damaged true bs = .ok members) :
    membersFrom extension damaged false bs = .ok members := by
  have hinvalid : ∀ {message}, invalid true message ≠ .ok members := by
    intro message hok
    cases hok
  unfold membersFrom at h ⊢
  split at h
  · rename_i hshort
    rw [dif_pos hshort]
    split at h
    · cases h
    · exact absurd h hinvalid
  · rename_i hlong
    rw [dif_neg hlong]
    split at h
    · rename_i hzero
      rw [if_pos hzero]
      exact h
    · rename_i hzero
      rw [if_neg hzero]
      cases hhead : frombuf (bs.take 512) with
      | error message =>
        rw [hhead] at h
        exact absurd h hinvalid
      | ok info =>
        rw [hhead] at h
        dsimp only at h ⊢
        by_cases hext : (info.isExtension || info.hasData && decide (info.size < 0)) = true
        · rw [if_pos hext] at h ⊢
          cases hrest : extension damaged bs with
          | error message =>
            rw [hrest] at h
            exact absurd h hinvalid
          | ok rest =>
            rw [hrest] at h
            exact h
        · rw [if_neg hext] at h ⊢
          exact h

/-- **A plain entry** is a member, and reading goes on behind its data. -/
theorem membersFrom_entry {bs : Bytes} {h : TarInfo} (first : Bool) (hlength : 512 ≤ bs.length)
    (hzero : (bs.take 512).all (· == 0) = false) (hhead : frombuf (bs.take 512) = .ok h) (hext : h.isExtension = false)
    (hdata : h.hasData = true) (hsize : 0 ≤ h.size) (hroom : block h.size.toNat ≤ (bs.drop 512).length) :
    membersFrom extension damaged first bs = (membersFrom extension damaged false ((bs.drop 512).drop (block h.size.toNat))).map
      (h.member ((bs.drop 512).take h.size.toNat) :: ·) := by
  have hplain : (h.isExtension || h.hasData && decide (h.size < 0)) = false := by
    rw [hext, hdata, decide_eq_false (by omega)]
    rfl
  rw [membersFrom, dif_neg (by omega), hzero, if_neg (by decide), hhead]
  dsimp only
  rw [hplain, if_neg (by decide), hdata, if_neg (by decide), if_neg (by omega)]

/-- **A zero block** ends an archive. -/
theorem membersFrom_zero {bs : Bytes} (first : Bool) (hlength : 512 ≤ bs.length) (hzero : (bs.take 512).all (· == 0) = true) :
    membersFrom extension damaged first bs = .ok [] := by
  rw [membersFrom, dif_neg (by omega), if_pos hzero]

/-- **An entry in front of an archive** is one more member. -/
theorem getmembers_append {entry bs : Bytes} {members : List Member} (hentry : isEntry entry = true)
    (h : getmembers extension damaged bs = .ok members) :
    ∃ m : Member, getmembers extension damaged (entry ++ bs) = .ok (m :: members) ∧
      ∀ {ms}, getmembers extension false entry = .ok ms → ms = [m] := by
  unfold isEntry at hentry
  cases hhead : frombuf (entry.take 512) with
  | error message =>
    rw [hhead] at hentry
    cases hentry
  | ok info =>
    rw [hhead] at hentry
    simp only [Bool.and_eq_true, Bool.not_eq_true', decide_eq_true_eq] at hentry
    obtain ⟨⟨⟨⟨hext, hdata⟩, hsize⟩, hlength⟩, hzero⟩ := hentry
    have hblock : info.size.toNat ≤ block info.size.toNat := Nat.le_add_right _ _
    have htake : (entry ++ bs).take 512 = entry.take 512 := List.take_append_of_le_length (by omega)
    have hdrop : (entry ++ bs).drop 512 = entry.drop 512 ++ bs := List.drop_append_of_le_length (by omega)
    have hrest : (entry.drop 512).length = block info.size.toNat := by rw [List.length_drop]; omega
    refine ⟨info.member ((entry.drop 512).take info.size.toNat), ?_, ?_⟩
    · unfold getmembers
      rw [membersFrom_entry true (by rw [List.length_append]; omega) (htake ▸ hzero) (htake ▸ hhead) hext hdata hsize
          (by rw [hdrop, List.length_append]; omega),
        hdrop, List.drop_left' hrest, membersFrom_false h, List.take_append_of_le_length (by omega)]
      rfl
    · intro ms hms
      unfold getmembers at hms
      rw [membersFrom_entry true (by omega) hzero hhead hext hdata hsize (by omega), List.drop_eq_nil_of_le hrest.le,
        membersFrom, dif_pos (by decide), if_neg (by decide)] at hms
      cases hms
      rfl

end

theorem lastIdx?_cons {α : Type} {p : α → Bool} {a : α} {l : List α} {i : Nat} (h : lastIdx? p l = some i) :
    lastIdx? p (a :: l) = some (i + 1) := by
  rw [lastIdx?, h]

/-- **A file that can be read is the same** with a member in front. -/
theorem extractfile_cons (first : Member) {members : List Member} : ∀ {depth i : Nat} {result : Option Bytes},
    extractfile members depth i = .ok result → extractfile (first :: members) depth (i + 1) = .ok result
  | depth + 1, i, result, h => by
    rw [extractfile] at h ⊢
    rw [List.getElem?_cons_succ]
    cases hm : members[i]? with
    | none =>
      rw [hm] at h
      exact h
    | some m =>
      rw [hm] at h
      dsimp only at h ⊢
      split at h
      · rename_i hdata
        rw [if_pos hdata]
        exact h
      · rename_i hdata
        rw [if_neg hdata]
        split at h
        · rename_i hlink
          rw [if_pos hlink]
          obtain ⟨j, hj, h⟩ := bind_eq_ok.1 h
          have htarget : linkTarget (first :: members) (i + 1) m = .ok (j + 1) := by
            unfold linkTarget at hj ⊢
            dsimp only at hj ⊢
            have hscope : (if m.type = 50 then first :: members else (first :: members).take (i + 1)) =
                first :: (if m.type = 50 then members else members.take i) := by
              split <;> rfl
            rw [hscope]
            split at hj
            · rename_i hlast
              cases hj
              rw [lastIdx?_cons hlast]
            · cases hj
          exact bind_eq_ok.2 ⟨j + 1, htarget, extractfile_cons first h⟩
        · rename_i hlink
          rw [if_neg hlink]
          exact h

end Tar
end RepoWatch
