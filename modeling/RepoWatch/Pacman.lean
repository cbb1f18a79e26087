import Mathlib.Algebra.GroupWithZero.Nat
import Mathlib.Data.List.DropRight
import Mathlib.Data.List.TakeWhile
import RepoWatch.Lib.Loop
import RepoWatch.Lib.Radix
import RepoWatch.Text
/-!
# Pacman — the members of a package database

A database is a tar archive of a directory and a `desc` file for each package.  `Blocks` reads the decompressed stream however
its reads are cut, and `descMembers` walks the archive header by header; anything but plain headers is left to the library.
`Walk` is the same walk over the bytes themselves, without a buffer and without a memo (`descMembers_iff`).
-/
namespace RepoWatch
namespace Pacman

open Lib

/-- `_Unusual`, with its text. -/
structure Unusual where
  message : Str

def unusual {α : Type} (message : String) : Except Unusual α := .error ⟨message.toList⟩

/-! ## The stream -/

/-- `_CHUNK`. -/
def chunkSize : Nat := 256 * 1024

/-- What the reads of a decompressed stream return one after another, and the error of the one after them if the stream is
damaged. -/
structure Stream where
  chunks : List Bytes
  damage : Option Str

/-- `_Blocks`. -/
structure Blocks where
  stream : Stream
  buffer : Bytes
  start : Nat

namespace Blocks

/-- The loop of `take`. -/
def fill (size : Nat) (damage : Option Str) : List Bytes → Bytes → Nat → Except Unusual Blocks
  | [], buffer, start =>
    if size ≤ buffer.length - start then .ok ⟨⟨[], damage⟩, buffer, start⟩
    else match damage with
      | some message => .error ⟨message⟩
      | none => .ok ⟨⟨[], none⟩, buffer, start⟩
  | chunk :: chunks, buffer, start =>
    if size ≤ buffer.length - start then .ok ⟨⟨chunk :: chunks, damage⟩, buffer, start⟩
    else if chunk = [] then .ok ⟨⟨chunks, damage⟩, buffer, start⟩
    else fill size damage chunks (buffer.drop start ++ chunk) 0

def take (b : Blocks) (size : Nat) : Except Unusual (Bytes × Blocks) :=
  (fill size b.stream.damage b.stream.chunks b.buffer b.start).map fun b =>
    let stop := b.start + min size (b.buffer.length - b.start)
    ((b.buffer.drop b.start).take (stop - b.start), { b with start := stop })

/-- The bytes that are still to come. -/
def content (b : Blocks) : Bytes := b.buffer.drop b.start ++ b.stream.chunks.flatten

def skip (b : Blocks) (size : Nat) : Except Unusual Blocks :=
  if size = 0 then .ok b
  else match b.take (min size chunkSize) with
    | .error e => .error e
    | .ok (data, b) => if _h : data.length = 0 then unusual "truncated archive" else b.skip (size - data.length)
termination_by size

end Blocks

/-! ## Headers -/

def slice (bs : Bytes) (start stop : Nat) : Bytes := (bs.drop start).take (stop - start)

def isOctal (b : UInt8) : Bool := decide (48 ≤ b ∧ b ≤ 55)

def isBlank (b : UInt8) : Bool := b == 0 || b == 32

/-- `_octal`. -/
def octal (field : Bytes) : Except Unusual Nat :=
  if ((field.dropWhile (· == 32)).dropWhile isOctal).all isBlank = true then
    let digits := (field.dropWhile isBlank).rdropWhile isBlank
    .ok (Radix.value 8 (digits.map fun b => b.toNat - 48))
  else unusual "unusual numeric field"

/-- `_IGNORED_NUMERIC`. -/
def ignoredNumeric : List (Nat × Nat) := [(100, 108), (108, 116), (116, 124), (136, 148), (329, 337), (337, 345)]

def ignoredKey (head : Bytes) : Bytes := slice head 100 124 ++ slice head 136 148 ++ slice head 329 345

/-- The memo of a header's fields that are only validated. -/
def checkIgnored (checked : List Bytes) (head : Bytes) : Except Unusual (List Bytes) :=
  if ignoredKey head ∈ checked then .ok checked
  else (ignoredNumeric.mapM fun field => octal (slice head field.1 field.2)).map fun _ =>
    if checked.length < 16 then ignoredKey head :: checked else checked

def byteSum (bs : Bytes) : Nat := (bs.map UInt8.toNat).sum

/-- `b"ustar\x0000"`. -/
def posixMagic : Bytes := [117, 115, 116, 97, 114, 0, 48, 48]

/-- `b"ustar  \x00"`. -/
def gnuMagic : Bytes := [117, 115, 116, 97, 114, 32, 32, 0]

/-- `bs.split(b"\0", 1)[0]`. -/
def untilNul (bs : Bytes) : Bytes := bs.takeWhile (· != 0)

/-- The size and the name of a member; no size where there is no data. -/
structure Header where
  size : Nat
  name : Bytes
  directory : Bool
  deriving DecidableEq

def memberName (head : Bytes) : Bytes :=
  if head.getD 345 0 ≠ 0 then untilNul (slice head 345 500) ++ 47 :: untilNul (slice head 0 100)
  else untilNul (slice head 0 100)

/-- The part of a header that is read for every member. -/
def readHeader (head : Bytes) : Except Unusual Header := do
  let size ← octal (slice head 124 136)
  let checksum ← octal (slice head 148 156)
  if byteSum head - byteSum (slice head 148 156) + 256 ≠ checksum then unusual "checksum not the plain unsigned sum"
  else
    let magic := slice head 257 265
    if ¬ (magic = posixMagic ∨ magic = gnuMagic) then unusual "not a ustar/GNU header"
    else if head.getD 345 0 ≠ 0 ∧ magic ≠ posixMagic then unusual "GNU header with an atime/ctime area"
    else
      let name := memberName head
      let kind := slice head 156 157
      if kind = [53] then return ⟨size, name, true⟩
      else if ¬ (kind = [48] ∨ kind = [0]) ∨ kind = [0] ∧ [47] <:+ name then unusual "member type handled by tarfile"
      else return ⟨size, name, false⟩

/-- `-size % _BLOCK`. -/
def padding (size : Nat) : Nat := (512 - size % 512) % 512

/-- `b"/desc"`. -/
def descSuffix : Bytes := [47, 100, 101, 115, 99]

/-- What a round does with a member: the body that it yields, and where it goes on. -/
def readBody (header : Header) (b : Blocks) : Except Unusual (Option Bytes × Blocks) := do
  if header.directory = true then return (none, b)
  else if descSuffix <:+ header.name then
    let (body, b) ← b.take header.size
    if body.length ≠ header.size then unusual "truncated member"
    else
      let b ← b.skip (padding header.size)
      return (some body, b)
  else
    let b ← b.skip (header.size + padding header.size)
    return (none, b)

/-- One round of `_desc_members`: the body that it yields and what it goes on with; `none` at the end of the archive. -/
def readMember (b : Blocks) (checked : List Bytes) : Except Unusual (Option (Option Bytes × Blocks × List Bytes)) := do
  let (head, b) ← b.take 512
  if head.length ≠ 512 then unusual "no end-of-archive marker"
  else if head.all (· == 0) = true then return none
  else
    let checked ← checkIgnored checked head
    let header ← readHeader head
    let (body, b) ← readBody header b
    return some (body, b, checked)

/-! ## Reads -/

namespace Blocks
variable {b b' : Blocks} {size : Nat} {data : Bytes}

/-- No read but the last returns nothing. -/
def Whole (b : Blocks) : Prop := ∀ chunk ∈ b.stream.chunks, chunk ≠ []

theorem content_fill {damage : Option Str} : ∀ {chunks : List Bytes} {buffer : Bytes} {start : Nat},
    fill size damage chunks buffer start = .ok b → b.content = buffer.drop start ++ chunks.flatten
  | [], buffer, start, h => by
    unfold fill at h
    split at h
    · cases h
      rfl
    · split at h <;> cases h
      rfl
  | chunk :: chunks, buffer, start, h => by
    unfold fill at h
    split at h
    · cases h
      rfl
    split at h
    · rename_i hnil
      cases h
      rw [hnil]
      rfl
    · rw [content_fill h, List.drop_zero, List.flatten_cons, List.append_assoc]

/-- **Enough is fetched** where there is enough. -/
theorem fill_of_le {damage : Option Str} : ∀ {chunks : List Bytes} {buffer : Bytes} {start : Nat},
    (∀ chunk ∈ chunks, chunk ≠ []) → size ≤ (buffer.drop start ++ chunks.flatten).length →
      ∃ b, fill size damage chunks buffer start = .ok b ∧ b.Whole ∧ size ≤ b.buffer.length - b.start
  | [], buffer, start, hwhole, hle => by
    rw [List.flatten_nil, List.append_nil, List.length_drop] at hle
    exact ⟨⟨⟨[], damage⟩, buffer, start⟩, if_pos hle, hwhole, hle⟩
  | chunk :: chunks, buffer, start, hwhole, hle => by
    unfold fill
    split
    · rename_i hfits
      exact ⟨_, rfl, hwhole, hfits⟩
    · obtain ⟨hne, hwhole⟩ := List.forall_mem_cons.1 hwhole
      rw [if_neg hne]
      refine fill_of_le hwhole ?_
      rwa [List.drop_zero, List.append_assoc, ← List.flatten_cons]

/-- **What is taken** is the start of what is to come. -/
theorem content_take (h : b.take size = .ok (data, b')) : b.content = data ++ b'.content ∧ data.length ≤ size := by
  unfold take at h
  cases hfill : fill size b.stream.damage b.stream.chunks b.buffer b.start with
  | error e =>
    rw [hfill] at h
    cases h
  | ok b₁ =>
    rw [hfill] at h
    have hcontent := content_fill hfill
    cases h
    dsimp only [content] at hcontent ⊢
    rw [Nat.add_sub_cancel_left]
    refine ⟨?_, ?_⟩
    · rw [← hcontent, ← List.append_assoc, ← List.drop_drop, List.take_append_drop]
    · rw [List.length_take]
      omega

theorem take_of_le (hwhole : b.Whole) (hle : size ≤ b.content.length) :
    ∃ b', b.take size = .ok (b.content.take size, b') ∧ b'.Whole := by
  obtain ⟨b₁, hfill, hwhole₁, hfits⟩ := @fill_of_le size b.stream.damage _ _ _ hwhole hle
  have hdata : b.content.take size = (b₁.buffer.drop b₁.start).take size := by
    rw [show b.content = b₁.content from (content_fill hfill).symm, content,
      List.take_append_of_le_length (by rwa [List.length_drop])]
  refine ⟨{ b₁ with start := b₁.start + size }, ?_, hwhole₁⟩
  unfold take
  rw [hfill, hdata]
  unfold Except.map
  dsimp only
  rw [Nat.min_eq_left hfits, Nat.add_sub_cancel_left]

theorem content_skip (h : b.skip size = .ok b') : ∃ data, b.content = data ++ b'.content ∧ data.length = size := by
  fun_induction skip with
  | case1 b =>
    cases h
    exact ⟨[], rfl, rfl⟩
  | case2 b size hne e htake => cases h
  | case3 b size hne data b₁ htake hnil => cases h
  | case4 b size hne data b₁ htake hnil ih =>
    obtain ⟨hcontent, hlen⟩ := content_take htake
    obtain ⟨rest, hrest, hlength⟩ := ih h
    refine ⟨data ++ rest, by rw [hcontent, hrest, List.append_assoc], ?_⟩
    rw [List.length_append, hlength]
    omega

theorem skip_of_le (hwhole : b.Whole) (hle : size ≤ b.content.length) : ∃ b', b.skip size = .ok b' ∧ b'.Whole := by
  induction size using Nat.strongRecOn generalizing b with
  | ind size ih =>
    rw [skip]
    by_cases hzero : size = 0
    · rw [if_pos hzero]
      exact ⟨b, rfl, hwhole⟩
    · have hpos : 0 < min size chunkSize := Nat.lt_min.2 ⟨Nat.pos_of_ne_zero hzero, by decide⟩
      have hmin := Nat.min_le_left size chunkSize
      obtain ⟨b₁, htake, hwhole₁⟩ := take_of_le hwhole (hmin.trans hle)
      obtain ⟨hcontent, -⟩ := content_take htake
      have hlength : (b.content.take (min size chunkSize)).length = min size chunkSize := by
        rw [List.length_take]
        omega
      have hrest := congrArg List.length hcontent
      rw [List.length_append, hlength] at hrest
      rw [if_neg hzero, htake]
      dsimp only
      rw [dif_neg (by omega), hlength]
      exact ih _ (by omega) hwhole₁ (by omega)

end Blocks

/-! ## Numeric fields -/

/-- A plain octal field: blanks, digits, and NULs and blanks after them. -/
structure OctalField (width : Nat) where
  blanks : Nat
  digits : List Nat
  rest : Bytes
  digits_lt : ∀ d ∈ digits, d < 8
  rest_blank : ∀ b ∈ rest, isBlank b = true
  fits : blanks + digits.length + rest.length = width

namespace OctalField
variable {width : Nat}

def numeral (f : OctalField width) : Bytes := f.digits.map fun d => UInt8.ofNat (48 + d)

def bytes (f : OctalField width) : Bytes := List.replicate f.blanks 32 ++ f.numeral ++ f.rest

def value (f : OctalField width) : Nat := Radix.value 8 f.digits

theorem length_bytes (f : OctalField width) : f.bytes.length = width := by
  rw [bytes, List.length_append, List.length_append, List.length_replicate, numeral, List.length_map]
  exact f.fits

end OctalField

theorem octal_digit {d : Nat} (h : d < 8) : isOctal (UInt8.ofNat (48 + d)) = true ∧
    isBlank (UInt8.ofNat (48 + d)) = false ∧ (UInt8.ofNat (48 + d)).toNat - 48 = d := by
  have hall : ∀ d < 8, isOctal (UInt8.ofNat (48 + d)) = true ∧ isBlank (UInt8.ofNat (48 + d)) = false ∧
      (UInt8.ofNat (48 + d)).toNat - 48 = d := by decide
  exact hall d h

theorem digit_of_isOctal {b : UInt8} (h : isOctal b = true) : b.toNat - 48 < 8 ∧ UInt8.ofNat (48 + (b.toNat - 48)) = b := by
  have hb := of_decide_eq_true h
  have hlow := UInt8.le_iff_toNat_le.1 hb.1
  have hhigh := UInt8.le_iff_toNat_le.1 hb.2
  change 48 ≤ b.toNat at hlow
  change b.toNat ≤ 55 at hhigh
  refine ⟨by omega, ?_⟩
  rw [Nat.add_sub_cancel' hlow, UInt8.ofNat_toNat]

/-- Stripping both ends of a text leaves its middle, if it has nothing to strip. -/
theorem strip_middle {p : UInt8 → Bool} {pre mid post : Bytes} (hpre : ∀ b ∈ pre, p b = true) (hpost : ∀ b ∈ post, p b = true)
    (hmid : ∀ b ∈ mid, p b = false) : ((pre ++ mid ++ post).dropWhile p).rdropWhile p = mid := by
  rw [List.append_assoc, List.dropWhile_append_of_pos hpre]
  cases mid with
  | nil => rw [List.nil_append, List.dropWhile_eq_nil_iff.2 hpost, List.rdropWhile_nil]
  | cons b mid =>
    have hb : ¬ p b = true := by rw [hmid b List.mem_cons_self]; exact Bool.false_ne_true
    rw [List.cons_append, List.dropWhile_cons_of_neg hb, ← List.cons_append, List.rdropWhile, List.reverse_append,
      List.dropWhile_append_of_pos fun x hx => hpost x (List.mem_reverse.1 hx),
      List.dropWhile_eq_self_iff.2 fun hl => ?_, List.reverse_reverse]
    rw [hmid _ (List.mem_reverse.1 (List.getElem_mem hl))]
    exact Bool.false_ne_true

theorem octal_bytes {width : Nat} (f : OctalField width) : octal f.bytes = .ok f.value := by
  have hblanks : ∀ b ∈ List.replicate f.blanks (32 : UInt8), b = 32 := fun b hb => List.eq_of_mem_replicate hb
  have hnumeral : ∀ b ∈ f.numeral, isOctal b = true ∧ isBlank b = false := by
    intro b hb
    obtain ⟨d, hd, rfl⟩ := List.mem_map.1 hb
    obtain ⟨hoctal, hblank, -⟩ := octal_digit (f.digits_lt d hd)
    exact ⟨hoctal, hblank⟩
  have hform : ((f.bytes.dropWhile (· == 32)).dropWhile isOctal).all isBlank = true := by
    have hrest : ∃ bs, bs <:+ f.rest ∧ (f.bytes.dropWhile (· == 32)).dropWhile isOctal = bs := by
      rw [OctalField.bytes, List.append_assoc,
        List.dropWhile_append_of_pos fun b hb => beq_iff_eq.2 (hblanks b hb)]
      cases hcase : f.numeral with
      | nil =>
        exact ⟨_, (List.dropWhile_suffix isOctal).trans (List.dropWhile_suffix (· == 32)), rfl⟩
      | cons d ds =>
        have hd := hnumeral d (hcase ▸ List.mem_cons_self)
        have hne : (fun b : UInt8 => b == 32) d ≠ true := fun heq => by
          rw [beq_iff_eq.1 heq] at hd
          exact absurd hd.1 (by decide)
        have hstop : (d :: ds ++ f.rest).dropWhile (· == 32) = d :: ds ++ f.rest := List.dropWhile_cons_of_neg hne
        rw [hstop, ← hcase, List.dropWhile_append_of_pos fun b hb => (hnumeral b hb).1]
        exact ⟨_, List.dropWhile_suffix isOctal, rfl⟩
    obtain ⟨bs, hsuffix, heq⟩ := hrest
    rw [heq, List.all_eq_true]
    exact fun b hb => f.rest_blank b (hsuffix.subset hb)
  have hstrip : (f.bytes.dropWhile isBlank).rdropWhile isBlank = f.numeral :=
    strip_middle (fun b hb => by rw [hblanks b hb]; rfl) f.rest_blank fun b hb => (hnumeral b hb).2
  have hdigits : (f.numeral.map fun b => b.toNat - 48) = f.digits := by
    rw [OctalField.numeral, List.map_map]
    exact (List.map_congr_left fun d hd => (octal_digit (f.digits_lt d hd)).2.2).trans (List.map_id _)
  unfold octal
  rw [if_pos hform, hstrip]
  exact congrArg (fun ds => Except.ok (Radix.value 8 ds)) hdigits

/-- The parts of a field without anything else. -/
def OctalField.ofBytes (field : Bytes) (h : ((field.dropWhile (· == 32)).dropWhile isOctal).all isBlank = true) :
    OctalField field.length where
  blanks := (field.takeWhile (· == 32)).length
  digits := ((field.dropWhile (· == 32)).takeWhile isOctal).map fun b => b.toNat - 48
  rest := (field.dropWhile (· == 32)).dropWhile isOctal
  digits_lt d hd := by
    obtain ⟨b, hb, rfl⟩ := List.mem_map.1 hd
    exact (digit_of_isOctal (List.mem_takeWhile_imp hb)).1
  rest_blank := List.all_eq_true.1 h
  fits := by
    rw [List.length_map, Nat.add_assoc, ← List.length_append, List.takeWhile_append_dropWhile, ← List.length_append,
      List.takeWhile_append_dropWhile]

theorem OctalField.bytes_ofBytes (field : Bytes)
    (h : ((field.dropWhile (· == 32)).dropWhile isOctal).all isBlank = true) : (OctalField.ofBytes field h).bytes = field := by
  have hblanks : List.replicate (field.takeWhile (· == 32)).length 32 = field.takeWhile (· == 32) :=
    (List.eq_replicate_iff.2 ⟨rfl, fun b hb => by simpa using List.mem_takeWhile_imp hb⟩).symm
  have hnumeral : (OctalField.ofBytes field h).numeral = (field.dropWhile (· == 32)).takeWhile isOctal := by
    refine (List.map_map ..).trans ((List.map_congr_left fun b hb => ?_).trans (List.map_id _))
    exact (digit_of_isOctal (List.mem_takeWhile_imp hb)).2
  unfold OctalField.bytes
  rw [hnumeral]
  unfold OctalField.ofBytes
  dsimp only
  rw [hblanks, List.append_assoc, List.takeWhile_append_dropWhile, List.takeWhile_append_dropWhile]

/-- **A field that is read** is a plain octal field. -/
theorem octal_eq_ok {field : Bytes} {n : Nat} (h : octal field = .ok n) :
    ∃ f : OctalField field.length, f.bytes = field ∧ f.value = n := by
  by_cases hform : ((field.dropWhile (· == 32)).dropWhile isOctal).all isBlank = true
  · have hbytes := OctalField.bytes_ofBytes field hform
    have hvalue := octal_bytes (OctalField.ofBytes field hform)
    rw [hbytes, h] at hvalue
    exact ⟨_, hbytes, (Except.ok.inj hvalue).symm⟩
  · unfold octal at h
    rw [if_neg hform] at h
    cases h

/-- The field is a plain octal one of that value. -/
def IsNumber (field : Bytes) (n : Nat) : Prop := ∃ f : OctalField field.length, f.bytes = field ∧ f.value = n

theorem octal_iff {field : Bytes} {n : Nat} : octal field = .ok n ↔ IsNumber field n := by
  refine ⟨octal_eq_ok, ?_⟩
  rintro ⟨f, hbytes, rfl⟩
  rw [← octal_bytes f, hbytes]

/-! ## The walk -/

/-- The fields that are only validated are numbers. -/
def IgnoredValid (head : Bytes) : Prop := ∀ field ∈ ignoredNumeric, ∃ n, IsNumber (slice head field.1 field.2) n

/-- A plain header of a directory or a regular file. -/
structure ValidHeader (head : Bytes) (h : Header) : Prop where
  length : head.length = 512
  ignored : IgnoredValid head
  size : IsNumber (slice head 124 136) h.size
  checksum : IsNumber (slice head 148 156) (byteSum head - byteSum (slice head 148 156) + 256)
  magic : slice head 257 265 = posixMagic ∨ slice head 257 265 = gnuMagic ∧ head.getD 345 0 = 0
  name : h.name = memberName head
  kind : slice head 156 157 = [53] ∧ h.directory = true ∨
    (slice head 156 157 = [48] ∨ slice head 156 157 = [0] ∧ ¬ [47] <:+ h.name) ∧ h.directory = false

/-- The archive begins with a member, whose body is given if it is a `desc` file, and goes on with the rest. -/
inductive Member : Bytes → Option Bytes → Bytes → Prop
  | directory {head rest : Bytes} {h : Header} : ValidHeader head h → h.directory = true → Member (head ++ rest) none rest
  | desc {head body pad rest : Bytes} {h : Header} : ValidHeader head h → h.directory = false → descSuffix <:+ h.name →
      body.length = h.size → pad.length = padding h.size → Member (head ++ (body ++ (pad ++ rest))) (some body) rest
  | other {head data rest : Bytes} {h : Header} : ValidHeader head h → h.directory = false → ¬ descSuffix <:+ h.name →
      data.length = h.size + padding h.size → Member (head ++ (data ++ rest)) none rest

/-- The bodies of the `desc` files up to the first block of zeros. -/
inductive Walk : Bytes → List Bytes → Prop
  | stop {head rest : Bytes} : head.length = 512 → (∀ b ∈ head, b = 0) → Walk (head ++ rest) []
  | member {content rest : Bytes} {body : Option Bytes} {bodies : List Bytes} : Member content body rest →
      Walk rest bodies → Walk content (body.toList ++ bodies)

theorem length_slice {bs : Bytes} {start stop : Nat} (h : stop ≤ bs.length) : (slice bs start stop).length = stop - start := by
  rw [slice, List.length_take, List.length_drop]
  omega

theorem slice_slice {bs : Bytes} {start stop n m : Nat} (h : start + m ≤ stop) :
    slice (slice bs start stop) n m = slice bs (start + n) (start + m) := by
  unfold slice
  rw [List.drop_take, List.take_take, List.drop_drop]
  congr 1
  omega

theorem mem_of_mem_slice {bs : Bytes} {start stop : Nat} {b : UInt8} (h : b ∈ slice bs start stop) : b ∈ bs :=
  List.mem_of_mem_drop (List.mem_of_mem_take h)

theorem ValidHeader.nonzero {head : Bytes} {h : Header} (hv : ValidHeader head h) : ¬ head.all (· == 0) = true := by
  intro hzero
  have hmem : (117 : UInt8) ∈ slice head 257 265 := by
    rcases hv.magic with hm | ⟨hm, -⟩
    · rw [hm]
      exact List.mem_cons_self
    · rw [hm]
      exact List.mem_cons_self
  exact absurd (List.all_eq_true.1 hzero 117 (mem_of_mem_slice hmem)) (by decide)

/-- **A header is read** exactly when it is a plain one. -/
theorem readHeader_iff {head : Bytes} {h : Header} (hlength : head.length = 512) (hignored : IgnoredValid head) :
    readHeader head = .ok h ↔ ValidHeader head h := by
  constructor
  · intro hr
    unfold readHeader at hr
    obtain ⟨size, hsize, hr⟩ := bind_eq_ok.1 hr
    obtain ⟨checksum, hchecksum, hr⟩ := bind_eq_ok.1 hr
    rw [octal_iff] at hsize hchecksum
    split at hr
    · cases hr
    rename_i hsum
    rw [not_not] at hsum
    dsimp only at hr
    split at hr
    · cases hr
    rename_i hmagic
    rw [not_not] at hmagic
    split at hr
    · cases hr
    rename_i harea
    have hmagic' : slice head 257 265 = posixMagic ∨ slice head 257 265 = gnuMagic ∧ head.getD 345 0 = 0 := by
      by_cases hposix : slice head 257 265 = posixMagic
      · exact Or.inl hposix
      · refine Or.inr ⟨hmagic.resolve_left hposix, ?_⟩
        by_contra hne
        exact harea ⟨hne, hposix⟩
    split at hr
    · rename_i hkind
      cases hr
      exact ⟨hlength, hignored, hsize, hsum ▸ hchecksum, hmagic', rfl, Or.inl ⟨hkind, rfl⟩⟩
    split at hr
    · cases hr
    rename_i hkind
    cases hr
    rw [not_or, not_not, not_and] at hkind
    refine ⟨hlength, hignored, hsize, hsum ▸ hchecksum, hmagic', rfl, Or.inr ⟨?_, rfl⟩⟩
    exact hkind.1.imp_right fun hnul => ⟨hnul, hkind.2 hnul⟩
  · intro hv
    unfold readHeader
    refine bind_eq_ok.2 ⟨_, octal_iff.2 hv.size, bind_eq_ok.2 ⟨_, octal_iff.2 hv.checksum, ?_⟩⟩
    rw [if_neg (not_not.2 rfl)]
    dsimp only
    rw [if_neg (not_not.2 (hv.magic.imp_right And.left)), if_neg]
    · rcases hv.kind with ⟨hkind, hdir⟩ | ⟨hkind, hdir⟩
      · rw [if_pos hkind, ← hv.name, ← hdir]
        rfl
      · have hne : slice head 156 157 ≠ [53] := by
          rcases hkind with hkind | ⟨hkind, -⟩ <;> rw [hkind] <;> decide
        rw [if_neg hne, ← hv.name, if_neg, ← hdir]
        · rfl
        · rintro (hno | ⟨hnul, hslash⟩)
          · exact hno (hkind.imp_right And.left)
          · rcases hkind with hkind | ⟨-, hnot⟩
            · rw [hkind] at hnul
              exact absurd hnul (by decide)
            · exact hnot hslash
    · rintro ⟨harea, hposix⟩
      exact harea (hv.magic.resolve_left hposix).2

/-! ## The memo -/

/-- What the memo knows about was validated. -/
def Memo (checked : List Bytes) : Prop :=
  ∀ head : Bytes, head.length = 512 → ignoredKey head ∈ checked → IgnoredValid head

/-- The memo's key has all the fields. -/
theorem ignoredValid_congr {head head' : Bytes} (hlength : head.length = 512) (hlength' : head'.length = 512)
    (hkey : ignoredKey head = ignoredKey head') (h : IgnoredValid head) : IgnoredValid head' := by
  have hslice : ∀ start stop, stop ≤ 512 → (slice head start stop).length = (slice head' start stop).length :=
    fun start stop hstop => by rw [length_slice (by omega), length_slice (by omega)]
  unfold ignoredKey at hkey
  rw [List.append_assoc, List.append_assoc] at hkey
  obtain ⟨hfirst, hkey⟩ := List.append_inj hkey (hslice 100 124 (by decide))
  obtain ⟨hsecond, hthird⟩ := List.append_inj hkey (hslice 136 148 (by decide))
  have hsame : ∀ field ∈ ignoredNumeric, slice head field.1 field.2 = slice head' field.1 field.2 := by
    have hpart : ∀ start stop n m, start + m ≤ stop → slice head start stop = slice head' start stop →
        slice head (start + n) (start + m) = slice head' (start + n) (start + m) := fun start stop n m hle heq => by
      rw [← slice_slice hle, ← slice_slice hle, heq]
    simp only [ignoredNumeric, List.forall_mem_cons]
    refine ⟨hpart 100 124 0 8 (by decide) hfirst, hpart 100 124 8 16 (by decide) hfirst,
      hpart 100 124 16 24 (by decide) hfirst, hsecond, hpart 329 345 0 8 (by decide) hthird,
      hpart 329 345 8 16 (by decide) hthird, nofun⟩
  intro field hfield
  rw [← hsame field hfield]
  exact h field hfield

theorem memo_nil : Memo [] := fun _ _ h => absurd h List.not_mem_nil

theorem memo_of_checkIgnored {checked checked' : List Bytes} {head : Bytes} (hmemo : Memo checked)
    (hlength : head.length = 512) (h : checkIgnored checked head = .ok checked') : IgnoredValid head ∧ Memo checked' := by
  unfold checkIgnored at h
  split at h
  · rename_i hknown
    cases h
    exact ⟨hmemo head hlength hknown, hmemo⟩
  · cases hfields : ignoredNumeric.mapM fun field => octal (slice head field.1 field.2) with
    | error e =>
      rw [hfields] at h
      cases h
    | ok values =>
      rw [hfields] at h
      cases h
      have hvalid : IgnoredValid head := fun field hfield => by
        obtain ⟨n, -, hn⟩ := (mem_of_mapM_eq_ok hfields).2 field hfield
        exact ⟨n, octal_iff.1 hn⟩
      refine ⟨hvalid, fun head' hlength' hmem => ?_⟩
      split at hmem
      · rcases List.mem_cons.1 hmem with hkey | hmem
        · exact ignoredValid_congr hlength hlength' hkey.symm hvalid
        · exact hmemo head' hlength' hmem
      · exact hmemo head' hlength' hmem

theorem checkIgnored_of_valid (checked : List Bytes) {head : Bytes} (h : IgnoredValid head) :
    ∃ checked', checkIgnored checked head = .ok checked' := by
  unfold checkIgnored
  split
  · exact ⟨checked, rfl⟩
  · obtain ⟨values, hvalues⟩ := mapM_ok fun field hfield => by
      obtain ⟨n, hn⟩ := h field hfield
      exact ⟨n, octal_iff.2 hn⟩
    rw [hvalues]
    exact ⟨_, rfl⟩

/-! ## One member -/

section
variable {b b' : Blocks} {checked checked' : List Bytes} {body : Option Bytes} {rest : Bytes}

/-- **What a member's data is**: nothing for a directory, and else the size rounded up to a block. -/
theorem readBody_eq_ok {h : Header} (hb : readBody h b = .ok (body, b')) : ∃ data, b.content = data ++ b'.content ∧
    (h.directory = true ∧ data = [] ∧ body = none ∨
    h.directory = false ∧ descSuffix <:+ h.name ∧
      (∃ desc pad, data = desc ++ pad ∧ desc.length = h.size ∧ pad.length = padding h.size ∧ body = some desc) ∨
    h.directory = false ∧ ¬ descSuffix <:+ h.name ∧ data.length = h.size + padding h.size ∧ body = none) := by
  unfold readBody at hb
  split at hb
  · rename_i hdir
    cases hb
    exact ⟨[], rfl, Or.inl ⟨hdir, rfl, rfl⟩⟩
  rename_i hfile
  rw [Bool.not_eq_true] at hfile
  split at hb
  · rename_i hdesc
    obtain ⟨⟨desc, b₁⟩, hdata, hb⟩ := bind_eq_ok.1 hb
    obtain ⟨hcontent, -⟩ := Blocks.content_take hdata
    dsimp only at hb
    split at hb
    · cases hb
    rename_i hsize
    rw [not_not] at hsize
    obtain ⟨b₂, hskip, hb⟩ := bind_eq_ok.1 hb
    obtain ⟨pad, hcontent', hpad⟩ := Blocks.content_skip hskip
    cases hb
    refine ⟨desc ++ pad, by rw [hcontent, hcontent', List.append_assoc], ?_⟩
    exact Or.inr (Or.inl ⟨hfile, hdesc, desc, pad, rfl, hsize, hpad, rfl⟩)
  · rename_i hdesc
    obtain ⟨b₁, hskip, hb⟩ := bind_eq_ok.1 hb
    obtain ⟨data, hcontent, hdata⟩ := Blocks.content_skip hskip
    cases hb
    exact ⟨data, hcontent, Or.inr (Or.inr ⟨hfile, hdesc, hdata, rfl⟩)⟩

theorem member_of_readBody {head : Bytes} {h : Header} (hvalid : ValidHeader head h) (hb : readBody h b = .ok (body, b')) :
    Member (head ++ b.content) body b'.content := by
  obtain ⟨data, hcontent, ⟨hdir, rfl, rfl⟩ | ⟨hfile, hdesc, desc, pad, rfl, hsize, hpad, rfl⟩ |
    ⟨hfile, hdesc, hdata, rfl⟩⟩ := readBody_eq_ok hb
  · rw [hcontent]
    exact .directory hvalid hdir
  · rw [hcontent, List.append_assoc]
    exact .desc hvalid hfile hdesc hsize hpad
  · rw [hcontent]
    exact .other hvalid hfile hdesc hdata

/-- **What a round yields** is the member that the rest of the archive begins with. -/
theorem member_of_readMember (hmemo : Memo checked) (h : readMember b checked = .ok (some (body, b', checked'))) :
    Member b.content body b'.content ∧ Memo checked' := by
  unfold readMember at h
  obtain ⟨⟨head, b₁⟩, htake, h⟩ := bind_eq_ok.1 h
  obtain ⟨hcontent, -⟩ := Blocks.content_take htake
  dsimp only at h
  split at h
  · cases h
  rename_i hlength
  rw [not_not] at hlength
  split at h
  · cases h
  obtain ⟨checked₁, hchecked, h⟩ := bind_eq_ok.1 h
  obtain ⟨header, hheader, h⟩ := bind_eq_ok.1 h
  obtain ⟨⟨body', b₂⟩, hbody, h⟩ := bind_eq_ok.1 h
  cases h
  obtain ⟨hignored, hmemo'⟩ := memo_of_checkIgnored hmemo hlength hchecked
  rw [hcontent]
  exact ⟨member_of_readBody ((readHeader_iff hlength hignored).1 hheader) hbody, hmemo'⟩

theorem stop_of_readMember (h : readMember b checked = .ok none) :
    ∃ head rest, b.content = head ++ rest ∧ head.length = 512 ∧ ∀ x ∈ head, x = 0 := by
  unfold readMember at h
  obtain ⟨⟨head, b₁⟩, htake, h⟩ := bind_eq_ok.1 h
  obtain ⟨hcontent, -⟩ := Blocks.content_take htake
  dsimp only at h
  split at h
  · cases h
  rename_i hlength
  split at h
  · rename_i hzero
    exact ⟨head, _, hcontent, not_not.1 hlength, fun x hx => beq_iff_eq.1 (List.all_eq_true.1 hzero x hx)⟩
  · exfalso
    obtain ⟨checked₁, -, h⟩ := bind_eq_ok.1 h
    obtain ⟨header, -, h⟩ := bind_eq_ok.1 h
    obtain ⟨⟨body', b₂⟩, -, h⟩ := bind_eq_ok.1 h
    cases h

/-- A block that is there is taken whole. -/
theorem take_append {data : Bytes} (hwhole : b.Whole) (hcontent : b.content = data ++ rest) :
    ∃ b', b.take data.length = .ok (data, b') ∧ b'.content = rest ∧ b'.Whole := by
  obtain ⟨b', htake, hwhole'⟩ := @Blocks.take_of_le b data.length hwhole (by rw [hcontent, List.length_append]; omega)
  rw [hcontent, List.take_left] at htake
  have hrest := (Blocks.content_take htake).1
  rw [hcontent] at hrest
  exact ⟨b', htake, (List.append_cancel_left hrest).symm, hwhole'⟩

theorem skip_append {data : Bytes} (hwhole : b.Whole) (hcontent : b.content = data ++ rest) :
    ∃ b', b.skip data.length = .ok b' ∧ b'.content = rest ∧ b'.Whole := by
  obtain ⟨b', hskip, hwhole'⟩ := @Blocks.skip_of_le b data.length hwhole (by rw [hcontent, List.length_append]; omega)
  obtain ⟨data', hdata, hlength⟩ := Blocks.content_skip hskip
  rw [hcontent] at hdata
  exact ⟨b', hskip, (List.append_inj_right hdata hlength.symm).symm, hwhole'⟩

/-- The start of a round at a plain header. -/
theorem readMember_head (checked : List Bytes) {head : Bytes} {h : Header} (hwhole : b.Whole) (hvalid : ValidHeader head h)
    (hcontent : b.content = head ++ rest) : ∃ b₁ checked', b₁.content = rest ∧ b₁.Whole ∧
      ∀ body b', readBody h b₁ = .ok (body, b') → readMember b checked = .ok (some (body, b', checked')) := by
  obtain ⟨b₁, htake, hrest, hwhole₁⟩ := take_append hwhole hcontent
  obtain ⟨checked', hchecked⟩ := checkIgnored_of_valid checked hvalid.ignored
  refine ⟨b₁, checked', hrest, hwhole₁, fun body b' hbody => ?_⟩
  rw [hvalid.length] at htake
  unfold readMember
  refine bind_eq_ok.2 ⟨_, htake, ?_⟩
  dsimp only
  rw [if_neg (not_not.2 hvalid.length), if_neg hvalid.nonzero]
  exact bind_eq_ok.2 ⟨_, hchecked, bind_eq_ok.2 ⟨_, (readHeader_iff hvalid.length hvalid.ignored).2 hvalid,
    bind_eq_ok.2 ⟨_, hbody, rfl⟩⟩⟩

/-- **A member that is there** is read, however the stream is cut. -/
theorem readMember_of_member (checked : List Bytes) {content : Bytes} (hmember : Member content body rest) (hwhole : b.Whole)
    (hcontent : b.content = content) :
    ∃ b' checked', readMember b checked = .ok (some (body, b', checked')) ∧ b'.content = rest ∧ b'.Whole := by
  cases hmember with
  | directory hvalid hdir =>
    obtain ⟨b₁, checked', hrest, hwhole₁, hround⟩ := readMember_head checked hwhole hvalid hcontent
    exact ⟨b₁, checked', hround none b₁ (if_pos hdir), hrest, hwhole₁⟩
  | @desc head data pad _ header hvalid hfile hdesc hsize hpad =>
    obtain ⟨b₁, checked', hrest, hwhole₁, hround⟩ := readMember_head checked hwhole hvalid hcontent
    obtain ⟨b₂, htake, hrest₂, hwhole₂⟩ := take_append hwhole₁ hrest
    obtain ⟨b₃, hskip, hrest₃, hwhole₃⟩ := skip_append hwhole₂ hrest₂
    refine ⟨b₃, checked', hround (some data) b₃ ?_, hrest₃, hwhole₃⟩
    unfold readBody
    rw [hsize] at htake
    rw [hpad] at hskip
    rw [if_neg (by rw [hfile]; exact Bool.false_ne_true), if_pos hdesc]
    refine bind_eq_ok.2 ⟨_, htake, ?_⟩
    dsimp only
    rw [if_neg (not_not.2 hsize)]
    exact bind_eq_ok.2 ⟨_, hskip, rfl⟩
  | @other head data _ header hvalid hfile hdesc hdata =>
    obtain ⟨b₁, checked', hrest, hwhole₁, hround⟩ := readMember_head checked hwhole hvalid hcontent
    obtain ⟨b₂, hskip, hrest₂, hwhole₂⟩ := skip_append hwhole₁ hrest
    refine ⟨b₂, checked', hround none b₂ ?_, hrest₂, hwhole₂⟩
    unfold readBody
    rw [hdata] at hskip
    rw [if_neg (by rw [hfile]; exact Bool.false_ne_true), if_neg hdesc]
    exact bind_eq_ok.2 ⟨_, hskip, rfl⟩

theorem readMember_of_zeros {head : Bytes} (hwhole : b.Whole) (hcontent : b.content = head ++ rest)
    (hlength : head.length = 512) (hzero : ∀ x ∈ head, x = 0) : readMember b checked = .ok none := by
  obtain ⟨b₁, htake, -, -⟩ := take_append hwhole hcontent
  rw [hlength] at htake
  unfold readMember
  refine bind_eq_ok.2 ⟨_, htake, ?_⟩
  dsimp only
  rw [if_neg (not_not.2 hlength), if_pos (List.all_eq_true.2 fun x hx => beq_iff_eq.2 (hzero x hx))]
  rfl

theorem readMember_lt (h : readMember b checked = .ok (some (body, b', checked'))) : b'.content.length < b.content.length := by
  unfold readMember at h
  obtain ⟨⟨head, b₁⟩, htake, h⟩ := bind_eq_ok.1 h
  obtain ⟨hcontent, -⟩ := Blocks.content_take htake
  dsimp only at h
  split at h
  · cases h
  rename_i hlength
  split at h
  · cases h
  obtain ⟨checked₁, -, h⟩ := bind_eq_ok.1 h
  obtain ⟨header, -, h⟩ := bind_eq_ok.1 h
  obtain ⟨⟨body', b₂⟩, hbody, h⟩ := bind_eq_ok.1 h
  cases h
  obtain ⟨data, hcontent', -⟩ := readBody_eq_ok hbody
  rw [hcontent, hcontent', List.length_append, List.length_append]
  dsimp only
  omega

end

/-! ## The whole archive -/

/-- The loop of `_desc_members`. -/
def descFrom (b : Blocks) (checked : List Bytes) : Except Unusual (List Bytes) :=
  match _h : readMember b checked with
  | .error e => .error e
  | .ok none => .ok []
  | .ok (some (body, b', checked')) => (descFrom b' checked').map fun bodies => body.toList ++ bodies
termination_by b.content.length
decreasing_by exact readMember_lt _h

/-- `_desc_members`, of the decompressed stream. -/
def descMembers (stream : Stream) : Except Unusual (List Bytes) := descFrom ⟨stream, [], 0⟩ []

theorem walk_of_descFrom {b : Blocks} {checked bodies : List Bytes} (hmemo : Memo checked)
    (h : descFrom b checked = .ok bodies) : Walk b.content bodies := by
  fun_induction descFrom generalizing bodies with
  | case1 b checked e he => cases h
  | case2 b checked hstop =>
    cases h
    obtain ⟨head, rest, hcontent, hlength, hzero⟩ := stop_of_readMember hstop
    rw [hcontent]
    exact .stop hlength hzero
  | case3 b checked body b' checked' hround ih =>
    obtain ⟨hmember, hmemo'⟩ := member_of_readMember hmemo hround
    cases hrest : descFrom b' checked' with
    | error e =>
      rw [hrest] at h
      cases h
    | ok rest =>
      rw [hrest] at h
      cases h
      exact .member hmember (ih hmemo' hrest)

theorem descFrom_of_walk {content : Bytes} {bodies : List Bytes} (h : Walk content bodies) :
    ∀ {b : Blocks} {checked : List Bytes},
    b.Whole → b.content = content → descFrom b checked = .ok bodies := by
  induction h with
  | stop hlength hzero =>
    intro b checked hwhole hcontent
    rw [descFrom, readMember_of_zeros hwhole hcontent hlength hzero]
  | member hmember _ ih =>
    intro b checked hwhole hcontent
    obtain ⟨b', checked', hround, hrest, hwhole'⟩ := readMember_of_member checked hmember hwhole hcontent
    rw [descFrom, hround]
    dsimp only
    rw [ih hwhole' hrest]
    rfl

/-- **The reader is the walk**, however the stream is cut and whatever it ends with. -/
theorem descMembers_iff {stream : Stream} (hwhole : ∀ chunk ∈ stream.chunks, chunk ≠ []) {bodies : List Bytes} :
    descMembers stream = .ok bodies ↔ Walk stream.chunks.flatten bodies :=
  ⟨fun h => walk_of_descFrom memo_nil h, fun h => descFrom_of_walk h hwhole rfl⟩

/-! ## Encoding -/

inductive MemberKind where
  | directory
  | regular
  | oldRegular
  deriving DecidableEq

def MemberKind.typeflag : MemberKind → UInt8
  | .directory => 53
  | .regular => 48
  | .oldRegular => 0

/-- The rest of a field is NULs. -/
def padTo (n : Nat) (bs : Bytes) : Bytes := bs ++ List.replicate (n - bs.length) 0

/-- The kind of a header: what comes after the device numbers is a prefix of the name, or an area without a time. -/
inductive TarFormat where
  | ustar (namePrefix pad : Bytes)
  | gnu (area : Bytes)

namespace TarFormat

def magic : TarFormat → Bytes
  | ustar _ _ => posixMagic
  | gnu _ => gnuMagic

def namePrefix : TarFormat → Bytes
  | ustar p _ => p
  | gnu _ => []

def tail : TarFormat → Bytes
  | ustar p pad => padTo 155 p ++ pad
  | gnu area => 0 :: area

def Fits : TarFormat → Prop
  | ustar p pad => p.length ≤ 155 ∧ 0 ∉ p ∧ pad.length = 12
  | gnu area => area.length = 166

end TarFormat

def joinName (namePrefix name : Bytes) : Bytes := if namePrefix = [] then name else namePrefix ++ 47 :: name

/-- A directory or a regular file, with the fields of its header; names fit into theirs. -/
structure TarMember where
  name : Bytes
  kind : MemberKind
  mode : OctalField 8
  uid : OctalField 8
  gid : OctalField 8
  size : OctalField 12
  mtime : OctalField 12
  linkname : Bytes
  format : TarFormat
  uname : Bytes
  gname : Bytes
  devmajor : OctalField 8
  devminor : OctalField 8
  body : Bytes
  nameFits : name.length ≤ 100 ∧ 0 ∉ name
  formatFits : format.Fits
  textsFit : linkname.length = 100 ∧ uname.length = 32 ∧ gname.length = 32
  sizeFits : if kind = .directory then body = [] else size.value = body.length
  kindFits : kind = .oldRegular → ¬ [47] <:+ joinName format.namePrefix name

/-- Six digits, a NUL and a blank. -/
def checksumField (sum : Nat) : OctalField 8 where
  blanks := 0
  digits := Radix.digits 8 6 sum
  rest := [0, 32]
  digits_lt := Radix.lt_of_mem_digits (by decide) 6 sum
  rest_blank := List.forall_mem_cons.2 ⟨rfl, List.forall_mem_singleton.2 rfl⟩
  fits := by rw [Radix.length_digits]; rfl

/-- The checksum field while the sum is taken. -/
def blankField : OctalField 8 := ⟨8, [], [], nofun, nofun, rfl⟩

namespace TarMember
variable (m : TarMember)

def path : Bytes := joinName m.format.namePrefix m.name

def fields (checksum : OctalField 8) : List Bytes :=
  [padTo 100 m.name, m.mode.bytes, m.uid.bytes, m.gid.bytes, m.size.bytes, m.mtime.bytes, checksum.bytes, [m.kind.typeflag],
    m.linkname, m.format.magic, m.uname, m.gname, m.devmajor.bytes, m.devminor.bytes, m.format.tail]

def header : Bytes := (m.fields (checksumField (byteSum (m.fields blankField).flatten))).flatten

def encode : Bytes := m.header ++ (m.body ++ List.replicate (padding m.body.length) 0)

/-- The body of a regular file whose name ends in `/desc`. -/
def descBody : Option Bytes := if m.kind ≠ .directory ∧ descSuffix <:+ m.path then some m.body else none

def fieldLengths : List Nat := [100, 8, 8, 8, 12, 12, 8, 1, 100, 8, 32, 32, 8, 8, 167]

theorem length_padTo {n : Nat} {bs : Bytes} (h : bs.length ≤ n) : (padTo n bs).length = n := by
  rw [padTo, List.length_append, List.length_replicate, Nat.add_sub_cancel' h]

theorem untilNul_padTo {bs : Bytes} (n : Nat) (h : 0 ∉ bs) : untilNul (padTo n bs) = bs := by
  have hne : ∀ b ∈ bs, (b != 0) = true := fun b hb => bne_iff_ne.2 fun heq => h (heq ▸ hb)
  unfold untilNul padTo
  rw [List.takeWhile_append_of_pos hne]
  cases n - bs.length with
  | zero => exact List.append_nil bs
  | succ k => exact List.append_nil bs

theorem length_magic (format : TarFormat) : format.magic.length = 8 := by cases format <;> rfl

theorem length_tail {format : TarFormat} (h : format.Fits) : format.tail.length = 167 := by
  cases format with
  | ustar p pad =>
    obtain ⟨hp, -, hpad⟩ := h
    rw [TarFormat.tail, List.length_append, length_padTo hp, hpad]
  | gnu area => exact congrArg Nat.succ h

theorem map_length_fields (checksum : OctalField 8) : (m.fields checksum).map List.length = fieldLengths := by
  obtain ⟨hlink, huname, hgname⟩ := m.textsFit
  simp only [fields, fieldLengths, List.map_cons, List.map_nil, length_padTo m.nameFits.1, OctalField.length_bytes, hlink,
    length_magic, huname, hgname, length_tail m.formatFits, List.length_singleton]

theorem length_header (checksum : OctalField 8) : (m.fields checksum).flatten.length = 512 := by
  rw [List.length_flatten, map_length_fields]
  rfl

/-- A field stands after the fields before it. -/
theorem slice_flatten : ∀ {fields : List Bytes} {i : Nat} {field : Bytes}, fields[i]? = some field →
    slice fields.flatten ((fields.map List.length).take i).sum ((fields.map List.length).take (i + 1)).sum = field
  | first :: fields, 0, field, h => by
    cases h
    simp [slice]
  | first :: fields, i + 1, field, h => by
    have ih := @slice_flatten fields i field h
    unfold slice at ih ⊢
    rw [List.map_cons, List.take_succ_cons, List.take_succ_cons, List.sum_cons, List.sum_cons, List.flatten_cons,
      ← List.drop_drop, List.drop_left, Nat.add_sub_add_left]
    exact ih

theorem slice_fields {checksum : OctalField 8} {i start stop : Nat} {field : Bytes}
    (h : (m.fields checksum)[i]? = some field) (hstart : (fieldLengths.take i).sum = start)
    (hstop : (fieldLengths.take (i + 1)).sum = stop) : slice (m.fields checksum).flatten start stop = field := by
  rw [← hstart, ← hstop, ← m.map_length_fields checksum]
  exact slice_flatten h

theorem byteSum_append (as bs : Bytes) : byteSum (as ++ bs) = byteSum as + byteSum bs := by
  rw [byteSum, List.map_append, List.sum_append]
  rfl

theorem byteSum_le (bs : Bytes) : byteSum bs ≤ 255 * bs.length := by
  induction bs with
  | nil => exact Nat.le_refl 0
  | cons b bs ih =>
    have hb := b.toNat_lt
    have hcons : byteSum (b :: bs) = b.toNat + byteSum bs := rfl
    rw [hcons, List.length_cons]
    omega

/-- The sum of a header, but for its checksum, is that with a blank one. -/
theorem byteSum_fields (checksum : OctalField 8) : byteSum (m.fields checksum).flatten - byteSum checksum.bytes + 256 =
    byteSum (m.fields blankField).flatten := by
  have hblank : byteSum blankField.bytes = 256 := rfl
  simp only [fields, List.flatten_cons, byteSum_append, hblank]
  omega

theorem value_checksumField : (checksumField (byteSum (m.fields blankField).flatten)).value =
    byteSum (m.fields blankField).flatten := by
  have hle := byteSum_le (m.fields blankField).flatten
  rw [length_header] at hle
  exact Radix.value_digits (Nat.lt_of_le_of_lt hle (by decide))

theorem isNumber_bytes {width : Nat} (f : OctalField width) : IsNumber f.bytes f.value := octal_iff.1 (octal_bytes f)

theorem getD_slice {bs : Bytes} {start stop : Nat} (h : start < stop) : (slice bs start stop).getD 0 0 = bs.getD start 0 := by
  rw [slice, List.getD_eq_getElem?_getD, List.getD_eq_getElem?_getD, List.getElem?_take_of_lt (by omega),
    List.getElem?_drop, Nat.add_zero]

theorem memberName_header (checksum : OctalField 8) : memberName (m.fields checksum).flatten = m.path := by
  have hname : slice (m.fields checksum).flatten 0 100 = padTo 100 m.name := m.slice_fields (i := 0) rfl rfl rfl
  have htail : slice (m.fields checksum).flatten 345 512 = m.format.tail := m.slice_fields (i := 14) rfl rfl rfl
  have hstart : slice (m.fields checksum).flatten 345 500 = slice m.format.tail 0 155 := by
    rw [← htail, slice_slice (by decide)]
  have hfirst : (m.fields checksum).flatten.getD 345 0 = m.format.tail.getD 0 0 := by
    rw [← htail, getD_slice (by decide)]
  have hfits := m.formatFits
  unfold memberName path joinName
  rw [hname, hfirst, hstart, untilNul_padTo 100 m.nameFits.2]
  cases hformat : m.format with
  | gnu area => rfl
  | ustar p pad =>
    rw [hformat] at hfits
    obtain ⟨hlength, hnul, -⟩ := hfits
    have hslice : slice (padTo 155 p ++ pad) 0 155 = padTo 155 p := by
      rw [slice, List.drop_zero]
      exact List.take_left' (length_padTo hlength)
    rw [TarFormat.tail, hslice, untilNul_padTo 155 hnul]
    cases p with
    | nil => rfl
    | cons c p =>
      have hc : c ≠ 0 := fun heq => hnul (heq ▸ List.mem_cons_self)
      rw [if_pos (show (padTo 155 (c :: p) ++ pad).getD 0 0 ≠ 0 from hc)]
      rfl

/-- **The header of a member** is a plain one. -/
theorem validHeader_header : ValidHeader m.header ⟨m.size.value, m.path, decide (m.kind = .directory)⟩ := by
  unfold header
  set checksum := checksumField (byteSum (m.fields blankField).flatten) with hchecksum
  have hsum : slice (m.fields checksum).flatten 148 156 = checksum.bytes := m.slice_fields (i := 6) rfl rfl rfl
  have hsize : slice (m.fields checksum).flatten 124 136 = m.size.bytes := m.slice_fields (i := 4) rfl rfl rfl
  have hmagic : slice (m.fields checksum).flatten 257 265 = m.format.magic := m.slice_fields (i := 9) rfl rfl rfl
  have hkind : slice (m.fields checksum).flatten 156 157 = [m.kind.typeflag] := m.slice_fields (i := 7) rfl rfl rfl
  have htail : slice (m.fields checksum).flatten 345 512 = m.format.tail := m.slice_fields (i := 14) rfl rfl rfl
  refine ⟨m.length_header checksum, ?_, ?_, ?_, ?_, (m.memberName_header checksum).symm, ?_⟩
  · have hnumber : ∀ {width : Nat} (i start stop : Nat) (f : OctalField width), (m.fields checksum)[i]? = some f.bytes →
        (fieldLengths.take i).sum = start → (fieldLengths.take (i + 1)).sum = stop →
        ∃ n, IsNumber (slice (m.fields checksum).flatten start stop) n := fun i start stop f hf hstart hstop => by
      rw [m.slice_fields hf hstart hstop]
      exact ⟨f.value, isNumber_bytes f⟩
    unfold IgnoredValid ignoredNumeric
    simp only [List.forall_mem_cons]
    exact ⟨hnumber 1 _ _ m.mode rfl rfl rfl, hnumber 2 _ _ m.uid rfl rfl rfl, hnumber 3 _ _ m.gid rfl rfl rfl,
      hnumber 5 _ _ m.mtime rfl rfl rfl, hnumber 12 _ _ m.devmajor rfl rfl rfl, hnumber 13 _ _ m.devminor rfl rfl rfl, nofun⟩
  · rw [hsize]
    exact isNumber_bytes m.size
  · rw [hsum, m.byteSum_fields checksum, ← m.value_checksumField]
    exact isNumber_bytes checksum
  · rw [hmagic]
    cases hformat : m.format with
    | ustar p pad => exact Or.inl rfl
    | gnu area =>
      refine Or.inr ⟨rfl, ?_⟩
      rw [← getD_slice (show 345 < 512 by decide), htail, hformat]
      rfl
  · rw [hkind]
    cases hcase : m.kind with
    | directory => exact Or.inl ⟨rfl, rfl⟩
    | regular => exact Or.inr ⟨Or.inl rfl, rfl⟩
    | oldRegular => exact Or.inr ⟨Or.inr ⟨rfl, m.kindFits hcase⟩, rfl⟩

/-- **A member that is encoded** is the one that is walked over. -/
theorem member_encode (rest : Bytes) : Member (m.encode ++ rest) m.descBody rest := by
  have hvalid := m.validHeader_header
  have hsize := m.sizeFits
  unfold encode descBody
  rw [List.append_assoc, List.append_assoc]
  by_cases hdir : m.kind = .directory
  · rw [if_pos hdir] at hsize
    rw [if_neg fun h => h.1 hdir, hsize]
    exact .directory hvalid (decide_eq_true hdir)
  · rw [if_neg hdir] at hsize
    have hfile : decide (m.kind = .directory) = false := decide_eq_false hdir
    by_cases hdesc : descSuffix <:+ m.path
    · rw [if_pos ⟨hdir, hdesc⟩]
      exact .desc hvalid hfile hdesc hsize.symm (by rw [List.length_replicate, hsize])
    · rw [if_neg fun h => hdesc h.2, ← List.append_assoc m.body]
      exact .other hvalid hfile hdesc (by rw [List.length_append, List.length_replicate, hsize])

end TarMember

/-- A plain archive of the members, with the first block of an end marker and whatever follows it. -/
def archive (members : List TarMember) (rest : Bytes) : Bytes :=
  members.flatMap TarMember.encode ++ (List.replicate 512 0 ++ rest)

theorem walk_archive (rest : Bytes) : ∀ members : List TarMember,
    Walk (archive members rest) (members.filterMap TarMember.descBody)
  | [] => by
    have hzeros : Walk (List.replicate 512 0 ++ rest) [] :=
      .stop List.length_replicate fun _ hb => List.eq_of_mem_replicate hb
    exact hzeros
  | m :: members => by
    have ih := walk_archive rest members
    have hbodies : (m :: members).filterMap TarMember.descBody = m.descBody.toList ++ members.filterMap TarMember.descBody := by
      cases h : m.descBody with
      | none => exact List.filterMap_cons_none h
      | some body => exact List.filterMap_cons_some h
    unfold archive at ih ⊢
    rw [hbodies, List.flatMap_cons, List.append_assoc]
    exact .member (m.member_encode _) ih

/-- **The direct reader is exact.**  Of a plain archive it yields the bodies of the regular members whose name ends in
`/desc`, in order, however the stream is cut into reads; and whatever else it reads to an end without declining, it yields
what the walk over the blocks yields, which is one thing only. -/
theorem desc_members_exact :
    (∀ (members : List TarMember) (rest : Bytes) (stream : Stream), (∀ chunk ∈ stream.chunks, chunk ≠ []) →
      stream.chunks.flatten = archive members rest →
      descMembers stream = .ok (members.filterMap TarMember.descBody)) ∧
    ∀ (stream : Stream) (bodies : List Bytes), (∀ chunk ∈ stream.chunks, chunk ≠ []) → descMembers stream = .ok bodies →
      Walk stream.chunks.flatten bodies ∧ ∀ bodies', Walk stream.chunks.flatten bodies' → bodies' = bodies := by
  constructor
  · intro members rest stream hwhole hcontent
    rw [descMembers_iff hwhole, hcontent]
    exact walk_archive rest members
  · intro stream bodies hwhole h
    refine ⟨(descMembers_iff hwhole).1 h, fun bodies' hwalk => ?_⟩
    have h' := (descMembers_iff hwhole).2 hwalk
    rw [h] at h'
    exact (Except.ok.inj h').symm

def demoNumber (width : Nat) : OctalField (width + 1) :=
  ⟨0, List.replicate width 0, [0], fun d hd => by rw [List.eq_of_mem_replicate hd]; decide,
    List.forall_mem_singleton.2 rfl, by rw [List.length_replicate, Nat.zero_add]; rfl⟩

/-- A file `a/desc` with the body `x`. -/
def demoMember : TarMember where
  name := [97, 47, 100, 101, 115, 99]
  kind := .regular
  mode := demoNumber 7
  uid := demoNumber 7
  gid := demoNumber 7
  size := ⟨0, List.replicate 10 0 ++ [1], [0], by decide, List.forall_mem_singleton.2 rfl, rfl⟩
  mtime := demoNumber 11
  linkname := List.replicate 100 0
  format := .gnu (List.replicate 166 0)
  uname := List.replicate 32 0
  gname := List.replicate 32 0
  devmajor := demoNumber 7
  devminor := demoNumber 7
  body := [120]
  nameFits := by decide
  formatFits := List.length_replicate
  textsFit := by decide
  sizeFits := by decide
  kindFits := nofun

theorem desc_members_exact_demo : descMembers ⟨(archive [demoMember] []).map fun b => [b], none⟩ = .ok [[120]] := by
  have hcut : ((archive [demoMember] []).map fun b => [b]).flatten = archive [demoMember] [] :=
    (List.flatMap_def ..).symm.trans (List.flatMap_singleton' _)
  have hwhole : ∀ chunk ∈ (archive [demoMember] []).map fun b => [b], chunk ≠ [] := by
    intro chunk hchunk
    obtain ⟨b, -, rfl⟩ := List.mem_map.1 hchunk
    exact List.cons_ne_nil _ _
  exact desc_members_exact.1 [demoMember] [] ⟨_, none⟩ hwhole hcut

end Pacman
end RepoWatch
