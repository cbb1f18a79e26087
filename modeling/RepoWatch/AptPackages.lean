import RepoWatch.Fetch
import RepoWatch.Lib.Lines
import RepoWatch.Lib.Utf8
import RepoWatch.Splitlines
/-!
# AptPackages — a Packages index, parsed from its bytes or from its text

The reference decodes the document and reads it line by line.  The fast path looks for the four fields in slices of the
bytes, decodes only their values, and leaves a document with other line breaks than the line feed to the reference.  The two
agree, whatever the size of the slices and the limit on the lead bytes that are looked at (`parse_packages_eq_reference`).
-/
namespace RepoWatch
namespace Apt

open Lib.Utf8

/-- The fields that are read. -/
inductive Field where
  | package
  | version
  | filename
  | sha256
  deriving DecidableEq

/-- The start of a line with the field. -/
def Field.label : Field → Str
  | .package => "Package:".toList
  | .version => "Version:".toList
  | .filename => "Filename:".toList
  | .sha256 => "SHA256:".toList

def fieldsRead : List Field := [.package, .version, .filename, .sha256]

/-- A size of the slices in place of `_SCAN_SLICE`. -/
abbrev ScanSlice := { n : Nat // 0 < n }

/-! ## Stanzas -/

/-- `_SHA256_HEX`, matched whole. -/
def isSha256 (value : Str) : Bool :=
  decide (value.length = 64) && value.all fun c => c.isDigit || decide ('a' ≤ c ∧ c ≤ 'f') || decide ('A' ≤ c ∧ c ≤ 'F')

/-- The variables of the loop over the fields. -/
structure Stanza where
  packages : List PackageRef := []
  name : Option Str := none
  version : Option Str := none
  filename : Option Str := none
  contentHash : Option Str := none

namespace Stanza
variable (s : Stanza)

/-- The packages with the current one if it is complete. -/
def save : List PackageRef :=
  match s.name, s.version with
  | some name, some version =>
    if name ≠ [] ∧ version ≠ [] then s.packages ++ [⟨name, version, s.filename, s.contentHash⟩]
    else s.packages
  | _, _ => s.packages

def setField (field : Field) (value : Str) : Stanza :=
  match field with
  | .package => { packages := s.save, name := some value }
  | .version => { s with version := some value }
  | .filename => { s with filename := some value }
  | .sha256 => { s with contentHash := if isSha256 value then some value else none }

/-- A round of the fast path. -/
def setRaw (p : Field × Bytes) : Stanza := s.setField p.1 (strip (decodeReplace p.2))

/-- `line.split(":", 1)[1].strip()`. -/
def fieldValue (line : Str) : Str := strip ((partition ':' line).2.getD [])

/-- A round of the reference. -/
def setLine (line : Str) : Stanza :=
  if startsWith line Field.package.label then s.setField .package (fieldValue line)
  else if startsWith line Field.version.label then s.setField .version (fieldValue line)
  else if startsWith line Field.filename.label then s.setField .filename (fieldValue line)
  else if startsWith line Field.sha256.label then s.setField .sha256 (fieldValue line)
  else s

end Stanza

/-- `_parse_packages_reference`. -/
def parsePackagesReference (data : Bytes) : List PackageRef :=
  ((splitlines (decodeReplace data)).foldl Stanza.setLine {}).save

/-! ## Expressions -/

/-- The bytes of a value: up to a line break. -/
def rawValue (bs : Bytes) : Bytes := bs.takeWhile fun b => b != 13 && b != 10

/-- `_FIRST_FIELD.match`. -/
def matchField (bs : Bytes) : Option (Field × Bytes) :=
  (fieldsRead.find? fun f => (utf8Bytes f.label).isPrefixOf bs).map fun f => (f, rawValue (bs.drop f.label.length))

/-- `_LATER_FIELDS.findall`. -/
def findall : Bytes → List (Field × Bytes)
  | [] => []
  | b :: bs =>
    if b = 10 then
      match matchField bs with
      | some (f, value) => (f, value) :: findall (bs.drop (f.label.length + value.length))
      | none => findall bs
    else findall bs
termination_by bs => bs.length

/-! ## Slices -/

section
variable (scanSlice : ScanSlice) (data : Bytes)

/-- `data.find(needle, start, stop)`. -/
def bytesFind (needle : Bytes) (start stop : Nat) : Option Nat := (Lib.find needle (data.extract start stop)).map (start + ·)

/-- `_find`. -/
def find (needle : Bytes) (start : Nat) : Option Nat :=
  if start < data.length then
    match bytesFind data needle start (min (start + scanSlice + needle.length - 1) data.length) with
    | some position => some position
    | none => find needle (start + scanSlice)
  else none
termination_by data.length - start
decreasing_by
  have := scanSlice.2
  omega

/-- The end of the slice at `position`. -/
def sliceStop (position : Nat) : Nat := (bytesFind data [10] (position + scanSlice) data.length).getD data.length

theorem lt_sliceStop {position : Nat} (h : position < data.length) : position < sliceStop scanSlice data position := by
  have hpos := scanSlice.2
  unfold sliceStop bytesFind
  cases Lib.find [10] (data.extract (position + scanSlice) data.length) with
  | none => exact h
  | some n =>
    show position < position + scanSlice + n
    omega

def fieldLinesFrom (position : Nat) : List (Field × Bytes) :=
  if position < data.length then
    findall (data.extract position (sliceStop scanSlice data position)) ++ fieldLinesFrom (sliceStop scanSlice data position)
  else []
termination_by data.length - position
decreasing_by
  have hstop := lt_sliceStop scanSlice data ‹_›
  omega

/-- `_field_lines`. -/
def fieldLines : List (Field × Bytes) := fieldLinesFrom scanSlice data 0

/-! ## Line breaks -/

/-- `_ASCII_LINE_BREAKS`. -/
def asciiLineBreaks : List Bytes := [[13], [11], [12], [0x1c], [0x1d], [0x1e]]

/-- `_NEL`. -/
def nel : List Bytes := [[0xc2, 0x85]]

/-- `_LINE_SEPARATORS`. -/
def lineSeparators : List Bytes := [[0xe2, 0x80, 0xa8], [0xe2, 0x80, 0xa9]]

/-- The loop at a lead byte, after so many others. -/
def encodedBreakAt (limit : Int) (lead : Bytes) (sequences : List Bytes) (inspected position : Nat) : Bool :=
  if sequences.any (·.isPrefixOf (data.drop position)) then true
  else if limit < (inspected + 1 : Nat) then sequences.any fun sequence => (find scanSlice data sequence 0).isSome
  else
    match find scanSlice data lead (position + 1) with
    | some next => encodedBreakAt limit lead sequences (inspected + 1) next
    | none => false
termination_by (limit - inspected).toNat

/-- `_has_encoded_break`, with a limit in place of `_LEAD_BYTE_SCAN_LIMIT`. -/
def hasEncodedBreak (limit : Int) (lead : Bytes) (sequences : List Bytes) : Bool :=
  match find scanSlice data lead 0 with
  | some position => encodedBreakAt scanSlice data limit lead sequences 0 position
  | none => false

/-- `_has_unusual_line_break`. -/
def hasUnusualLineBreak (limit : Int) : Bool :=
  asciiLineBreaks.any (fun separator => (find scanSlice data separator 0).isSome) ||
    hasEncodedBreak scanSlice data limit [0xc2] nel || hasEncodedBreak scanSlice data limit [0xe2] lineSeparators

/-- `_parse_packages`. -/
def parsePackages (limit : Int) : List PackageRef :=
  if hasUnusualLineBreak scanSlice data limit then parsePackagesReference data
  else (((matchField data).toList ++ fieldLines scanSlice data).foldl Stanza.setRaw {}).save

end

/-! ## A search in slices -/

section
variable {scanSlice : ScanSlice} {data : Bytes}

theorem bytesFind_length (needle : Bytes) (start : Nat) :
    bytesFind data needle start data.length = (Lib.find needle (data.drop start)).map (start + ·) := by
  unfold bytesFind
  rw [List.extract_eq_take_drop, List.take_of_length_le (by rw [List.length_drop])]

/-- The window of a slice: a needle that begins in the slice ends in it. -/
theorem extract_window (needle : Bytes) (start : Nat) :
    data.extract start (min (start + scanSlice + needle.length - 1) data.length) =
      (data.drop start).take (scanSlice + needle.length - 1) := by
  have hpos := scanSlice.2
  rw [List.extract_eq_take_drop, List.take_eq_take_iff, List.length_drop]
  omega

/-- **Slices do not change what is found.** -/
theorem find_eq (needle : Bytes) (start : Nat) : find scanSlice data needle start =
    if start < data.length then bytesFind data needle start data.length else none := by
  fun_induction find scanSlice data needle start with
  | case1 start h position hfound =>
    unfold bytesFind at hfound
    rw [extract_window] at hfound
    obtain ⟨n, hn, rfl⟩ := Option.map_eq_some_iff.1 hfound
    rw [if_pos h, bytesFind_length, Lib.find_of_find_take hn]
    rfl
  | case2 start h hnone ih =>
    unfold bytesFind at hnone
    rw [extract_window, Option.map_eq_none_iff] at hnone
    have hneedle : needle ≠ [] := by
      rintro rfl
      rw [Lib.find_zero List.nil_prefix] at hnone
      cases hnone
    have hlength := List.length_pos_of_ne_nil hneedle
    have hskip := Lib.find_drop (k := scanSlice) fun j hj => Lib.not_prefix_of_find_take hnone (by omega : j + needle.length ≤ _)
    rw [if_pos h, ih, bytesFind_length, bytesFind_length, hskip, List.drop_drop]
    split
    · rw [Option.map_map]
      exact congrArg (Option.map · _) (funext fun n => Nat.add_assoc _ _ n)
    · rename_i hend
      have hnil : Lib.find needle [] = none := Lib.find_eq_none.2 fun n hn => hneedle (by simpa using hn)
      rw [List.drop_eq_nil_of_le (Nat.le_of_not_lt hend), hnil]
      rfl
  | case3 start h => rw [if_neg h]

/-- What is found from a place on is the first place from there. -/
theorem find_eq_some {needle : Bytes} {start position : Nat} (h : find scanSlice data needle start = some position) :
    start ≤ position ∧ needle <+: data.drop position ∧ ∀ j, start ≤ j → j < position → ¬ needle <+: data.drop j := by
  rw [find_eq] at h
  split at h
  · rw [bytesFind_length] at h
    obtain ⟨n, hn, rfl⟩ := Option.map_eq_some_iff.1 h
    obtain ⟨hp, hfirst⟩ := Lib.find_eq_some_iff.1 hn
    rw [List.drop_drop] at hp
    refine ⟨Nat.le_add_right _ _, hp, fun j hj hlt hstarts => ?_⟩
    obtain ⟨k, rfl⟩ := Nat.exists_eq_add_of_le hj
    exact hfirst k (Nat.lt_of_add_lt_add_left hlt) (by rwa [List.drop_drop])
  · cases h

theorem find_eq_none {needle : Bytes} {start : Nat} (hneedle : needle ≠ []) (h : find scanSlice data needle start = none) :
    ∀ j, start ≤ j → ¬ needle <+: data.drop j := by
  intro j hj hp
  rw [find_eq] at h
  split at h
  · rw [bytesFind_length, Option.map_eq_none_iff] at h
    obtain ⟨k, rfl⟩ := Nat.exists_eq_add_of_le hj
    exact Lib.find_eq_none.1 h k (by rwa [List.drop_drop])
  · rename_i hend
    rw [List.drop_eq_nil_of_le (by omega)] at hp
    exact hneedle (List.prefix_nil.1 hp)

theorem find_isSome {needle : Bytes} (hneedle : needle ≠ []) :
    (find scanSlice data needle 0).isSome = true ↔ needle <:+: data := by
  rw [Lib.infix_iff_drop]
  cases hfind : find scanSlice data needle 0 with
  | none => exact iff_of_false Bool.false_ne_true fun ⟨n, hn⟩ => find_eq_none hneedle hfind n (Nat.zero_le n) hn
  | some position => exact iff_of_true rfl ⟨position, (find_eq_some hfind).2.1⟩

/-! ## Line breaks of several bytes -/

section
variable {limit : Int} {lead : Bytes} {sequences : List Bytes} {position : Nat}

theorem any_isPrefixOf : (sequences.any fun s => s.isPrefixOf (data.drop position)) = true ↔
    ∃ s ∈ sequences, s <+: data.drop position := by
  rw [List.any_eq_true]
  exact exists_congr fun s => and_congr_right fun _ => List.isPrefixOf_iff_prefix

/-- **The loop finds what there is** if there is nothing before the lead byte where it is. -/
theorem encodedBreakAt_iff (hlead : lead ≠ []) (hsequences : ∀ s ∈ sequences, lead <+: s) {inspected : Nat}
    (hbefore : ∀ s ∈ sequences, ∀ j < position, ¬ s <+: data.drop j) :
    encodedBreakAt scanSlice data limit lead sequences inspected position = true ↔ ∃ s ∈ sequences, s <:+: data := by
  revert hbefore
  fun_induction encodedBreakAt scanSlice data limit lead sequences inspected position with
  | case1 inspected position hany =>
    intro _
    obtain ⟨s, hs, hp⟩ := any_isPrefixOf.1 hany
    exact iff_of_true rfl ⟨s, hs, Lib.infix_iff_drop.2 ⟨position, hp⟩⟩
  | case2 inspected position hany hlimit =>
    intro _
    rw [List.any_eq_true]
    refine exists_congr fun s => and_congr_right fun hs => find_isSome ?_
    rintro rfl
    exact hlead (List.prefix_nil.1 (hsequences [] hs))
  | case3 inspected position hany hlimit next hnext ih =>
    intro hbefore
    refine ih fun s hs j hj hp => ?_
    obtain ⟨-, -, hfirst⟩ := find_eq_some hnext
    rcases Nat.lt_trichotomy j position with hlt | rfl | hlt
    · exact hbefore s hs j hlt hp
    · exact hany (any_isPrefixOf.2 ⟨s, hs, hp⟩)
    · exact hfirst j hlt hj ((hsequences s hs).trans hp)
  | case4 inspected position hany hlimit hnone =>
    intro hbefore
    refine iff_of_false Bool.false_ne_true ?_
    rintro ⟨s, hs, hpart⟩
    obtain ⟨j, hp⟩ := Lib.infix_iff_drop.1 hpart
    rcases Nat.lt_trichotomy j position with hlt | rfl | hlt
    · exact hbefore s hs j hlt hp
    · exact hany (any_isPrefixOf.2 ⟨s, hs, hp⟩)
    · exact find_eq_none hlead hnone j hlt ((hsequences s hs).trans hp)

theorem hasEncodedBreak_iff (hlead : lead ≠ []) (hsequences : ∀ s ∈ sequences, lead <+: s) :
    hasEncodedBreak scanSlice data limit lead sequences = true ↔ ∃ s ∈ sequences, s <:+: data := by
  unfold hasEncodedBreak
  cases hfind : find scanSlice data lead 0 with
  | none =>
    refine iff_of_false Bool.false_ne_true ?_
    rintro ⟨s, hs, hpart⟩
    obtain ⟨j, hp⟩ := Lib.infix_iff_drop.1 hpart
    exact find_eq_none hlead hfind j (Nat.zero_le j) ((hsequences s hs).trans hp)
  | some position =>
    exact encodedBreakAt_iff hlead hsequences fun s hs j hj hp =>
      (find_eq_some hfind).2.2 j (Nat.zero_le j) hj ((hsequences s hs).trans hp)

end

theorem hasUnusualLineBreak_iff {limit : Int} : hasUnusualLineBreak scanSlice data limit = true ↔
    ∃ s ∈ asciiLineBreaks ++ nel ++ lineSeparators, s <:+: data := by
  have hascii : (asciiLineBreaks.any fun separator => (find scanSlice data separator 0).isSome) = true ↔
      ∃ s ∈ asciiLineBreaks, s <:+: data := by
    rw [List.any_eq_true]
    refine exists_congr fun s => and_congr_right fun hs => find_isSome ?_
    rintro rfl
    exact absurd hs (by decide)
  unfold hasUnusualLineBreak
  rw [Bool.or_eq_true, Bool.or_eq_true, hascii, hasEncodedBreak_iff (by decide) (by decide),
    hasEncodedBreak_iff (by decide) (by decide)]
  simp only [List.mem_append, or_and_right, exists_or]

/-! ## Texts without other line breaks -/

theorem utf8EncodeChar_of_isLineBreak {c : Char} (h : isLineBreak c = true) :
    c = '\n' ∨ String.utf8EncodeChar c ∈ asciiLineBreaks ++ nel ++ lineSeparators := by
  have hcodes : ∀ n ∈ [10, 11, 12, 13, 0x1c, 0x1d, 0x1e, 0x85, 0x2028, 0x2029], Char.ofNat n = '\n' ∨
      String.utf8EncodeChar (Char.ofNat n) ∈ asciiLineBreaks ++ nel ++ lineSeparators := by decide
  rw [← Char.ofNat_toNat c]
  refine hcodes c.toNat ?_
  unfold isLineBreak at h
  simp only [Bool.or_eq_true, decide_eq_true_eq, List.contains_iff_mem, List.mem_cons, List.not_mem_nil, or_false] at h ⊢
  omega

/-- A document without these separators is broken at line feeds only. -/
theorem eq_newline_of_isLineBreak (h : ∀ s ∈ asciiLineBreaks ++ nel ++ lineSeparators, ¬ s <:+: data) {c : Char}
    (hc : c ∈ decodeReplace data) (hbreak : isLineBreak c = true) : c = '\n' := by
  refine (utf8EncodeChar_of_isLineBreak hbreak).resolve_right fun hs => h _ hs (infix_of_mem_decodeReplace ?_ hc)
  rintro rfl
  exact absurd hbreak (by decide)

end

/-! ## Fields -/

section
variable {as bs : Bytes} {f : Field} {value : Bytes}

theorem length_utf8Bytes_label (f : Field) : (utf8Bytes f.label).length = f.label.length := by cases f <;> rfl

theorem newline_not_mem_label (f : Field) : 10 ∉ utf8Bytes f.label := by cases f <;> decide

theorem newline_not_mem_rawValue (bs : Bytes) : 10 ∉ rawValue bs := fun h => absurd (List.mem_takeWhile_imp h) (by decide)

/-- **A match** is the label and the value, without a line feed. -/
theorem matchField_eq_some (h : matchField bs = some (f, value)) :
    10 ∉ value ∧ ∃ rest, bs = utf8Bytes f.label ++ value ++ rest ∧ bs.drop (f.label.length + value.length) = rest := by
  unfold matchField at h
  obtain ⟨f', hf, hvalue⟩ := Option.map_eq_some_iff.1 h
  cases hvalue
  have hlabel := List.find?_some hf
  obtain ⟨rest, rfl⟩ := List.isPrefixOf_iff_prefix.1 hlabel
  rw [← length_utf8Bytes_label, List.drop_left]
  refine ⟨newline_not_mem_rawValue rest, rest.dropWhile fun b => b != 13 && b != 10, ?_, ?_⟩
  · rw [List.append_assoc, rawValue, List.takeWhile_append_dropWhile]
  · have hrest : rest = rawValue rest ++ rest.dropWhile fun b => b != 13 && b != 10 := List.takeWhile_append_dropWhile.symm
    rw [← List.drop_drop, List.drop_left]
    conv => lhs; arg 2; rw [hrest]
    rw [List.drop_left]

theorem findall_of_not_mem (h : 10 ∉ as) (bs : Bytes) : findall (as ++ bs) = findall bs := by
  induction as with
  | nil => rfl
  | cons a as ih =>
    obtain ⟨ha, has⟩ := List.ne_and_not_mem_of_not_mem_cons h
    rw [List.cons_append, findall, if_neg (Ne.symm ha), ih has]

/-- After a line feed there is a field or nothing, and then what follows. -/
theorem findall_newline (bs : Bytes) : findall (10 :: bs) = (matchField bs).toList ++ findall bs := by
  rw [findall, if_pos rfl]
  cases hmatch : matchField bs with
  | none => rfl
  | some p =>
    obtain ⟨f, value⟩ := p
    obtain ⟨hvalue, rest, hbs, hdrop⟩ := matchField_eq_some hmatch
    have hnot : 10 ∉ utf8Bytes f.label ++ value := fun h => (List.mem_append.1 h).elim (newline_not_mem_label f) hvalue
    dsimp only
    rw [hdrop]
    conv => rhs; rw [hbs, findall_of_not_mem hnot]
    rfl

theorem rawValue_append (hbs : bs = [] ∨ bs.head? = some 10) : ∀ as : Bytes, rawValue (as ++ bs) = rawValue as
  | [] => by
    rcases hbs with rfl | hbs
    · rfl
    · cases bs with
      | nil => cases hbs
      | cons b bs =>
        cases hbs
        rfl
  | a :: as => by
    unfold rawValue
    rw [List.cons_append, List.takeWhile_cons, List.takeWhile_cons]
    split
    · exact congrArg (List.cons a) (rawValue_append hbs as)
    · rfl

theorem isPrefixOf_label_append (hbs : bs = [] ∨ bs.head? = some 10) (as : Bytes) (f : Field) :
    (utf8Bytes f.label).isPrefixOf (as ++ bs) = (utf8Bytes f.label).isPrefixOf as := by
  rw [Bool.eq_iff_iff, List.isPrefixOf_iff_prefix, List.isPrefixOf_iff_prefix]
  refine ⟨fun h => ?_, fun h => h.trans (List.prefix_append as bs)⟩
  rcases hbs with rfl | hbs
  · rwa [List.append_nil] at h
  · obtain ⟨t, rfl⟩ := List.head?_eq_some_iff.1 hbs
    exact Lib.prefix_of_not_mem (newline_not_mem_label f) h

/-- What follows a line feed does not change the field before it. -/
theorem matchField_append (hbs : bs = [] ∨ bs.head? = some 10) (as : Bytes) : matchField (as ++ bs) = matchField as := by
  unfold matchField
  simp only [isPrefixOf_label_append hbs]
  cases hf : fieldsRead.find? fun f => (utf8Bytes f.label).isPrefixOf as with
  | none => rfl
  | some f =>
    have hlabel := List.find?_some hf
    have hle := (List.isPrefixOf_iff_prefix.1 hlabel).length_le
    rw [length_utf8Bytes_label] at hle
    rw [Option.map_some, Option.map_some, List.drop_append_of_le_length hle, rawValue_append hbs]

/-- **Slices that begin at line feeds** are searched one by one. -/
theorem findall_append (hbs : bs = [] ∨ bs.head? = some 10) (as : Bytes) :
    findall (as ++ bs) = findall as ++ findall bs := by
  induction as with
  | nil => rw [findall]; rfl
  | cons a as ih =>
    by_cases ha : a = 10
    · rw [ha, List.cons_append, findall_newline, findall_newline, matchField_append hbs as, ih, List.append_assoc]
    · rw [List.cons_append, findall, if_neg ha, ih]
      conv => rhs; rw [findall, if_neg ha]

end

section
variable {scanSlice : ScanSlice} {data : Bytes} {position : Nat}

/-- **A slice ends at a line feed or is the last.** -/
theorem drop_sliceStop : data.drop (sliceStop scanSlice data position) = [] ∨
    (data.drop (sliceStop scanSlice data position)).head? = some 10 := by
  unfold sliceStop
  rw [bytesFind_length]
  cases hfind : Lib.find [10] (data.drop (position + scanSlice)) with
  | none => exact .inl List.drop_length
  | some n =>
    obtain ⟨rest, hrest⟩ := Lib.prefix_of_find hfind
    rw [List.drop_drop] at hrest
    exact .inr (by rw [Option.map_some, Option.getD_some, ← hrest]; rfl)

theorem fieldLinesFrom_eq (position : Nat) : fieldLinesFrom scanSlice data position = findall (data.drop position) := by
  fun_induction fieldLinesFrom scanSlice data position with
  | case1 position h ih =>
    have hle := Nat.le_of_lt (lt_sliceStop scanSlice data h)
    rw [ih, ← findall_append drop_sliceStop, Lib.extract_append_drop hle]
  | case2 position h =>
    rw [List.drop_eq_nil_of_le (Nat.le_of_not_lt h), findall]

end

/-- **Slices do not change the fields.** -/
theorem fieldLines_eq (scanSlice : ScanSlice) (data : Bytes) : fieldLines scanSlice data = findall data := fieldLinesFrom_eq 0

/-! ## Lines -/

/-- The line's field, and its value. -/
theorem setLine_eq (s : Stanza) (line : Str) : s.setLine line =
    match fieldsRead.find? fun f => startsWith line f.label with
    | some f => s.setField f (Stanza.fieldValue line)
    | none => s := by
  unfold Stanza.setLine fieldsRead
  simp only [List.find?_cons, List.find?_nil]
  cases startsWith line Field.package.label with
  | true => rfl
  | false =>
    cases startsWith line Field.version.label with
    | true => rfl
    | false =>
      cases startsWith line Field.filename.label with
      | true => rfl
      | false => cases startsWith line Field.sha256.label <;> rfl

theorem fieldValue_label (f : Field) (value : Str) : Stanza.fieldValue (f.label ++ value) = strip value := by
  have hcut : ∀ w : Str, ':' ∉ w → Stanza.fieldValue (w ++ ':' :: value) = strip value := by
    intro w hw
    unfold Stanza.fieldValue
    rw [partition_append hw]
    rfl
  cases f with
  | package => exact hcut "Package".toList (by decide)
  | version => exact hcut "Version".toList (by decide)
  | filename => exact hcut "Filename".toList (by decide)
  | sha256 => exact hcut "SHA256".toList (by decide)

theorem ascii_label (f : Field) : ∀ c ∈ f.label, c.toNat < 128 := by
  have hall : (f.label.all fun c => decide (c.toNat < 128)) = true := by cases f <;> rfl
  exact fun c hc => of_decide_eq_true (List.all_eq_true.1 hall c hc)

/-- **A line is read from its bytes** as from its text. -/
theorem setLine_decodeReplace (s : Stanza) {l : Bytes} (hreturn : 13 ∉ l) (hfeed : 10 ∉ l) :
    s.setLine (decodeReplace l) = (matchField l).toList.foldl Stanza.setRaw s := by
  have hstart : ∀ f : Field, startsWith (decodeReplace l) f.label = (utf8Bytes f.label).isPrefixOf l := by
    intro f
    unfold startsWith
    rw [Bool.eq_iff_iff, List.isPrefixOf_iff_prefix, List.isPrefixOf_iff_prefix]
    exact prefix_decodeReplace (ascii_label f)
  rw [setLine_eq]
  unfold matchField
  simp only [hstart]
  cases hf : fieldsRead.find? fun f => (utf8Bytes f.label).isPrefixOf l with
  | none => rfl
  | some f =>
    have hlabel := List.find?_some hf
    obtain ⟨value, rfl⟩ := List.isPrefixOf_iff_prefix.1 hlabel
    have hraw : rawValue value = value := by
      refine List.takeWhile_eq_self_iff.2 fun b hb => ?_
      have hr : b ≠ 13 := fun h => hreturn (List.mem_append_right _ (h ▸ hb))
      have hf : b ≠ 10 := fun h => hfeed (List.mem_append_right _ (h ▸ hb))
      rw [bne_iff_ne.2 hr, bne_iff_ne.2 hf]
      rfl
    rw [Option.map_some, ← length_utf8Bytes_label, List.drop_left, hraw, decodeReplace_utf8Bytes_append]
    dsimp only
    rw [fieldValue_label]
    rfl

/-- **The lines of the text** are the fields of the bytes. -/
theorem foldl_setLine (data : Bytes) (s : Stanza) (hbreaks : ∀ c ∈ decodeReplace data, isLineBreak c = true → c = '\n')
    (hreturn : 13 ∉ data) : (splitlines (decodeReplace data)).foldl Stanza.setLine s =
      ((matchField data).toList ++ findall data).foldl Stanza.setRaw s := by
  have hclean : ∀ l : Bytes, 10 ∉ l → (∀ c ∈ decodeReplace l, c ∈ decodeReplace data) →
      ∀ c ∈ decodeReplace l, isLineBreak c = false := by
    intro l hl hsub c hc
    refine Bool.eq_false_iff.2 fun hbreak => newline_not_mem_decodeReplace hl ?_
    rwa [← hbreaks c (hsub c hc) hbreak]
  by_cases hfeed : 10 ∈ data
  · obtain ⟨l, rest, hdata, hl⟩ := List.eq_append_cons_of_mem hfeed
    have hcut : decodeReplace data = decodeReplace l ++ '\n' :: decodeReplace rest := by
      rw [hdata]
      exact decodeReplace_cut (by decide) l rest
    have hrest : rest.length < data.length := by
      rw [hdata, List.length_append, List.length_cons]
      omega
    have ih := foldl_setLine rest (s.setLine (decodeReplace l))
      (fun c hc => hbreaks c (by rw [hcut]; exact List.mem_append_right _ (List.mem_cons_of_mem _ hc)))
      (fun h => hreturn (by rw [hdata]; exact List.mem_append_right _ (List.mem_cons_of_mem _ h)))
    have hline := hclean l hl fun c hc => by rw [hcut]; exact List.mem_append_left _ hc
    have hreturn' : 13 ∉ l := fun h => hreturn (by rw [hdata]; exact List.mem_append_left _ h)
    rw [hcut, splitlines_clean_cons hline, List.foldl_cons, ih, setLine_decodeReplace s hreturn' hl, hdata,
      matchField_append (.inr rfl), findall_of_not_mem hl, findall_newline, ← List.foldl_append]
  · have hline := hclean data hfeed fun c hc => hc
    have hnone : findall data = [] := by
      have h := findall_of_not_mem hfeed []
      rwa [List.append_nil, findall] at h
    rw [splitlines_clean hline, hnone, List.append_nil, ← setLine_decodeReplace s hreturn hfeed]
    split
    · rename_i hnil
      rw [hnil]
      rfl
    · rfl
termination_by data.length

/-! ## The two parsers -/

theorem parsePackages_eq (scanSlice : ScanSlice) (limit : Int) (data : Bytes) :
    parsePackages scanSlice data limit = parsePackagesReference data := by
  unfold parsePackages
  split
  · rfl
  rename_i husual
  have hnone : ∀ s ∈ asciiLineBreaks ++ nel ++ lineSeparators, ¬ s <:+: data := fun s hs hpart =>
    husual (hasUnusualLineBreak_iff.2 ⟨s, hs, hpart⟩)
  have hreturn : 13 ∉ data := fun h => hnone [13] (by decide) (by
    obtain ⟨as, bs, rfl⟩ := List.append_of_mem h
    exact ⟨as, bs, by rw [List.append_assoc]; rfl⟩)
  rw [fieldLines_eq, parsePackagesReference, foldl_setLine data {} (fun c => eq_newline_of_isLineBreak hnone) hreturn]

/-- **The fast parser equals the reference**, whatever the slices and the limit; and slices change neither the fields nor
what is found. -/
theorem parse_packages_eq_reference :
    (∀ (scanSlice : ScanSlice) (limit : Int) (data : Bytes),
      parsePackages scanSlice data limit = parsePackagesReference data) ∧
    (∀ (scanSlice : ScanSlice) (data : Bytes), fieldLines scanSlice data = findall data) ∧
    ∀ (scanSlice : ScanSlice) (data needle : Bytes) (start : Nat), find scanSlice data needle start =
      if start < data.length then bytesFind data needle start data.length else none :=
  ⟨parsePackages_eq, fieldLines_eq, fun _ _ => find_eq⟩

end Apt
end RepoWatch
