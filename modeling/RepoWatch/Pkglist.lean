import RepoWatch.Fetch
import RepoWatch.Lib.Radix
import RepoWatch.Lib.Lines
import RepoWatch.Lib.Loop
import RepoWatch.Lib.Utf8
/-!
# Pkglist — the package index of APT-RPM

An index is a sequence of RPM headers: counts, entries with a tag and an offset, and a section of data.  `RpmHeader.encode`
writes one, and `RpmHeader.Describes` says what package it is about.  `parsePkglist` accepts exactly the sequences of headers
that describe valid packages (`parsePkglist_eq_ok`).
-/
namespace RepoWatch
namespace AptRpm

open Lib

inductive PkglistError where
  | signatureError (message : Str)
  | valueError (message : Str)
  | unicodeError
  | structError
  deriving DecidableEq

def valueError {α : Type} (message : String) : Except PkglistError α := .error (.valueError message.toList)

def magic : Bytes := [0x8e, 0xad, 0xe8, 0x01, 0, 0, 0, 0]

/-- `_STRINGS`. -/
def stringTags : List Nat := [1000, 1001, 1002, 1022, 1155, 1000000, 1000010]

/-- `_INTS`. -/
def intTags : List Nat := [1003, 1006]

def maxExpanded : Nat := 512 * 1024 * 1024

/-! ## Reading -/

/-- The algorithm, the digest and the size that a release names. -/
structure Expected where
  algorithm : Str
  digest : Str
  size : Nat
  deriving DecidableEq

/-- `_Reader`, with what was hashed. -/
structure Reader where
  stream : Bytes
  count : Nat
  hashed : Bytes

def Within (expected : Option Expected) (count : Nat) : Prop :=
  count ≤ maxExpanded ∧ ∀ e ∈ expected, count ≤ e.size

instance decidableWithin (expected : Option Expected) (count : Nat) : Decidable (Within expected count) :=
  inferInstanceAs (Decidable (_ ∧ _))

/-- `_Reader.read`. -/
def Reader.read (expected : Option Expected) (r : Reader) (size : Nat) : Except PkglistError (Bytes × Reader) :=
  let data := r.stream.take size
  let count := r.count + data.length
  if Within expected count then .ok (data, ⟨r.stream.drop size, count, r.hashed ++ data⟩)
  else .error (.signatureError "apt-rpm: expanded pkglist exceeds declared/maximum size".toList)

/-- `_Reader.finish`. -/
def Reader.finish (hexdigest : Str → Bytes → Str) (expected : Option Expected) (r : Reader) : Except PkglistError Unit :=
  match expected with
  | none => .ok ()
  | some e =>
    if r.count ≠ e.size ∨ hexdigest e.algorithm r.hashed ≠ e.digest then
      .error (.signatureError "apt-rpm: expanded pkglist checksum/size mismatch".toList)
    else .ok ()

/-- `struct.unpack('>II', …)`. -/
def unpackPair (bs : Bytes) : Except PkglistError (Nat × Nat) :=
  if bs.length = 8 then .ok (BigEndian.decode (bs.take 4), BigEndian.decode (bs.drop 4)) else .error .structError

/-- `struct.unpack_from('>I', …)`. -/
def unpackFrom (bs : Bytes) (offset : Nat) : Except PkglistError Nat :=
  if offset + 4 ≤ bs.length then .ok (BigEndian.decode ((bs.drop offset).take 4)) else .error .structError

structure IndexEntry where
  tag : UInt32
  kind : UInt32
  offset : UInt32
  items : UInt32
  deriving DecidableEq

def IndexEntry.unpack (bs : Bytes) : IndexEntry :=
  let word := fun n => UInt32.ofNat (BigEndian.decode ((bs.drop n).take 4))
  ⟨word 0, word 4, word 8, word 12⟩

def unpackEntries : Nat → Bytes → List IndexEntry
  | 0, _ => []
  | n + 1, bs => IndexEntry.unpack (bs.take 16) :: unpackEntries n (bs.drop 16)

/-- `struct.iter_unpack('>4I', …)`. -/
def iterUnpack (bs : Bytes) : Except PkglistError (List IndexEntry) :=
  if bs.length % 16 = 0 then .ok (unpackEntries (bs.length / 16) bs) else .error .structError

/-- `data.find(b'\0', offset)`. -/
def findNul (data : Bytes) (offset : Nat) : Option Nat := ((data.drop offset).idxOf? 0).map (offset + ·)

/-! ## Values -/

/-- What an entry is read as. -/
inductive TagValue where
  | string (s : Str)
  | int (n : Nat)
  | skipped

/-- The value of an entry, in a section of the given size. -/
def readValue (data : Bytes) (size : Nat) (e : IndexEntry) : Except PkglistError TagValue :=
  if e.tag.toNat ∈ stringTags then
    if e.kind ≠ 6 ∨ e.items ≠ 1 then valueError "apt-rpm: invalid string tag type/count"
    else match findNul data e.offset.toNat with
      | none => valueError "apt-rpm: unterminated string"
      | some stop =>
        match Utf8.decodeStrict ((data.drop e.offset.toNat).take (stop - e.offset.toNat)) with
        | none => .error .unicodeError
        | some s => .ok (.string s)
  else if e.tag.toNat ∈ intTags then
    if e.kind ≠ 4 ∨ e.items ≠ 1 ∨ e.offset.toNat + 4 > size then valueError "apt-rpm: invalid integer tag"
    else (unpackFrom data e.offset.toNat).map .int
  else .ok .skipped

/-- The sets `tags` and `values` of a header; the values of strings and integers are kept apart. -/
structure Values where
  tags : List Nat
  strings : Dict Nat Str
  ints : Dict Nat Nat

def Values.store (values : Values) (tag : Nat) : TagValue → Values
  | .string s => { values with tags := tag :: values.tags, strings := values.strings.set tag s }
  | .int n => { values with tags := tag :: values.tags, ints := values.ints.set tag n }
  | .skipped => { values with tags := tag :: values.tags }

def readEntry (data : Bytes) (size : Nat) (values : Values) (e : IndexEntry) : Except PkglistError Values :=
  if e.tag.toNat ∈ values.tags ∨ e.offset.toNat ≥ size then valueError "apt-rpm: duplicate tag or invalid offset"
  else (readValue data size e).map (values.store e.tag.toNat)

/-! ## Packages -/

/-- `_relative`. -/
def relative (value : Str) : Except PkglistError Str :=
  if ¬ (value ≠ [] ∧ value.all isUriChar = true) ∨ startsWith value ['/'] = true ∨
      ((value.splitOn '/').any fun part => part = [] || part = ['.'] || part = ['.', '.']) = true then
    valueError "apt-rpm: unsafe package location"
  else .ok value

def natText (n : Nat) : Str := (toString n).toList

/-- The package of a header's values; `none` for another architecture. -/
def packageOf (arch component : Str) (values : Values) : Except PkglistError (Option PackageRef) := do
  let text := fun tag => (values.strings.lookup tag).getD []
  if ([1000, 1001, 1002, 1022, 1000000].any fun tag => text tag = []) = true then
    valueError "apt-rpm: missing package identity/location"
  else
    let filename ← relative (text 1000000)
    let directory ← relative ((values.strings.lookup 1000010).getD ("RPMS.".toList ++ component))
    if '/' ∈ filename ∨ ".rpm".toList.isSuffixOf filename = false then
      valueError "apt-rpm: filename must be a basename ending in .rpm"
    else if text 1022 ≠ arch ∧ text 1022 ≠ "noarch".toList then return none
    else
      let epoch := (values.ints.lookup 1003).getD 0
      let version := (if epoch ≠ 0 then natText epoch ++ [':'] else []) ++ text 1001 ++ '-' :: text 1002
      let version := if text 1155 ≠ [] then version ++ ':' :: text 1155 else version
      let buildtime := (values.ints.lookup 1006).getD 0
      let version := if buildtime ≠ 0 then version ++ '@' :: natText buildtime else version
      return some { name := text 1000, version := version ++ '.' :: text 1022, filename := some (directory ++ '/' :: filename) }

section
variable (expected : Option Expected) (arch component : Str)

/-- One round of `parse_pkglist` up to the package; `none` at the end of the stream. -/
def readPackage (r : Reader) : Except PkglistError (Option (Option PackageRef × Reader)) := do
  let (header, r) ← r.read expected 16
  if header = [] then return none
  else if header.length ≠ 16 ∨ header.take 8 ≠ magic then valueError "apt-rpm: truncated/invalid RPM header"
  else
    let (count, size) ← unpackPair (header.drop 8)
    if ¬ (1 ≤ count ∧ count ≤ 65536) ∨ ¬ (1 ≤ size ∧ size ≤ 64 * 1024 * 1024) then
      valueError "apt-rpm: unreasonable RPM header dimensions"
    else
      let (index, r) ← r.read expected (count * 16)
      let (data, r) ← r.read expected size
      if index.length ≠ count * 16 ∨ data.length ≠ size then valueError "apt-rpm: truncated RPM index/data"
      else
        let entries ← iterUnpack index
        let values ← entries.foldlM (readEntry data size) ⟨[], .empty, .empty⟩
        let package ← packageOf arch component values
        return some (package, r)

end

/-! ## Encoding -/

/-- An RPM header: its index and its section of data. -/
structure RpmHeader where
  entries : List IndexEntry
  data : Bytes

def IndexEntry.pack (e : IndexEntry) : Bytes :=
  [e.tag, e.kind, e.offset, e.items].flatMap fun word => BigEndian.encode 4 word.toNat

namespace RpmHeader

def encode (h : RpmHeader) : Bytes :=
  magic ++ (BigEndian.encode 4 h.entries.length ++ BigEndian.encode 4 h.data.length) ++
    (h.entries.flatMap IndexEntry.pack ++ h.data)

/-- The size limits of a header. -/
def Sized (h : RpmHeader) : Prop :=
  (1 ≤ h.entries.length ∧ h.entries.length ≤ 65536) ∧ 1 ≤ h.data.length ∧ h.data.length ≤ 64 * 1024 * 1024

end RpmHeader

theorem length_pack (e : IndexEntry) : e.pack.length = 16 := by
  simp [IndexEntry.pack, BigEndian.length_encode]

theorem length_flatMap_pack (entries : List IndexEntry) : (entries.flatMap IndexEntry.pack).length = entries.length * 16 := by
  induction entries with
  | nil => rfl
  | cons e entries ih =>
    rw [List.flatMap_cons, List.length_append, length_pack, ih, List.length_cons]
    omega

theorem word_encode (word : UInt32) : UInt32.ofNat (BigEndian.decode (BigEndian.encode 4 word.toNat)) = word := by
  rw [BigEndian.decode_encode word.toNat_lt, UInt32.ofNat_toNat]

theorem encode_word {bs : Bytes} (h : bs.length = 4) :
    BigEndian.encode 4 (UInt32.ofNat (BigEndian.decode bs)).toNat = bs := by
  have hlt := BigEndian.decode_lt bs
  have hencode := BigEndian.encode_decode bs
  rw [h] at hlt hencode
  have hword : BigEndian.decode bs < 2 ^ 32 := hlt.trans_eq (by decide)
  rw [UInt32.toNat_ofNat', Nat.mod_eq_of_lt hword, hencode]

theorem unpack_pack (e : IndexEntry) : IndexEntry.unpack e.pack = e := by
  have hdrop : ∀ n k, 4 ≤ k → (BigEndian.encode 4 n).drop k = [] := fun n k hk =>
    List.drop_eq_nil_of_le (by rwa [BigEndian.length_encode])
  unfold IndexEntry.unpack IndexEntry.pack
  simp [List.drop_append, BigEndian.length_encode, List.take_of_length_le, hdrop, word_encode]

theorem pack_unpack {bs : Bytes} (h : bs.length = 16) : (IndexEntry.unpack bs).pack = bs := by
  have hword : ∀ n ≤ 12, BigEndian.encode 4 (UInt32.ofNat (BigEndian.decode ((bs.drop n).take 4))).toNat =
      (bs.drop n).take 4 := fun n hn => encode_word (by rw [List.length_take, List.length_drop]; omega)
  have hstep : ∀ n, (bs.drop n).take 4 ++ bs.drop (n + 4) = bs.drop n := fun n => by
    rw [← List.drop_drop, List.take_append_drop]
  have hlast : (bs.drop 12).take 4 = bs.drop 12 := List.take_of_length_le (by rw [List.length_drop]; omega)
  unfold IndexEntry.unpack IndexEntry.pack
  simp only [List.flatMap_cons, List.flatMap_nil, List.append_nil, hword 0 (by omega), hword 4 (by omega),
    hword 8 (by omega), hword 12 (le_refl 12)]
  rw [hlast, hstep 8, hstep 4, hstep 0, List.drop_zero]

theorem unpackEntries_flatMap_pack : ∀ entries : List IndexEntry,
    unpackEntries entries.length (entries.flatMap IndexEntry.pack) = entries
  | [] => rfl
  | e :: entries => by
    rw [List.length_cons, List.flatMap_cons, unpackEntries, List.take_left' (length_pack e), List.drop_left' (length_pack e),
      unpack_pack, unpackEntries_flatMap_pack entries]

theorem flatMap_pack_unpackEntries : ∀ {n : Nat} {bs : Bytes}, bs.length = n * 16 →
    (unpackEntries n bs).flatMap IndexEntry.pack = bs ∧ (unpackEntries n bs).length = n
  | 0, bs, h => by
    rw [List.eq_nil_of_length_eq_zero (by omega : bs.length = 0)]
    exact ⟨rfl, rfl⟩
  | n + 1, bs, h => by
    obtain ⟨hpack, hlength⟩ := @flatMap_pack_unpackEntries n (bs.drop 16) (by rw [List.length_drop]; omega)
    rw [unpackEntries, List.flatMap_cons, hpack, List.length_cons, hlength]
    refine ⟨?_, rfl⟩
    rw [pack_unpack (by rw [List.length_take]; omega), List.take_append_drop]

theorem iterUnpack_flatMap_pack (entries : List IndexEntry) :
    iterUnpack (entries.flatMap IndexEntry.pack) = .ok entries := by
  have hlength := length_flatMap_pack entries
  unfold iterUnpack
  rw [hlength, if_pos (Nat.mul_mod_left _ _), Nat.mul_div_cancel _ (by omega : 0 < 16), unpackEntries_flatMap_pack]

theorem iterUnpack_eq_ok {bs : Bytes} {entries : List IndexEntry} (h : iterUnpack bs = .ok entries) :
    bs = entries.flatMap IndexEntry.pack := by
  unfold iterUnpack at h
  split at h
  · rename_i hmod
    cases h
    exact (flatMap_pack_unpackEntries (by omega)).1.symm
  · cases h

/-! ## One header -/

section
variable {expected : Option Expected} {arch component : Str} {r r' : Reader} {data : Bytes} {n : Nat}

theorem Reader.read_eq_ok : r.read expected n = .ok (data, r') ↔ data = r.stream.take n ∧
    r' = ⟨r.stream.drop n, r.count + data.length, r.hashed ++ data⟩ ∧ Within expected r'.count := by
  unfold Reader.read
  dsimp only
  by_cases hwithin : Within expected (r.count + (r.stream.take n).length)
  · rw [if_pos hwithin, Except.ok.injEq, Prod.mk.injEq]
    constructor
    · rintro ⟨rfl, rfl⟩
      exact ⟨rfl, rfl, hwithin⟩
    · rintro ⟨rfl, rfl, -⟩
      exact ⟨rfl, rfl⟩
  · rw [if_neg hwithin]
    refine ⟨nofun, ?_⟩
    rintro ⟨rfl, rfl, h⟩
    exact absurd h hwithin

theorem Within.mono {count count' : Nat} (h : Within expected count') (hle : count ≤ count') : Within expected count :=
  ⟨hle.trans h.1, fun e he => hle.trans (h.2 e he)⟩

/-- The reader after some bytes of its stream. -/
structure Reader.Read (r : Reader) (bs : Bytes) (r' : Reader) : Prop where
  stream : r.stream = bs ++ r'.stream
  count : r'.count = r.count + bs.length
  hashed : r'.hashed = r.hashed ++ bs

theorem Reader.Read.of_read (h : r.read expected n = .ok (data, r')) : r.Read data r' ∧ Within expected r'.count := by
  obtain ⟨rfl, rfl, hwithin⟩ := Reader.read_eq_ok.1 h
  exact ⟨⟨(List.take_append_drop n r.stream).symm, rfl, rfl⟩, hwithin⟩

theorem Reader.Read.trans {r'' : Reader} {bs bs' : Bytes} (h : r.Read bs r') (h' : r'.Read bs' r'') :
    r.Read (bs ++ bs') r'' := by
  refine ⟨?_, ?_, ?_⟩
  · rw [h.stream, h'.stream, List.append_assoc]
  · rw [h'.count, h.count, List.length_append, Nat.add_assoc]
  · rw [h'.hashed, h.hashed, List.append_assoc]

/-- **A read of what is there** gives it. -/
theorem Reader.Read.read (h : r.Read data r') (hwithin : Within expected r'.count) :
    r.read expected data.length = .ok (data, r') := by
  rw [Reader.read_eq_ok, h.stream, List.take_left, List.drop_left]
  refine ⟨rfl, ?_, hwithin⟩
  rw [← h.count, ← h.hashed]

theorem Reader.Read.split {bs bs' : Bytes} (h : r.Read (bs ++ bs') r') : ∃ r₁, r.Read bs r₁ ∧ r₁.Read bs' r' := by
  refine ⟨⟨bs' ++ r'.stream, r.count + bs.length, r.hashed ++ bs⟩, ⟨?_, rfl, rfl⟩, ⟨rfl, ?_, ?_⟩⟩
  · rw [h.stream, List.append_assoc]
  · rw [h.count, List.length_append, Nat.add_assoc]
  · rw [h.hashed, List.append_assoc]

theorem Reader.Read.count_le (h : r.Read data r') : r.count ≤ r'.count := by
  rw [h.count]
  exact Nat.le_add_right _ _

theorem length_magic : magic.length = 8 := rfl

theorem unpackPair_encode {count size : Nat} (hcount : count < 256 ^ 4) (hsize : size < 256 ^ 4) :
    unpackPair (BigEndian.encode 4 count ++ BigEndian.encode 4 size) = .ok (count, size) := by
  have hlength := BigEndian.length_encode 4
  unfold unpackPair
  rw [if_pos (by rw [List.length_append, hlength, hlength]), List.take_left' (hlength count), List.drop_left' (hlength count),
    BigEndian.decode_encode hcount, BigEndian.decode_encode hsize]

theorem unpackPair_eq_ok {bs : Bytes} {count size : Nat} (h : unpackPair bs = .ok (count, size)) :
    bs = BigEndian.encode 4 count ++ BigEndian.encode 4 size := by
  unfold unpackPair at h
  split at h
  · rename_i hlength
    cases h
    have htake := BigEndian.encode_decode (bs.take 4)
    have hdrop := BigEndian.encode_decode (bs.drop 4)
    rw [List.length_take, Nat.min_eq_left (by omega)] at htake
    rw [List.length_drop, hlength] at hdrop
    rw [htake, hdrop, List.take_append_drop]
  · cases h

/-- **One round** reads a header, if it reads anything. -/
theorem readPackage_eq_some {package : Option PackageRef} :
    readPackage expected arch component r = .ok (some (package, r')) ↔
      ∃ h : RpmHeader, h.Sized ∧ r.Read h.encode r' ∧ Within expected r'.count ∧
        ∃ values, h.entries.foldlM (readEntry h.data h.data.length) ⟨[], .empty, .empty⟩ = .ok values ∧
          packageOf arch component values = .ok package := by
  constructor
  · intro h
    unfold readPackage at h
    obtain ⟨⟨header, r₁⟩, hheader, h⟩ := bind_eq_ok.1 h
    dsimp only at h
    split at h
    · cases h
    split at h
    · cases h
    rename_i hne hmagic
    simp only [not_or, not_not] at hmagic
    obtain ⟨⟨count, size⟩, hpair, h⟩ := bind_eq_ok.1 h
    dsimp only at h
    split at h
    · cases h
    rename_i hdims
    simp only [not_or, not_not] at hdims
    obtain ⟨⟨index, r₂⟩, hindex, h⟩ := bind_eq_ok.1 h
    obtain ⟨⟨data, r₃⟩, hdata, h⟩ := bind_eq_ok.1 h
    dsimp only at h
    split at h
    · cases h
    rename_i hlengths
    simp only [not_or, not_not] at hlengths
    obtain ⟨entries, hentries, h⟩ := bind_eq_ok.1 h
    obtain ⟨values, hvalues, h⟩ := bind_eq_ok.1 h
    obtain ⟨package', hpackage, h⟩ := bind_eq_ok.1 h
    cases h
    have hpack := iterUnpack_eq_ok hentries
    have hcount : entries.length = count := by
      have := length_flatMap_pack entries
      rw [← hpack, hlengths.1] at this
      omega
    obtain ⟨hread₁, -⟩ := Reader.Read.of_read hheader
    obtain ⟨hread₂, -⟩ := Reader.Read.of_read hindex
    obtain ⟨hread₃, hwithin⟩ := Reader.Read.of_read hdata
    have hhead : header = magic ++ (BigEndian.encode 4 count ++ BigEndian.encode 4 size) := by
      rw [← unpackPair_eq_ok hpair, ← hmagic.2, List.take_append_drop]
    refine ⟨⟨entries, data⟩, ?_, ?_, hwithin, values, ?_, hpackage⟩
    · rw [RpmHeader.Sized, hcount, hlengths.2]
      exact ⟨hdims.1, hdims.2⟩
    · rw [RpmHeader.encode, hcount, hlengths.2, ← hhead, ← hpack]
      exact hread₁.trans (hread₂.trans hread₃)
    · rwa [hlengths.2]
  · rintro ⟨h, hsized, hread, hwithin, values, hvalues, hpackage⟩
    obtain ⟨⟨hcount₁, hcount₂⟩, hsize₁, hsize₂⟩ := hsized
    obtain ⟨r₁, hhead, hrest⟩ := hread.split
    obtain ⟨r₂, hindex, hdata⟩ := hrest.split
    have hlength := BigEndian.length_encode 4
    have hheader := hhead.read (hwithin.mono hrest.count_le)
    have hindex' := hindex.read (hwithin.mono hdata.count_le)
    rw [length_flatMap_pack] at hindex'
    have hlen : (magic ++ (BigEndian.encode 4 h.entries.length ++ BigEndian.encode 4 h.data.length)).length = 16 := by
      rw [List.length_append, List.length_append, hlength, hlength, length_magic]
    rw [hlen] at hheader
    have hpair : unpackPair ((magic ++ (BigEndian.encode 4 h.entries.length ++ BigEndian.encode 4 h.data.length)).drop 8) =
        .ok (h.entries.length, h.data.length) := by
      rw [List.drop_left' length_magic, unpackPair_encode (by omega) (by omega)]
    unfold readPackage
    refine bind_eq_ok.2 ⟨_, hheader, ?_⟩
    dsimp only
    rw [if_neg (List.ne_nil_of_length_pos (by omega)), if_neg fun hbad => hbad.elim (absurd hlen) fun hmagic =>
      hmagic (List.take_left' length_magic)]
    refine bind_eq_ok.2 ⟨_, hpair, ?_⟩
    dsimp only
    rw [if_neg fun hbad => hbad.elim (fun hno => hno ⟨hcount₁, hcount₂⟩) fun hno => hno ⟨hsize₁, hsize₂⟩]
    refine bind_eq_ok.2 ⟨_, hindex', bind_eq_ok.2 ⟨_, hdata.read hwithin, ?_⟩⟩
    dsimp only
    rw [if_neg fun hbad => hbad.elim (absurd (length_flatMap_pack _)) (absurd rfl)]
    exact bind_eq_ok.2 ⟨_, iterUnpack_flatMap_pack _, bind_eq_ok.2 ⟨_, hvalues, bind_eq_ok.2 ⟨_, hpackage, rfl⟩⟩⟩

theorem readPackage_eq_none : readPackage expected arch component r = .ok none ↔ r.stream = [] ∧ Within expected r.count := by
  constructor
  · intro h
    unfold readPackage at h
    obtain ⟨⟨header, r₁⟩, hheader, h⟩ := bind_eq_ok.1 h
    dsimp only at h
    split at h
    · rename_i hnil
      obtain ⟨hread, hwithin⟩ := Reader.Read.of_read hheader
      obtain ⟨htake, -⟩ := Reader.read_eq_ok.1 hheader
      refine ⟨?_, hwithin.mono hread.count_le⟩
      rw [hnil] at htake
      exact (List.take_eq_nil_iff.1 htake.symm).resolve_left (by omega)
    · exfalso
      split at h
      · cases h
      obtain ⟨⟨count, size⟩, -, h⟩ := bind_eq_ok.1 h
      dsimp only at h
      split at h
      · cases h
      obtain ⟨⟨index, r₂⟩, -, h⟩ := bind_eq_ok.1 h
      obtain ⟨⟨data, r₃⟩, -, h⟩ := bind_eq_ok.1 h
      dsimp only at h
      split at h
      · cases h
      obtain ⟨entries, -, h⟩ := bind_eq_ok.1 h
      obtain ⟨values, -, h⟩ := bind_eq_ok.1 h
      obtain ⟨package, -, h⟩ := bind_eq_ok.1 h
      cases h
  · rintro ⟨hnil, hwithin⟩
    have hread : r.read expected 16 = .ok ([], r) := by
      rw [Reader.read_eq_ok, hnil]
      refine ⟨rfl, ?_, hwithin⟩
      rw [List.drop_nil, List.length_nil, Nat.add_zero, List.append_nil, ← hnil]
    unfold readPackage
    rw [hread]
    rfl

theorem length_encode (h : RpmHeader) : h.encode.length = 16 + h.entries.length * 16 + h.data.length := by
  unfold RpmHeader.encode
  simp only [List.length_append, BigEndian.length_encode, length_magic, length_flatMap_pack]
  omega

theorem readPackage_lt {package : Option PackageRef} (h : readPackage expected arch component r = .ok (some (package, r'))) :
    r'.stream.length < r.stream.length := by
  obtain ⟨header, -, hread, -⟩ := readPackage_eq_some.1 h
  have hlength := length_encode header
  rw [hread.stream, List.length_append]
  omega

end

/-! ## The values of a header -/

/-- The bytes of an entry's value, at its offset in the section. -/
inductive HasValue (data : Bytes) (e : IndexEntry) : TagValue → Prop
  | string (s : Str) (htag : e.tag.toNat ∈ stringTags) (hkind : e.kind = 6) (hitems : e.items = 1) (hnul : '\x00' ∉ s)
      (hbytes : Utf8.utf8Bytes s ++ [0] <+: data.drop e.offset.toNat) : HasValue data e (.string s)
  | int (n : Nat) (hstring : e.tag.toNat ∉ stringTags) (htag : e.tag.toNat ∈ intTags) (hkind : e.kind = 4)
      (hitems : e.items = 1) (hn : n < 2 ^ 32) (hbytes : BigEndian.encode 4 n <+: data.drop e.offset.toNat) :
      HasValue data e (.int n)
  | skipped (hstring : e.tag.toNat ∉ stringTags) (hint : e.tag.toNat ∉ intTags) : HasValue data e .skipped

section
variable {data : Bytes} {e : IndexEntry} {v : TagValue} {entries : List IndexEntry} {values values' : Values}

theorem not_mem_utf8Bytes_zero {s : Str} : 0 ∉ Utf8.utf8Bytes s ↔ '\x00' ∉ s :=
  not_congr (Utf8.mem_utf8Bytes (by decide))

theorem findNul_of_prefix {s : Str} {offset : Nat} (hnul : '\x00' ∉ s)
    (h : Utf8.utf8Bytes s ++ [0] <+: data.drop offset) : findNul data offset = some (offset + (Utf8.utf8Bytes s).length) := by
  obtain ⟨rest, hrest⟩ := h
  unfold findNul
  rw [← hrest, List.append_assoc, List.singleton_append, idxOf?_append (not_mem_utf8Bytes_zero.2 hnul)]
  rfl

theorem prefix_of_findNul {offset stop : Nat} (h : findNul data offset = some stop) :
    (data.drop offset).take (stop - offset) ++ [0] <+: data.drop offset ∧
      0 ∉ (data.drop offset).take (stop - offset) := by
  obtain ⟨n, hn, rfl⟩ := Option.map_eq_some_iff.1 h
  obtain ⟨rest, hcut, hnot⟩ := cut_of_idxOf? hn
  rw [Nat.add_sub_cancel_left]
  refine ⟨⟨rest, ?_⟩, hnot⟩
  rw [List.append_assoc, List.singleton_append, ← hcut]

theorem unpackFrom_of_prefix {n offset : Nat} (hn : n < 2 ^ 32) (h : BigEndian.encode 4 n <+: data.drop offset) :
    offset + 4 ≤ data.length ∧ unpackFrom data offset = .ok n := by
  have hlength := BigEndian.length_encode 4 n
  have hle := h.length_le
  rw [hlength, List.length_drop] at hle
  have hfits : offset + 4 ≤ data.length := by omega
  refine ⟨hfits, ?_⟩
  have htake : (data.drop offset).take 4 = BigEndian.encode 4 n := by
    rw [← hlength]
    exact (List.prefix_iff_eq_take.1 h).symm
  unfold unpackFrom
  rw [if_pos hfits, htake, BigEndian.decode_encode hn]

theorem unpackFrom_eq_ok {n offset : Nat} (h : unpackFrom data offset = .ok n) :
    n < 2 ^ 32 ∧ BigEndian.encode 4 n <+: data.drop offset := by
  unfold unpackFrom at h
  split at h
  · rename_i hfits
    cases h
    have hlength : ((data.drop offset).take 4).length = 4 := by
      rw [List.length_take, List.length_drop]
      omega
    have hlt := BigEndian.decode_lt ((data.drop offset).take 4)
    have hencode := BigEndian.encode_decode ((data.drop offset).take 4)
    rw [hlength] at hlt hencode
    refine ⟨hlt, ?_⟩
    rw [hencode]
    exact List.take_prefix 4 _
  · cases h

/-- **An entry is read** as the value whose bytes are there. -/
theorem readValue_eq_ok : readValue data data.length e = .ok v ↔ HasValue data e v := by
  constructor
  · intro h
    unfold readValue at h
    by_cases hstring : e.tag.toNat ∈ stringTags
    · rw [if_pos hstring] at h
      split at h
      · cases h
      rename_i hkind
      simp only [not_or, not_not] at hkind
      split at h
      · cases h
      rename_i stop hstop
      obtain ⟨hstart, hnot⟩ := prefix_of_findNul hstop
      split at h
      · cases h
      rename_i s hs
      cases h
      rw [Utf8.decodeStrict_eq_some.1 hs] at hstart hnot
      exact .string s hstring hkind.1 hkind.2 (not_mem_utf8Bytes_zero.1 hnot) hstart
    · rw [if_neg hstring] at h
      split at h
      · rename_i hint
        split at h
        · cases h
        rename_i hkind
        simp only [not_or, not_not] at hkind
        cases hn : unpackFrom data e.offset.toNat with
        | error err =>
          rw [hn] at h
          cases h
        | ok n =>
          rw [hn] at h
          cases h
          obtain ⟨hlt, hbytes⟩ := unpackFrom_eq_ok hn
          exact .int n hstring hint hkind.1 hkind.2.1 hlt hbytes
      · rename_i hint
        cases h
        exact .skipped hstring hint
  · intro h
    unfold readValue
    cases h with
    | string s htag hkind hitems hnul hbytes =>
      have hslice : Utf8.decodeStrict ((data.drop e.offset.toNat).take
          (e.offset.toNat + (Utf8.utf8Bytes s).length - e.offset.toNat)) = some s := by
        rw [Nat.add_sub_cancel_left, Utf8.decodeStrict_eq_some]
        exact (List.prefix_iff_eq_take.1 ((List.prefix_append _ _).trans hbytes)).symm
      rw [if_pos htag, if_neg fun hbad => hbad.elim (absurd hkind) (absurd hitems), findNul_of_prefix hnul hbytes]
      dsimp only
      rw [hslice]
    | int n hstring htag hkind hitems hn hbytes =>
      obtain ⟨hfits, hunpack⟩ := unpackFrom_of_prefix hn hbytes
      rw [if_neg hstring, if_pos htag, if_neg fun hbad => hbad.elim (absurd hkind) fun hbad =>
        hbad.elim (absurd hitems) fun hover => absurd hfits (Nat.not_le.2 hover), hunpack]
      rfl
    | skipped hstring hint => rw [if_neg hstring, if_neg hint]

theorem HasValue.unique {v' : TagValue} (h : HasValue data e v) (h' : HasValue data e v') : v = v' :=
  Except.ok.inj ((readValue_eq_ok.2 h).symm.trans (readValue_eq_ok.2 h'))

def Values.Holds (values : Values) (tag : Nat) : TagValue → Prop
  | .string s => values.strings.lookup tag = some s
  | .int n => values.ints.lookup tag = some n
  | .skipped => True

theorem Values.holds_store (values : Values) (tag : Nat) (v : TagValue) : (values.store tag v).Holds tag v := by
  cases v with
  | string s => exact (Dict.lookup_set _ _ _ _).trans (if_pos rfl)
  | int n => exact (Dict.lookup_set _ _ _ _).trans (if_pos rfl)
  | skipped => trivial

/-- The values of a tag are the same. -/
structure Values.SameAt (values values' : Values) (tag : Nat) : Prop where
  string : values'.strings.lookup tag = values.strings.lookup tag
  int : values'.ints.lookup tag = values.ints.lookup tag

theorem Values.SameAt.holds {tag : Nat} (h : values.SameAt values' tag) (hv : values.Holds tag v) : values'.Holds tag v := by
  cases v with
  | string s => exact h.string.trans hv
  | int n => exact h.int.trans hv
  | skipped => trivial

theorem Values.sameAt_store {tag : Nat} (values : Values) {other : Nat} (hne : tag ≠ other) (v : TagValue) :
    values.SameAt (values.store other v) tag := by
  cases v with
  | string s => exact ⟨(Dict.lookup_set _ _ _ _).trans (if_neg hne), rfl⟩
  | int n => exact ⟨rfl, (Dict.lookup_set _ _ _ _).trans (if_neg hne)⟩
  | skipped => exact ⟨rfl, rfl⟩

theorem Values.tags_store (values : Values) (tag : Nat) (v : TagValue) : (values.store tag v).tags = tag :: values.tags := by
  cases v <;> rfl

theorem readEntry_eq_ok : readEntry data data.length values e = .ok values' ↔ e.tag.toNat ∉ values.tags ∧
    e.offset.toNat < data.length ∧ ∃ v, HasValue data e v ∧ values' = values.store e.tag.toNat v := by
  unfold readEntry
  by_cases hbad : e.tag.toNat ∈ values.tags ∨ e.offset.toNat ≥ data.length
  · rw [if_pos hbad]
    refine ⟨nofun, ?_⟩
    rintro ⟨htag, hoffset, -⟩
    exact hbad.elim (absurd · htag) fun hge => absurd hoffset (Nat.not_lt.2 hge)
  · rw [if_neg hbad]
    rw [not_or, not_le] at hbad
    constructor
    · intro h
      cases hv : readValue data data.length e with
      | error err =>
        rw [hv] at h
        cases h
      | ok v =>
        rw [hv] at h
        cases h
        exact ⟨hbad.1, hbad.2, v, readValue_eq_ok.1 hv, rfl⟩
    · rintro ⟨-, -, v, hv, rfl⟩
      rw [readValue_eq_ok.2 hv]
      rfl

/-- **What the entries of a header give**: each its own value, and nothing else. -/
theorem values_of_foldlM : ∀ {entries : List IndexEntry} {values values' : Values},
    entries.foldlM (readEntry data data.length) values = .ok values' →
      (entries.map fun e => e.tag.toNat).Nodup ∧
      (∀ e ∈ entries, e.tag.toNat ∉ values.tags ∧ e.offset.toNat < data.length ∧
        ∃ v, HasValue data e v ∧ values'.Holds e.tag.toNat v) ∧
      ∀ tag, tag ∉ (entries.map fun e => e.tag.toNat) → values.SameAt values' tag
  | [], values, values', h => by
    cases h
    exact ⟨List.nodup_nil, nofun, fun _ _ => ⟨rfl, rfl⟩⟩
  | e :: entries, values, values', h => by
    rw [List.foldlM_cons] at h
    obtain ⟨next, hnext, h⟩ := bind_eq_ok.1 h
    obtain ⟨htag, hoffset, v, hv, rfl⟩ := readEntry_eq_ok.1 hnext
    obtain ⟨hnodup, heach, hsame⟩ := values_of_foldlM h
    have hnew : e.tag.toNat ∉ entries.map fun e => e.tag.toNat := by
      intro hmem
      obtain ⟨other, hother, heq⟩ := List.mem_map.1 hmem
      refine (heach other hother).1 ?_
      rw [values.tags_store, heq]
      exact List.mem_cons_self
    refine ⟨List.nodup_cons.2 ⟨hnew, hnodup⟩, fun other hother => ?_, fun tag hnot => ?_⟩
    · rcases List.mem_cons.1 hother with rfl | hother
      · exact ⟨htag, hoffset, v, hv, (hsame _ hnew).holds (values.holds_store _ v)⟩
      · obtain ⟨htag', hoffset', hvalue⟩ := heach other hother
        rw [values.tags_store] at htag'
        exact ⟨fun hmem => htag' (List.mem_cons_of_mem _ hmem), hoffset', hvalue⟩
    · obtain ⟨hne, hnot⟩ := List.ne_and_not_mem_of_not_mem_cons hnot
      have hstored := values.sameAt_store hne v
      have hlater := hsame tag hnot
      exact ⟨hlater.string.trans hstored.string, hlater.int.trans hstored.int⟩

/-- **Entries that have their values** are read. -/
theorem foldlM_of_values : ∀ {entries : List IndexEntry} {values : Values}, (entries.map fun e => e.tag.toNat).Nodup →
    (∀ e ∈ entries, e.tag.toNat ∉ values.tags ∧ e.offset.toNat < data.length ∧ ∃ v, HasValue data e v) →
      ∃ values', entries.foldlM (readEntry data data.length) values = .ok values'
  | [], values, _, _ => ⟨values, rfl⟩
  | e :: entries, values, hnodup, heach => by
    rw [List.map_cons, List.nodup_cons] at hnodup
    obtain ⟨htag, hoffset, v, hv⟩ := heach e List.mem_cons_self
    obtain ⟨values', hvalues⟩ := @foldlM_of_values entries (values.store e.tag.toNat v) hnodup.2 fun other hother => by
      obtain ⟨htag', hoffset', hvalue⟩ := heach other (List.mem_cons_of_mem _ hother)
      rw [values.tags_store]
      refine ⟨fun hmem => ?_, hoffset', hvalue⟩
      rcases List.mem_cons.1 hmem with heq | hmem
      · exact hnodup.1 (heq ▸ List.mem_map_of_mem hother)
      · exact htag' hmem
    refine ⟨values', ?_⟩
    rw [List.foldlM_cons]
    exact bind_eq_ok.2 ⟨_, readEntry_eq_ok.2 ⟨htag, hoffset, v, hv, rfl⟩, hvalues⟩

end

/-! ## What a header says about a package -/

/-- The identity and location tags of a header. -/
structure PackageTags where
  name : Str
  version : Str
  release : Str
  arch : Str
  filename : Str
  disttag : Option Str := none
  directory : Option Str := none
  epoch : Option Nat := none
  buildtime : Option Nat := none

/-- A relative path without empty segments, `.` and `..`. -/
structure Relative (value : Str) : Prop where
  ne_nil : value ≠ []
  chars : ∀ c ∈ value, isUriChar c = true
  relative : ¬ ['/'] <+: value
  segments : ∀ part ∈ value.splitOn '/', part ≠ [] ∧ part ≠ ['.'] ∧ part ≠ ['.', '.']

namespace PackageTags
variable (t : PackageTags)

def text (tag : Nat) : Option Str :=
  if tag = 1000 then some t.name
  else if tag = 1001 then some t.version
  else if tag = 1002 then some t.release
  else if tag = 1022 then some t.arch
  else if tag = 1155 then t.disttag
  else if tag = 1000000 then some t.filename
  else t.directory

def number (tag : Nat) : Option Nat := if tag = 1003 then t.epoch else t.buildtime

def location (component : Str) : Str := t.directory.getD ("RPMS.".toList ++ component)

/-- `[epoch:]version-release[:disttag][@buildtime]`, without an epoch, a tag or a time that is zero or empty. -/
def fullVersion : Str :=
  ((t.epoch.filter (· ≠ 0)).elim [] fun n => natText n ++ [':']) ++ t.version ++ '-' :: t.release ++
    ((t.disttag.filter (· ≠ [])).elim [] fun d => ':' :: d) ++ (t.buildtime.filter (· ≠ 0)).elim [] fun n => '@' :: natText n

def package (component : Str) : PackageRef where
  name := t.name
  version := t.fullVersion ++ '.' :: t.arch
  filename := some (t.location component ++ '/' :: t.filename)

/-- The tags say what a package is and where. -/
structure Valid (component : Str) : Prop where
  identity : t.name ≠ [] ∧ t.version ≠ [] ∧ t.release ≠ [] ∧ t.arch ≠ []
  filename : Relative t.filename
  basename : '/' ∉ t.filename
  rpm : ".rpm".toList <:+ t.filename
  directory : Relative (t.location component)

/-- The package is of the architecture or of none. -/
def Selected (arch : Str) : Prop := t.arch = arch ∨ t.arch = "noarch".toList

instance decidableSelected (arch : Str) : Decidable (t.Selected arch) := inferInstanceAs (Decidable (_ ∨ _))

def selected (arch component : Str) : Option PackageRef := if t.Selected arch then some (t.package component) else none

/-- The values of a header are those of the tags. -/
structure Reads (values : Values) : Prop where
  strings : ∀ tag ∈ stringTags, values.strings.lookup tag = t.text tag
  ints : ∀ tag ∈ intTags, values.ints.lookup tag = t.number tag

end PackageTags

/-- The header has the tags, each with its value in the section, no tag twice, and no offset outside the section. -/
structure RpmHeader.Describes (h : RpmHeader) (t : PackageTags) : Prop where
  tagsNodup : (h.entries.map fun e => e.tag.toNat).Nodup
  offsets : ∀ e ∈ h.entries, e.offset.toNat < h.data.length
  strings : ∀ tag ∈ stringTags, match t.text tag with
    | some s => ∃ e ∈ h.entries, e.tag.toNat = tag ∧ HasValue h.data e (.string s)
    | none => tag ∉ h.entries.map fun e => e.tag.toNat
  ints : ∀ tag ∈ intTags, match t.number tag with
    | some n => ∃ e ∈ h.entries, e.tag.toNat = tag ∧ HasValue h.data e (.int n)
    | none => tag ∉ h.entries.map fun e => e.tag.toNat

section
variable {h : RpmHeader} {t : PackageTags} {values : Values} {arch component : Str}

theorem relative_eq_ok {value result : Str} : relative value = .ok result ↔ result = value ∧ Relative value := by
  have hparts : ((value.splitOn '/').any fun part => part = [] || part = ['.'] || part = ['.', '.']) = false ↔
      ∀ part ∈ value.splitOn '/', part ≠ [] ∧ part ≠ ['.'] ∧ part ≠ ['.', '.'] := by
    simp [List.any_eq_false, and_assoc]
  unfold relative
  constructor
  · intro h
    split at h
    · cases h
    rename_i hgood
    cases h
    rw [not_or, not_or, not_not, Bool.not_eq_true, Bool.not_eq_true, hparts, List.all_eq_true] at hgood
    obtain ⟨⟨hne, hchars⟩, hrelative, hsegments⟩ := hgood
    exact ⟨rfl, hne, hchars, fun hpre => Bool.false_ne_true (hrelative.symm.trans (startsWith_iff.2 hpre)), hsegments⟩
  · rintro ⟨rfl, hvalue⟩
    rw [if_neg]
    rw [not_or, not_or, not_not, Bool.not_eq_true, Bool.not_eq_true, hparts, List.all_eq_true]
    exact ⟨⟨hvalue.ne_nil, hvalue.chars⟩, Bool.eq_false_of_not_eq_true fun hpre => hvalue.relative (startsWith_iff.1 hpre),
      hvalue.segments⟩

theorem forall_stringTags {P : Nat → Prop} : (∀ tag ∈ stringTags, P tag) ↔
    P 1000 ∧ P 1001 ∧ P 1002 ∧ P 1022 ∧ P 1155 ∧ P 1000000 ∧ P 1000010 := by
  simp only [stringTags, List.forall_mem_cons, List.not_mem_nil, false_implies, implies_true, and_true]

theorem forall_intTags {P : Nat → Prop} : (∀ tag ∈ intTags, P tag) ↔ P 1003 ∧ P 1006 := by
  simp only [intTags, List.forall_mem_cons, List.not_mem_nil, false_implies, implies_true, and_true]

theorem fullVersion_eq (t : PackageTags) :
    (let epoch := t.epoch.getD 0
      let version := (if epoch ≠ 0 then natText epoch ++ [':'] else []) ++ t.version ++ '-' :: t.release
      let version := if t.disttag.getD [] ≠ [] then version ++ ':' :: t.disttag.getD [] else version
      let buildtime := t.buildtime.getD 0
      if buildtime ≠ 0 then version ++ '@' :: natText buildtime else version) = t.fullVersion := by
  have hepoch : ∀ n : Option Nat, (if n.getD 0 ≠ 0 then natText (n.getD 0) ++ [':'] else []) =
      (n.filter (· ≠ 0)).elim [] fun n => natText n ++ [':'] := by
    intro n
    cases n with
    | none => rfl
    | some n => by_cases hn : n = 0 <;> simp [hn, Option.filter_some]
  have hdisttag : ∀ (d : Option Str) (version : Str), (if d.getD [] ≠ [] then version ++ ':' :: d.getD [] else version) =
      version ++ (d.filter (· ≠ [])).elim [] fun d => ':' :: d := by
    intro d version
    cases d with
    | none => simp
    | some d => by_cases hd : d = [] <;> simp [hd, Option.filter_some]
  have hbuildtime : ∀ (n : Option Nat) (version : Str),
      (if n.getD 0 ≠ 0 then version ++ '@' :: natText (n.getD 0) else version) =
        version ++ (n.filter (· ≠ 0)).elim [] fun n => '@' :: natText n := by
    intro n version
    cases n with
    | none => simp
    | some n => by_cases hn : n = 0 <;> simp [hn, Option.filter_some]
  dsimp only
  rw [hepoch, hdisttag, hbuildtime]
  rfl

/-- **The package of tags** that are read. -/
theorem PackageTags.Reads.packageOf_eq_ok (hreads : t.Reads values) {package : Option PackageRef} :
    packageOf arch component values = .ok package ↔
      t.Valid component ∧ package = t.selected arch component := by
  obtain ⟨h1000, h1001, h1002, h1022, h1155, h1000000, h1000010⟩ := forall_stringTags.1 hreads.strings
  obtain ⟨h1003, h1006⟩ := forall_intTags.1 hreads.ints
  have hname : (values.strings.lookup 1000).getD [] = t.name := by rw [h1000]; rfl
  have hversion : (values.strings.lookup 1001).getD [] = t.version := by rw [h1001]; rfl
  have hrelease : (values.strings.lookup 1002).getD [] = t.release := by rw [h1002]; rfl
  have harch : (values.strings.lookup 1022).getD [] = t.arch := by rw [h1022]; rfl
  have hfile : (values.strings.lookup 1000000).getD [] = t.filename := by rw [h1000000]; rfl
  have hdisttag : values.strings.lookup 1155 = t.disttag := h1155
  have hdirectory : (values.strings.lookup 1000010).getD ("RPMS.".toList ++ component) = t.location component := by
    rw [h1000010]
    rfl
  have hepoch : values.ints.lookup 1003 = t.epoch := h1003
  have hbuildtime : values.ints.lookup 1006 = t.buildtime := h1006
  have hidentity : ([1000, 1001, 1002, 1022, 1000000].any fun tag => (values.strings.lookup tag).getD [] = []) = false ↔
      t.name ≠ [] ∧ t.version ≠ [] ∧ t.release ≠ [] ∧ t.arch ≠ [] ∧ t.filename ≠ [] := by
    rw [List.any_eq_false]
    simp only [List.forall_mem_cons, hname, hversion, hrelease, harch, hfile]
    simp
  have hrpm : ".rpm".toList.isSuffixOf t.filename = true ↔ ".rpm".toList <:+ t.filename := List.isSuffixOf_iff_suffix
  unfold packageOf
  dsimp only
  simp only [hname, hversion, hrelease, harch, hfile, hdisttag, hdirectory, hepoch, hbuildtime]
  have hfull := fullVersion_eq t
  dsimp only at hfull
  rw [hfull]
  constructor
  · intro h
    split at h
    · cases h
    rename_i hfields
    rw [Bool.not_eq_true, hidentity] at hfields
    obtain ⟨filename, hfilename, h⟩ := bind_eq_ok.1 h
    obtain ⟨rfl, hrelative⟩ := relative_eq_ok.1 hfilename
    obtain ⟨directory, hlocation, h⟩ := bind_eq_ok.1 h
    obtain ⟨rfl, hrelative'⟩ := relative_eq_ok.1 hlocation
    split at h
    · cases h
    rename_i hbase
    rw [not_or, Bool.not_eq_false, hrpm] at hbase
    refine ⟨⟨⟨hfields.1, hfields.2.1, hfields.2.2.1, hfields.2.2.2.1⟩, hrelative, hbase.1, hbase.2, hrelative'⟩, ?_⟩
    unfold PackageTags.selected
    split at h
    · rename_i hother
      cases h
      rw [if_neg (show ¬ t.Selected arch from not_or.2 hother)]
    · rename_i hselected
      cases h
      rw [if_pos (show t.Selected arch from (not_and_or.1 hselected).imp not_not.1 not_not.1)]
      rfl
  · rintro ⟨hvalid, rfl⟩
    obtain ⟨hn, hv, hr, ha⟩ := hvalid.identity
    rw [if_neg (by rw [Bool.not_eq_true, hidentity]; exact ⟨hn, hv, hr, ha, hvalid.filename.ne_nil⟩)]
    refine bind_eq_ok.2 ⟨_, relative_eq_ok.2 ⟨rfl, hvalid.filename⟩,
      bind_eq_ok.2 ⟨_, relative_eq_ok.2 ⟨rfl, hvalid.directory⟩, ?_⟩⟩
    rw [if_neg (by rw [not_or, Bool.not_eq_false, hrpm]; exact ⟨hvalid.basename, hvalid.rpm⟩)]
    unfold PackageTags.selected
    by_cases hselected : t.Selected arch
    · rw [if_pos hselected, if_neg fun hother => hselected.elim hother.1 hother.2]
      rfl
    · rw [if_neg hselected, if_pos (not_or.1 hselected)]
      rfl

/-- The tags of values that have the identity. -/
theorem exists_reads {package : Option PackageRef} (h : packageOf arch component values = .ok package) :
    ∃ t : PackageTags, t.Reads values := by
  have hidentity : ∀ tag ∈ [1000, 1001, 1002, 1022, 1000000], (values.strings.lookup tag).getD [] ≠ [] := by
    unfold packageOf at h
    dsimp only at h
    split at h
    · cases h
    rename_i hfields
    simpa [List.any_eq_false] using hfields
  have hsome : ∀ tag ∈ [1000, 1001, 1002, 1022, 1000000], values.strings.lookup tag =
      some ((values.strings.lookup tag).getD []) := by
    intro tag htag
    have hne := hidentity tag htag
    cases hlookup : values.strings.lookup tag with
    | none =>
      rw [hlookup] at hne
      exact absurd rfl hne
    | some s => rfl
  let text := fun tag => (values.strings.lookup tag).getD []
  refine ⟨{ name := text 1000, version := text 1001, release := text 1002, arch := text 1022, filename := text 1000000
            disttag := values.strings.lookup 1155, directory := values.strings.lookup 1000010
            epoch := values.ints.lookup 1003, buildtime := values.ints.lookup 1006 }, ?_, ?_⟩
  · exact forall_stringTags.2 ⟨hsome 1000 (by decide), hsome 1001 (by decide), hsome 1002 (by decide), hsome 1022 (by decide),
      rfl, hsome 1000000 (by decide), rfl⟩
  · exact forall_intTags.2 ⟨rfl, rfl⟩

/-- **A header describes tags** exactly when its entries are read, as their values. -/
theorem describes_iff : h.Describes t ↔
    ∃ values, h.entries.foldlM (readEntry h.data h.data.length) ⟨[], .empty, .empty⟩ = .ok values ∧ t.Reads values := by
  constructor
  · intro hd
    have hsame : ∀ e ∈ h.entries, ∀ e' ∈ h.entries, e.tag.toNat = e'.tag.toNat → e = e' := fun e he e' he' heq =>
      List.inj_on_of_nodup_map hd.tagsNodup he he' heq
    have heach : ∀ e ∈ h.entries, ∃ v, HasValue h.data e v := by
      intro e he
      have hmem : e.tag.toNat ∈ h.entries.map fun e => e.tag.toNat := List.mem_map_of_mem he
      by_cases hstring : e.tag.toNat ∈ stringTags
      · have htext := hd.strings _ hstring
        split at htext
        · obtain ⟨e', he', heq, hv⟩ := htext
          exact ⟨_, hsame e' he' e he heq ▸ hv⟩
        · exact absurd hmem htext
      by_cases hint : e.tag.toNat ∈ intTags
      · have hnumber := hd.ints _ hint
        split at hnumber
        · obtain ⟨e', he', heq, hv⟩ := hnumber
          exact ⟨_, hsame e' he' e he heq ▸ hv⟩
        · exact absurd hmem hnumber
      · exact ⟨_, .skipped hstring hint⟩
    obtain ⟨values, hvalues⟩ := @foldlM_of_values h.data h.entries ⟨[], .empty, .empty⟩ hd.tagsNodup fun e he =>
      ⟨List.not_mem_nil, hd.offsets e he, heach e he⟩
    obtain ⟨-, hheld, hother⟩ := values_of_foldlM hvalues
    have holds : ∀ e ∈ h.entries, ∀ v, HasValue h.data e v → values.Holds e.tag.toNat v := by
      intro e he v hv
      obtain ⟨-, -, v', hv', hholds⟩ := hheld e he
      exact hv'.unique hv ▸ hholds
    refine ⟨values, hvalues, fun tag htag => ?_, fun tag htag => ?_⟩
    · have htext := hd.strings tag htag
      split at htext
      · rename_i s hs
        obtain ⟨e, he, rfl, hv⟩ := htext
        exact (holds e he _ hv).trans hs.symm
      · rename_i hnone
        exact (hother tag htext).string.trans hnone.symm
    · have hnumber := hd.ints tag htag
      split at hnumber
      · rename_i n hn
        obtain ⟨e, he, rfl, hv⟩ := hnumber
        exact (holds e he _ hv).trans hn.symm
      · rename_i hnone
        exact (hother tag hnumber).int.trans hnone.symm
  · rintro ⟨values, hvalues, hreads⟩
    obtain ⟨hnodup, hheld, hother⟩ := values_of_foldlM hvalues
    refine ⟨hnodup, fun e he => (hheld e he).2.1, fun tag htag => ?_, fun tag htag => ?_⟩
    · by_cases hmem : tag ∈ h.entries.map fun e => e.tag.toNat
      · obtain ⟨e, he, rfl⟩ := List.mem_map.1 hmem
        obtain ⟨-, -, v, hv, hholds⟩ := hheld e he
        cases hv with
        | string s htag' hkind hitems hnul hbytes =>
          rw [← hreads.strings _ htag, show values.strings.lookup e.tag.toNat = some s from hholds]
          exact ⟨e, he, rfl, .string s htag' hkind hitems hnul hbytes⟩
        | int n hstring => exact absurd htag hstring
        | skipped hstring => exact absurd htag hstring
      · rw [← hreads.strings _ htag, (hother tag hmem).string]
        exact hmem
    · by_cases hmem : tag ∈ h.entries.map fun e => e.tag.toNat
      · obtain ⟨e, he, rfl⟩ := List.mem_map.1 hmem
        obtain ⟨-, -, v, hv, hholds⟩ := hheld e he
        have hnot : ∀ tag ∈ intTags, tag ∉ stringTags := by decide
        cases hv with
        | string s htag' => exact absurd htag' (hnot _ htag)
        | int n hstring htag' hkind hitems hn hbytes =>
          rw [← hreads.ints _ htag, show values.ints.lookup e.tag.toNat = some n from hholds]
          exact ⟨e, he, rfl, .int n hstring htag' hkind hitems hn hbytes⟩
        | skipped _ hint => exact absurd htag hint
      · rw [← hreads.ints _ htag, (hother tag hmem).int]
        exact hmem

end

/-! ## The whole index -/

section
variable (hexdigest : Str → Bytes → Str) (expected : Option Expected) (arch component : Str)

/-- The loop of `parse_pkglist`. -/
def parseFrom (r : Reader) (seen : List Str) (packages : List PackageRef) : Except PkglistError (List PackageRef) :=
  match _h : readPackage expected arch component r with
  | .error e => .error e
  | .ok none => (r.finish hexdigest expected).map fun _ => packages
  | .ok (some (none, r')) => parseFrom r' seen packages
  | .ok (some (some package, r')) =>
    if package.key ∈ seen then valueError "apt-rpm: duplicate package identity"
    else parseFrom r' (package.key :: seen) (packages ++ [package])
termination_by r.stream.length
decreasing_by all_goals exact readPackage_lt _h

/-- `parse_pkglist`, of what the stream expands to. -/
def parsePkglist (content : Bytes) : Except PkglistError (List PackageRef) :=
  parseFrom hexdigest expected arch component ⟨content, 0, []⟩ [] []

end

/-- Headers with the tags they are to have. -/
abbrev Listing := List (RpmHeader × PackageTags)

namespace Listing

def encode (hs : Listing) : Bytes := hs.flatMap fun p => p.1.encode

/-- Every header is within its limits, describes its tags, and these are valid. -/
def Valid (component : Str) (hs : Listing) : Prop := ∀ p ∈ hs, p.1.Sized ∧ p.1.Describes p.2 ∧ p.2.Valid component

/-- The packages of the requested architecture or of none, in order. -/
def packages (arch component : Str) (hs : Listing) : List PackageRef :=
  hs.filterMap fun p => p.2.selected arch component

theorem encode_cons (h : RpmHeader) (t : PackageTags) (hs : Listing) : encode ((h, t) :: hs) = h.encode ++ encode hs := rfl

theorem packages_cons_none {arch component : Str} {t : PackageTags} (ht : t.selected arch component = none) (h : RpmHeader)
    (hs : Listing) : packages arch component ((h, t) :: hs) = packages arch component hs :=
  List.filterMap_cons_none ht

theorem packages_cons_some {arch component : Str} {t : PackageTags} {package : PackageRef}
    (ht : t.selected arch component = some package) (h : RpmHeader) (hs : Listing) :
    packages arch component ((h, t) :: hs) = package :: packages arch component hs :=
  List.filterMap_cons_some ht

end Listing

/-- The content is within the limits and has the size and the digest that were expected. -/
def Verified (hexdigest : Str → Bytes → Str) (expected : Option Expected) (content : Bytes) : Prop :=
  content.length ≤ maxExpanded ∧ ∀ e ∈ expected, content.length = e.size ∧ hexdigest e.algorithm content = e.digest

section
variable {hexdigest : Str → Bytes → Str} {expected : Option Expected} {arch component : Str} {r r' : Reader}

theorem finish_eq_ok : r.finish hexdigest expected = .ok () ↔
    ∀ e ∈ expected, r.count = e.size ∧ hexdigest e.algorithm r.hashed = e.digest := by
  unfold Reader.finish
  cases expected with
  | none => exact ⟨fun _ => nofun, fun _ => rfl⟩
  | some e =>
    dsimp only
    constructor
    · intro h
      split at h
      · cases h
      rename_i hgood
      rw [not_or, not_not, not_not] at hgood
      rintro e' he'
      cases he'
      exact hgood
    · intro h
      rw [if_neg (by rw [not_or, not_not, not_not]; exact h e rfl)]

/-- One round reads one header of a valid listing. -/
theorem readPackage_iff {package : Option PackageRef} :
    readPackage expected arch component r = .ok (some (package, r')) ↔
      ∃ h t, RpmHeader.Sized h ∧ h.Describes t ∧ t.Valid component ∧ r.Read h.encode r' ∧ Within expected r'.count ∧
        package = t.selected arch component := by
  rw [readPackage_eq_some]
  constructor
  · rintro ⟨h, hsized, hread, hwithin, values, hvalues, hpackage⟩
    obtain ⟨t, hreads⟩ := exists_reads hpackage
    obtain ⟨hvalid, rfl⟩ := hreads.packageOf_eq_ok.1 hpackage
    exact ⟨h, t, hsized, describes_iff.2 ⟨values, hvalues, hreads⟩, hvalid, hread, hwithin, rfl⟩
  · rintro ⟨h, t, hsized, hdescribes, hvalid, hread, hwithin, rfl⟩
    obtain ⟨values, hvalues, hreads⟩ := describes_iff.1 hdescribes
    exact ⟨h, hsized, hread, hwithin, values, hvalues, hreads.packageOf_eq_ok.2 ⟨hvalid, rfl⟩⟩

/-- **What the loop accepts** is a valid listing. -/
theorem listing_of_parseFrom {seen : List Str} {packages result : List PackageRef}
    (h : parseFrom hexdigest expected arch component r seen packages = .ok result) :
    ∃ (hs : Listing) (r' : Reader), hs.Valid component ∧ r.Read hs.encode r' ∧ r'.stream = [] ∧ Within expected r'.count ∧
      r'.finish hexdigest expected = .ok () ∧ result = packages ++ hs.packages arch component ∧
      ((hs.packages arch component).map PackageRef.key).Nodup ∧
      ∀ p ∈ hs.packages arch component, p.key ∉ seen := by
  fun_induction parseFrom with
  | case1 r seen packages e he => cases h
  | case2 r seen packages hnone =>
    obtain ⟨hnil, hwithin⟩ := readPackage_eq_none.1 hnone
    cases hfinish : r.finish hexdigest expected with
    | error e =>
      rw [hfinish] at h
      cases h
    | ok u =>
      rw [hfinish] at h
      cases h
      refine ⟨[], r, nofun, ⟨rfl, rfl, (List.append_nil _).symm⟩, hnil, hwithin, hfinish,
        (List.append_nil _).symm, ?_, nofun⟩
      exact List.nodup_nil
  | case3 r seen packages r₁ hround ih =>
    obtain ⟨header, t, hsized, hdescribes, hvalid, hread, hwithin, hother⟩ := readPackage_iff.1 hround
    obtain ⟨hs, r', hall, hrest, hnil, hlimit, hfinish, hresult, hnodup, hnew⟩ := ih h
    have hpackages := Listing.packages_cons_none hother.symm header hs
    refine ⟨(header, t) :: hs, r', List.forall_mem_cons.2 ⟨⟨hsized, hdescribes, hvalid⟩, hall⟩, hread.trans hrest, hnil,
      hlimit, hfinish, ?_⟩
    rw [hpackages]
    exact ⟨hresult, hnodup, hnew⟩
  | case4 r seen packages package r₁ hround hdup => cases h
  | case5 r seen packages package r₁ hround hdup ih =>
    obtain ⟨header, t, hsized, hdescribes, hvalid, hread, hwithin, hselected⟩ := readPackage_iff.1 hround
    obtain ⟨hs, r', hall, hrest, hnil, hlimit, hfinish, hresult, hnodup, hnew⟩ := ih h
    have hpackages := Listing.packages_cons_some hselected.symm header hs
    refine ⟨(header, t) :: hs, r', List.forall_mem_cons.2 ⟨⟨hsized, hdescribes, hvalid⟩, hall⟩, hread.trans hrest, hnil,
      hlimit, hfinish, ?_⟩
    rw [hpackages]
    refine ⟨by rw [hresult, List.append_assoc]; rfl, List.nodup_cons.2 ⟨fun hmem => ?_, hnodup⟩, ?_⟩
    · obtain ⟨p, hp, hkey⟩ := List.mem_map.1 hmem
      exact hnew p hp (hkey ▸ List.mem_cons_self)
    · rintro p hp
      rcases List.mem_cons.1 hp with rfl | hp
      · exact hdup
      · exact fun hseen => hnew p hp (List.mem_cons_of_mem _ hseen)

/-- **A valid listing** of packages that are not yet seen is accepted. -/
theorem parseFrom_of_listing : ∀ {hs : Listing} {r r' : Reader} {seen : List Str} {packages : List PackageRef},
    hs.Valid component → r.Read hs.encode r' → r'.stream = [] → Within expected r'.count →
    r'.finish hexdigest expected = .ok () → ((hs.packages arch component).map PackageRef.key).Nodup →
    (∀ p ∈ hs.packages arch component, p.key ∉ seen) →
      parseFrom hexdigest expected arch component r seen packages = .ok (packages ++ hs.packages arch component)
  | [], r, r', seen, packages, _, hread, hnil, hwithin, hfinish, _, _ => by
    obtain ⟨hstream, hcount, hhashed⟩ := hread
    have hsame : r' = r := by
      cases r
      cases r'
      simp_all [Listing.encode]
    rw [hsame] at hnil hwithin hfinish
    rw [parseFrom, readPackage_eq_none.2 ⟨hnil, hwithin⟩]
    dsimp only
    rw [hfinish]
    exact congrArg Except.ok (List.append_nil packages).symm
  | (header, t) :: hs, r, r', seen, packages, hall, hread, hnil, hwithin, hfinish, hnodup, hnew => by
    obtain ⟨⟨hsized, hdescribes, hvalid⟩, hall⟩ := List.forall_mem_cons.1 hall
    obtain ⟨r₁, hread₁, hrest⟩ := hread.split
    have hround : readPackage expected arch component r = .ok (some (t.selected arch component, r₁)) :=
      readPackage_iff.2 ⟨header, t, hsized, hdescribes, hvalid, hread₁, hwithin.mono hrest.count_le, rfl⟩
    rw [parseFrom, hround]
    cases hselected : t.selected arch component with
    | none =>
      rw [Listing.packages_cons_none hselected] at hnodup hnew ⊢
      exact parseFrom_of_listing hall hrest hnil hwithin hfinish hnodup hnew
    | some package =>
      rw [Listing.packages_cons_some hselected] at hnodup hnew ⊢
      rw [List.map_cons, List.nodup_cons] at hnodup
      have hfirst := hnew package List.mem_cons_self
      have hlater : ∀ p ∈ Listing.packages arch component hs, p.key ∉ package.key :: seen := fun p hp hmem => by
        rcases List.mem_cons.1 hmem with heq | hmem
        · exact hnodup.1 (heq ▸ List.mem_map_of_mem hp)
        · exact hnew p (List.mem_cons_of_mem _ hp) hmem
      dsimp only
      rw [if_neg hfirst, parseFrom_of_listing hall hrest hnil hwithin hfinish hnodup.2 hlater, List.append_assoc]
      rfl

/-- **What is accepted**: exactly the encodings of valid listings of distinct packages. -/
theorem parsePkglist_eq_ok {content : Bytes} {result : List PackageRef} :
    parsePkglist hexdigest expected arch component content = .ok result ↔
      ∃ hs : Listing, content = hs.encode ∧ hs.Valid component ∧ Verified hexdigest expected content ∧
        result = hs.packages arch component ∧ (result.map PackageRef.key).Nodup := by
  constructor
  · intro h
    obtain ⟨hs, r', hall, hread, hnil, hwithin, hfinish, hresult, hnodup, -⟩ := listing_of_parseFrom h
    have hcontent : content = hs.encode := by
      have := hread.stream
      rwa [hnil, List.append_nil] at this
    have hcount : r'.count = content.length := by rw [hread.count, hcontent, Nat.zero_add]
    have hhashed : r'.hashed = content := by rw [hread.hashed, hcontent, List.nil_append]
    rw [finish_eq_ok, hcount, hhashed] at hfinish
    rw [hcount] at hwithin
    rw [List.nil_append] at hresult
    exact ⟨hs, hcontent, hall, ⟨hwithin.1, hfinish⟩, hresult, hresult ▸ hnodup⟩
  · rintro ⟨hs, rfl, hall, ⟨hlimit, hverified⟩, rfl, hnodup⟩
    have hread : Reader.Read ⟨hs.encode, 0, []⟩ hs.encode ⟨[], hs.encode.length, hs.encode⟩ :=
      ⟨(List.append_nil _).symm, (Nat.zero_add _).symm, rfl⟩
    have hwithin : Within expected hs.encode.length := ⟨hlimit, fun e he => (hverified e he).1.le⟩
    exact parseFrom_of_listing hall hread rfl hwithin (finish_eq_ok.2 hverified) hnodup nofun

/-! ## Truncation -/

theorem take_encode (h : RpmHeader) (rest : Bytes) : (h.encode ++ rest).take 16 =
    magic ++ (BigEndian.encode 4 h.entries.length ++ BigEndian.encode 4 h.data.length) := by
  unfold RpmHeader.encode
  rw [List.append_assoc, List.take_left' (by simp [length_magic, BigEndian.length_encode])]

/-- The first sixteen bytes say how long a header is. -/
theorem length_encode_eq {h h' : RpmHeader} (hsized : h.Sized) (hsized' : h'.Sized)
    (heq : h.encode.take 16 = h'.encode.take 16) : h.encode.length = h'.encode.length := by
  have htake := take_encode h []
  have htake' := take_encode h' []
  rw [List.append_nil] at htake htake'
  rw [htake, htake', List.append_cancel_left_eq] at heq
  obtain ⟨⟨-, hcount⟩, -, hsize⟩ := hsized
  obtain ⟨⟨-, hcount'⟩, -, hsize'⟩ := hsized'
  have hpair := @unpackPair_encode h.entries.length h.data.length (by omega) (by omega)
  rw [heq, unpackPair_encode (by omega) (by omega), Except.ok.injEq, Prod.mk.injEq] at hpair
  rw [length_encode, length_encode, hpair.1, hpair.2]

/-- **Headers are cut at their ends only**: a listing that begins another one ends after one of its headers. -/
theorem prefix_encode : ∀ {hs' hs : Listing}, hs'.Valid component → hs.Valid component → hs'.encode <+: hs.encode →
    ∃ k, hs'.encode = Listing.encode (hs.take k)
  | [], hs, _, _, _ => ⟨0, rfl⟩
  | (h', t') :: hs', [], hall', _, hpre => by
    have hlength := length_encode h'
    have hle := hpre.length_le
    rw [Listing.encode_cons, List.length_append, show Listing.encode [] = [] from rfl, List.length_nil] at hle
    omega
  | (h', t') :: hs', (h, t) :: hs, hall', hall, hpre => by
    obtain ⟨⟨hsized', -⟩, hall'⟩ := List.forall_mem_cons.1 hall'
    obtain ⟨⟨hsized, -⟩, hall⟩ := List.forall_mem_cons.1 hall
    rw [Listing.encode_cons, Listing.encode_cons] at hpre
    have hlong := length_encode h
    have hlong' := length_encode h'
    have htake : h'.encode.take 16 = h.encode.take 16 := by
      obtain ⟨rest, hrest⟩ := hpre
      have := congrArg (List.take 16) hrest
      rwa [List.append_assoc, List.take_append_of_le_length (by omega), List.take_append_of_le_length (by omega)] at this
    have hlength := length_encode_eq hsized' hsized htake
    obtain ⟨rest, hrest⟩ := hpre
    rw [List.append_assoc] at hrest
    obtain ⟨hhead, htail⟩ := List.append_inj hrest hlength
    obtain ⟨k, hk⟩ := prefix_encode hall' hall ⟨rest, htail⟩
    exact ⟨k + 1, by rw [Listing.encode_cons, hk, List.take_succ_cons, Listing.encode_cons, hhead]⟩

/-! ## Reads stay inside their sections -/

theorem read_ne_struct {n : Nat} : r.read expected n ≠ .error .structError := by
  unfold Reader.read
  dsimp only
  split <;> nofun

theorem readValue_ne_struct {data : Bytes} {e : IndexEntry} : readValue data data.length e ≠ .error .structError := by
  unfold readValue
  split
  · split
    · nofun
    split
    · nofun
    split <;> nofun
  split
  · split
    · nofun
    rename_i hkind
    rw [not_or, not_or, not_lt] at hkind
    unfold unpackFrom
    rw [if_pos hkind.2.2]
    nofun
  · nofun

theorem foldlM_ne_struct {data : Bytes} : ∀ {entries : List IndexEntry} {values : Values},
    entries.foldlM (readEntry data data.length) values ≠ .error .structError
  | [], _ => nofun
  | e :: entries, values => by
    rw [List.foldlM_cons]
    intro h
    rcases bind_eq_error.1 h with h | ⟨values', -, h⟩
    · unfold readEntry at h
      split at h
      · cases h
      cases hv : readValue data data.length e with
      | error err =>
        rw [hv] at h
        cases h
        exact readValue_ne_struct hv
      | ok v =>
        rw [hv] at h
        cases h
    · exact foldlM_ne_struct h

theorem relative_ne_struct {value : Str} : relative value ≠ .error .structError := by
  unfold relative
  split <;> nofun

theorem packageOf_ne_struct {values : Values} : packageOf arch component values ≠ .error .structError := by
  unfold packageOf
  dsimp only
  split
  · intro h
    cases h
  intro h
  rcases bind_eq_error.1 h with h | ⟨filename, -, h⟩
  · exact relative_ne_struct h
  rcases bind_eq_error.1 h with h | ⟨directory, -, h⟩
  · exact relative_ne_struct h
  split at h
  · cases h
  split at h <;> cases h

/-- **Sections are as long as they are read**: no integer is read across the end of one. -/
theorem readPackage_ne_struct : readPackage expected arch component r ≠ .error .structError := by
  intro h
  unfold readPackage at h
  rcases bind_eq_error.1 h with h | ⟨⟨header, r₁⟩, -, h⟩
  · exact read_ne_struct h
  dsimp only at h
  split at h
  · cases h
  split at h
  · cases h
  rename_i hmagic
  rw [not_or, not_not] at hmagic
  rcases bind_eq_error.1 h with h | ⟨⟨count, size⟩, -, h⟩
  · unfold unpackPair at h
    rw [if_pos (by rw [List.length_drop, hmagic.1])] at h
    cases h
  dsimp only at h
  split at h
  · cases h
  rcases bind_eq_error.1 h with h | ⟨⟨index, r₂⟩, -, h⟩
  · exact read_ne_struct h
  rcases bind_eq_error.1 h with h | ⟨⟨data, r₃⟩, -, h⟩
  · exact read_ne_struct h
  dsimp only at h
  split at h
  · cases h
  rename_i hlengths
  rw [not_or, not_not, not_not] at hlengths
  rcases bind_eq_error.1 h with h | ⟨entries, -, h⟩
  · unfold iterUnpack at h
    rw [if_pos (by rw [hlengths.1]; exact Nat.mul_mod_left _ _)] at h
    cases h
  rcases bind_eq_error.1 h with h | ⟨values, -, h⟩
  · rw [← hlengths.2] at h
    exact foldlM_ne_struct h
  rcases bind_eq_error.1 h with h | ⟨package, -, h⟩
  · exact packageOf_ne_struct h
  · cases h

theorem parseFrom_ne_struct {seen : List Str} {packages : List PackageRef} :
    parseFrom hexdigest expected arch component r seen packages ≠ .error .structError := by
  fun_induction parseFrom with
  | case1 r seen packages e he =>
    rintro ⟨⟩
    exact readPackage_ne_struct he
  | case2 r seen packages hnone =>
    unfold Reader.finish
    split
    · nofun
    split <;> nofun
  | case3 r seen packages r₁ hround ih => exact ih
  | case4 => nofun
  | case5 r seen packages package r₁ hround hdup ih => exact ih

end

/-- **The decoder inverts encoding and rejects damage.**  The encoding of valid headers within the size limits, with different
selected packages, is read as these packages in order; whatever is accepted is such an encoding; what begins the encoding of
valid headers and does not end after one of them is rejected; and nothing is read across the end of a section. -/
theorem pkglist_inverts (hexdigest : Str → Bytes → Str) (expected : Option Expected) (arch component : Str) :
    (∀ hs : Listing, hs.Valid component → Verified hexdigest expected hs.encode →
      ((hs.packages arch component).map PackageRef.key).Nodup →
      parsePkglist hexdigest expected arch component hs.encode = .ok (hs.packages arch component)) ∧
    (∀ content result, parsePkglist hexdigest expected arch component content = .ok result →
      ∃ hs : Listing, content = hs.encode ∧ hs.Valid component ∧ Verified hexdigest expected content ∧
        result = hs.packages arch component ∧ (result.map PackageRef.key).Nodup) ∧
    (∀ hs : Listing, hs.Valid component → ∀ content, content <+: hs.encode →
      (∀ k, content ≠ Listing.encode (hs.take k)) →
        ∀ result, parsePkglist hexdigest expected arch component content ≠ .ok result) ∧
    ∀ content, parsePkglist hexdigest expected arch component content ≠ .error .structError := by
  refine ⟨fun hs hall hverified hnodup => ?_, fun content result h => parsePkglist_eq_ok.1 h, ?_,
    fun content => parseFrom_ne_struct⟩
  · exact parsePkglist_eq_ok.2 ⟨hs, rfl, hall, hverified, rfl, hnodup⟩
  · intro hs hall content hpre hcut result h
    obtain ⟨hs', rfl, hall', -⟩ := parsePkglist_eq_ok.1 h
    obtain ⟨k, hk⟩ := prefix_encode hall' hall hpre
    exact hcut k hk

/-! ## Valid headers are decidable -/

instance (h : RpmHeader) : Decidable h.Sized := inferInstanceAs (Decidable (_ ∧ _))

instance (value : Str) : Decidable (Relative value) :=
  decidable_of_iff (value ≠ [] ∧ value.all isUriChar = true ∧ ¬ ['/'] <+: value ∧
      ∀ part ∈ value.splitOn '/', part ≠ [] ∧ part ≠ ['.'] ∧ part ≠ ['.', '.'])
    ⟨fun ⟨hne, hchars, hrelative, hsegments⟩ => ⟨hne, List.all_eq_true.1 hchars, hrelative, hsegments⟩,
      fun h => ⟨h.ne_nil, List.all_eq_true.2 h.chars, h.relative, h.segments⟩⟩

instance (t : PackageTags) (component : Str) : Decidable (t.Valid component) :=
  decidable_of_iff ((t.name ≠ [] ∧ t.version ≠ [] ∧ t.release ≠ [] ∧ t.arch ≠ []) ∧ Relative t.filename ∧
      '/' ∉ t.filename ∧ ".rpm".toList <:+ t.filename ∧ Relative (t.location component))
    ⟨fun ⟨hidentity, hfilename, hbasename, hrpm, hdirectory⟩ => ⟨hidentity, hfilename, hbasename, hrpm, hdirectory⟩,
      fun h => ⟨h.identity, h.filename, h.basename, h.rpm, h.directory⟩⟩

/-- The header is read, and as the tags. -/
def RpmHeader.tells (h : RpmHeader) (t : PackageTags) : Bool :=
  match h.entries.foldlM (readEntry h.data h.data.length) ⟨[], .empty, .empty⟩ with
  | .ok values => (stringTags.all fun tag => values.strings.lookup tag = t.text tag) &&
      intTags.all fun tag => values.ints.lookup tag = t.number tag
  | .error _ => false

theorem tells_iff {h : RpmHeader} {t : PackageTags} : h.tells t = true ↔ h.Describes t := by
  rw [describes_iff]
  unfold RpmHeader.tells
  cases h.entries.foldlM (readEntry h.data h.data.length) ⟨[], .empty, .empty⟩ with
  | error e => simp
  | ok values =>
    simp only [Bool.and_eq_true, List.all_eq_true, decide_eq_true_eq, Except.ok.injEq, exists_eq_left']
    exact ⟨fun hreads => ⟨hreads.1, hreads.2⟩, fun hreads => ⟨hreads.strings, hreads.ints⟩⟩

instance (h : RpmHeader) (t : PackageTags) : Decidable (h.Describes t) := decidable_of_iff _ tells_iff

instance (component : Str) (hs : Listing) : Decidable (hs.Valid component) :=
  inferInstanceAs (Decidable (∀ p ∈ hs, _ ∧ _ ∧ _))

/-- The entries of values that follow one another. -/
def packEntries : Nat → List (UInt32 × UInt32 × Bytes) → List IndexEntry
  | _, [] => []
  | offset, (tag, kind, bytes) :: values => ⟨tag, kind, .ofNat offset, 1⟩ :: packEntries (offset + bytes.length) values

def packHeader (values : List (UInt32 × UInt32 × Bytes)) : RpmHeader :=
  ⟨packEntries 0 values, values.flatMap fun value => value.2.2⟩

def packString (tag : UInt32) (s : String) : UInt32 × UInt32 × Bytes := (tag, 6, Utf8.utf8Bytes s.toList ++ [0])

def packInt (tag : UInt32) (n : Nat) : UInt32 × UInt32 × Bytes := (tag, 4, BigEndian.encode 4 n)

/-- A package of the five tags that each has, one with all the others and a summary, and one of another architecture. -/
def demoListing : Listing := [
  (packHeader [packString 1000 "a", packString 1001 "1", packString 1002 "r", packString 1022 "x", packString 1000000 "a.rpm"],
    { name := ['a'], version := ['1'], release := ['r'], arch := ['x'], filename := "a.rpm".toList }),
  (packHeader [packInt 1003 2, packInt 1006 1700000000, packString 1000 "b", packString 1001 "3", packString 1002 "alt1",
      packString 1004 "text", packString 1022 "noarch", packString 1155 "sisyphus", packString 1000000 "b.rpm",
      packString 1000010 "RPMS.extra"],
    { name := ['b'], version := ['3'], release := "alt1".toList, arch := "noarch".toList, filename := "b.rpm".toList
      disttag := some "sisyphus".toList, directory := some "RPMS.extra".toList, epoch := some 2, buildtime := some 1700000000 }),
  (packHeader [packString 1000 "c", packString 1001 "1", packString 1002 "r", packString 1022 "y", packString 1000000 "c.rpm"],
    { name := ['c'], version := ['1'], release := ['r'], arch := ['y'], filename := "c.rpm".toList })]

/-- The listing is read as the packages of its architecture, and not when its last header is cut short. -/
theorem pkglist_inverts_demo :
    parsePkglist (fun _ _ => []) none ['x'] "classic".toList demoListing.encode = .ok [
      { name := ['a'], version := "1-r.x".toList, filename := some "RPMS.classic/a.rpm".toList },
      { name := ['b'], version := "2:3-alt1:sisyphus@1700000000.noarch".toList, filename := some "RPMS.extra/b.rpm".toList }] ∧
    ∀ result, parsePkglist (fun _ _ => []) none ['x'] "classic".toList demoListing.encode.dropLast ≠ .ok result := by
  have hvalid : demoListing.Valid "classic".toList := by decide +kernel
  have hverified : Verified (fun _ _ => []) none demoListing.encode := ⟨by decide +kernel, nofun⟩
  have hpackages : demoListing.packages ['x'] "classic".toList = [
      { name := ['a'], version := "1-r.x".toList, filename := some "RPMS.classic/a.rpm".toList },
      { name := ['b'], version := "2:3-alt1:sisyphus@1700000000.noarch".toList, filename := some "RPMS.extra/b.rpm".toList }] := by
    decide +kernel
  have hcut : ∀ k, demoListing.encode.dropLast ≠ Listing.encode (demoListing.take k) := by
    intro k
    match k with
    | 0 | 1 | 2 => decide +kernel
    | k + 3 =>
      intro heq
      have hlength := congrArg List.length heq
      rw [List.length_dropLast, List.take_of_length_le (Nat.le_add_left 3 k)] at hlength
      have hpos : 0 < demoListing.encode.length := by decide +kernel
      omega
  obtain ⟨hreads, -, hrejects, -⟩ := pkglist_inverts (fun _ _ => []) none ['x'] "classic".toList
  refine ⟨?_, hrejects demoListing hvalid _ (List.dropLast_prefix _) hcut⟩
  rw [← hpackages]
  exact hreads demoListing hvalid hverified (by decide +kernel)

end AptRpm
end RepoWatch
