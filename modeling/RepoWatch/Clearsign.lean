import RepoWatch.Lib.Lines
import RepoWatch.Lib.Utf8
import RepoWatch.Splitlines
/-!
# Clearsign — the signed body of a Release file

gpgv reads the armor of a clearsigned file by its lines; the program looks for the same markers as substrings.  The two
agree exactly when the file gives them no room to differ (`verifyClearsigned_iff`).
-/
namespace RepoWatch

open Lib Lib.Utf8

/-- `SignatureError`: a text, or the path that has no entry. -/
inductive SignatureError where
  | message (text : Str)
  | noEntry (targetPath : Str)
  deriving DecidableEq

/-- What running gpgv on a file gives. -/
inductive GpgvRun where
  | notFound
  | failed (error : Str)
  | finished (returncode : Int) (stdout stderr : Str)

/-- The fingerprints of a `VALIDSIG` status line. -/
def signer (line : Str) : Option (Str × Str) :=
  let fields := splitBlank line
  if 11 ≤ fields.length ∧ fields.take 2 = ["[GNUPG:]".toList, "VALIDSIG".toList] then
    some (fields.getD 2 [], if 12 ≤ fields.length then fields.getD 11 [] else fields.getD 2 [])
  else none

/-- `_run_gpgv`: the signers of the file. -/
def runGpgv (gpgv : Bytes → GpgvRun) (data : Bytes) : Except SignatureError (List (Str × Str)) :=
  match gpgv data with
  | .notFound => .error (.message "gpgv not found — install gnupg on the host running repowatch".toList)
  | .failed error => .error (.message ("gpgv: verification process failed: ".toList ++ error))
  | .finished returncode stdout stderr =>
    let statusLines := splitlines stdout
    if statusLines.any (startsWith · "[GNUPG:] BADSIG".toList) then
      .error (.message ("gpgv: BADSIG — data does not match the signature: ".toList ++ strip stderr))
    else if !statusLines.any (startsWith · "[GNUPG:] VALIDSIG".toList) then
      .error (.message ("gpgv: no signature was confirmed by a key in the keyring (exit code ".toList ++
        (toString returncode).toList ++ "): ".toList ++ strip stderr))
    else .ok (statusLines.filterMap signer)

def startMarker : Str := "-----BEGIN PGP SIGNED MESSAGE-----".toList

def sigMarker : Str := "-----BEGIN PGP SIGNATURE-----".toList

/-- `text.index(sub, start)`. -/
def index (text sub : Str) (start : Nat) : Option Nat := (find sub (text.drop start)).map (start + ·)

/-- `header_end` and `end`. -/
def bodySpan (text : Str) : Option (Nat × Nat) := do
  let start ← index text startMarker 0
  let headerEnd := (← index text ['\n', '\n'] start) + 2
  let stop ← index text sigMarker headerEnd
  return (headerEnd, stop)

/-- `line[2:] if line.startswith("- ") else line`. -/
def undash (line : Str) : Str := if startsWith line "- ".toList then line.drop 2 else line

/-- `"\n".join(lines)`. -/
def joinNewline (lines : List Str) : Str := ['\n'].intercalate lines

/-- `_extract_clearsigned_body`. -/
def extractClearsignedBody (data : Bytes) : Except SignatureError Bytes :=
  let text := decodeReplace data
  match bodySpan text with
  | none => .error (.message "doesn't look like a clearsigned file (no PGP headers)".toList)
  | some (headerEnd, stop) =>
    let body := (text.take stop).drop headerEnd
    let lines := (splitlines body).map undash
    .ok (utf8Bytes (joinNewline lines ++ ['\n']))

/-- `verify_clearsigned`. -/
def verifyClearsigned (gpgv : Bytes → GpgvRun) (data : Bytes) : Except SignatureError Bytes := do
  let _ ← runGpgv gpgv data
  extractClearsignedBody data

/-- The loop of `find_sha256_in_release` from a line on. -/
def sha256Entry (targetPath : Str) : Bool → List Str → Option Str
  | _, [] => none
  | inSection, line :: lines =>
    if strip line = "SHA256:".toList then sha256Entry targetPath true lines
    else if !inSection then sha256Entry targetPath inSection lines
    else if !startsWith line [' '] then none
    else match splitBlank line with
      | [digest, _, path] => if path = targetPath then some digest else sha256Entry targetPath inSection lines
      | _ => sha256Entry targetPath inSection lines

/-- `find_sha256_in_release`. -/
def findSha256InRelease (releaseBody : Bytes) (targetPath : Str) : Except SignatureError Str :=
  match sha256Entry targetPath false (splitlines (decodeReplace releaseBody)) with
  | some digest => .ok digest
  | none => .error (.noEntry targetPath)

/-! ## What is signed -/

/-- A blank of an armor line, which its line ending may begin with. -/
def IsArmorBlank (b : UInt8) : Prop := b = 32 ∨ b = 9 ∨ b = 13

/-- A file with one clearsigned message, by its lines.  An armor line begins a line and is followed by blanks only; lines of
the cleartext that begin with a dash are escaped; the rest of the file is arbitrary. -/
structure Clearsigned where
  before : List Bytes
  beginBlank : Bytes
  hashes : List Bytes
  blank : Bytes
  cleartext : List Bytes
  signatureBlank : Bytes
  signature : List Bytes
  endBlank : Bytes
  after : List Bytes
  lines : ∀ l ∈ before ++ hashes ++ cleartext ++ signature ++ after, (10 : UInt8) ∉ l
  blanks : ∀ b ∈ beginBlank ++ blank ++ signatureBlank ++ endBlank, IsArmorBlank b
  single : ∀ l ∈ before ++ after, ∀ w, l = utf8Bytes startMarker ++ w → ¬ ∀ b ∈ w, IsArmorBlank b
  hash : ∀ l ∈ hashes, utf8Bytes "Hash: ".toList <+: l
  escaped : ∀ l ∈ cleartext, l.head? = some 45 → [45, 32] <+: l
  armored : ∀ l ∈ signature, l.head? ≠ some 45

namespace Clearsigned

def head (m : Clearsigned) : List Bytes := m.before ++ (utf8Bytes startMarker ++ m.beginBlank) :: m.hashes ++ [m.blank]

def tail (m : Clearsigned) : List Bytes :=
  (utf8Bytes sigMarker ++ m.signatureBlank) :: (m.signature ++
    (utf8Bytes "-----END PGP SIGNATURE-----".toList ++ m.endBlank) :: m.after)

/-- The bytes of the file; its last line may be empty. -/
def file (m : Clearsigned) : Bytes := terminated 10 (m.head ++ m.cleartext) ++ [10].intercalate m.tail

/-- Where the cleartext begins in the decoded file. -/
def offset (m : Clearsigned) : Nat := (decodeReplace (terminated 10 m.head)).length

end Clearsigned

/-- The lines of a text without its final newline. -/
def lfLines (text : Str) : List Str := (if text.getLast? = some '\n' then text.dropLast else text).splitOn '\n'

/-- A line without its trailing blanks. -/
def trimmed (line : Str) : Str := line.rdropWhile fun c => c == ' ' || c == '\t' || c == '\r'

/-- The lines that a cleartext of the given lines signs, dashes unescaped. -/
def signedLines (lines : List Str) : List Str := (lfLines (terminated '\n' lines)).map undash

/-- An entry of the SHA256 section is among the lines. -/
def Listed (lines : List Str) (digest targetPath : Str) : Prop :=
  ∃ before entry after, lines = before ++ entry :: after ∧ (∃ l ∈ before, strip l = "SHA256:".toList) ∧
    ∃ size, splitBlank entry = [digest, size, targetPath]

/-- The result is the signed text: its lines up to trailing blanks, and so every digest found in it. -/
def IsSigned (lines : List Str) (result : Except SignatureError Bytes) : Prop :=
  ∃ body, result = .ok (utf8Bytes body) ∧ (lfLines body).map trimmed = (signedLines lines).map trimmed ∧
    ∀ digest targetPath, findSha256InRelease (utf8Bytes body) targetPath = .ok digest →
      Listed (signedLines lines) digest targetPath

/-- A line without the carriage return of its line ending. -/
def withoutCr (line : Str) : Str := if line.getLast? = some '\r' then line.dropLast else line

/-- The file gives the two readings no room to differ. -/
structure OneReading (m : Clearsigned) (lines : List Str) : Prop where
  /-- no empty line between a start marker inside a line and the message -/
  decoys : ∀ p l q, m.before = p ++ l :: q → startMarker <:+: decodeReplace l → [] ∉ q
  blank : m.blank = []
  markers : ∀ l ∈ lines, ¬ sigMarker <:+: l
  breaks : ∀ l ∈ lines, ∀ c ∈ withoutCr l, isLineBreak c = false

/-! ## The span of the body -/

section Span
variable {text sub : Str} {start i j : Nat}

theorem index_eq_some (h : index text sub start = some i) : start ≤ i ∧ sub <+: text.drop i := by
  obtain ⟨k, hk, rfl⟩ := Option.map_eq_some_iff.1 h
  have hp := prefix_of_find hk
  rw [List.drop_drop] at hp
  exact ⟨Nat.le_add_right _ _, hp⟩

theorem index_le (hj : start ≤ j) (hlen : j ≤ text.length) (h : sub <+: text.drop j) :
    ∃ i, index text sub start = some i ∧ i ≤ j := by
  obtain ⟨k, rfl⟩ := Nat.exists_eq_add_of_le hj
  rw [← List.drop_drop] at h
  obtain ⟨i, hi, hle⟩ := find_le (by rw [List.length_drop]; omega) h
  exact ⟨start + i, Option.map_eq_some_iff.2 ⟨i, hi, rfl⟩, Nat.add_le_add_left hle start⟩

theorem newline_not_mem_startMarker : '\n' ∉ startMarker := by decide

theorem newline_not_mem_sigMarker : '\n' ∉ sigMarker := by decide

variable {before : List Str} {b : Str} {hashes : List Str} {blank : Str} {lines : List Str} {tail : Str}

/-- No empty line of the head follows its first start marker. -/
theorem ne_nil_of_marker (hb : b ≠ []) (hhashes : ∀ l ∈ hashes, l ≠ [])
    (hdecoys : ∀ p l q, before = p ++ l :: q → startMarker <:+: l → [] ∉ q) {p q : List Str} {l : Str}
    (hcut : before ++ b :: hashes = p ++ l :: q) (hl : startMarker <:+: l) : ∀ m ∈ q, m ≠ [] := by
  rcases List.append_eq_append_iff.1 hcut with ⟨as, -, has⟩ | ⟨bs, hbs, hq⟩
  · intro m hm
    cases as with
    | nil =>
      obtain ⟨-, rfl⟩ := List.cons.inj has
      exact hhashes m hm
    | cons x as =>
      obtain ⟨-, rfl⟩ := List.cons.inj has
      exact hhashes m (List.mem_append_right _ (List.mem_cons_of_mem _ hm))
  · intro m hm
    cases bs with
    | nil =>
      obtain ⟨-, rfl⟩ := List.cons.inj hq
      exact hhashes m hm
    | cons x bs =>
      obtain ⟨rfl, rfl⟩ := List.cons.inj hq
      rcases List.mem_append.1 hm with hm | hm
      · rintro rfl
        exact hdecoys p l bs hbs hl hm
      · rcases List.mem_cons.1 hm with rfl | hm
        · exact hb
        · exact hhashes m hm

/-- From within a line that no empty line follows, the first empty line is the end of the head. -/
theorem index_newlines {p q : List Str} {l : Str} {off : Nat} (hoff : off ≤ l.length) (hlines : ∀ m ∈ l :: q, '\n' ∉ m)
    (hq : ∀ m ∈ q, m ≠ []) (rest : Str) :
    index (terminated '\n' (p ++ l :: q) ++ '\n' :: rest) ['\n', '\n'] ((terminated '\n' p).length + off) =
      some ((terminated '\n' (p ++ l :: q)).length - 1) := by
  have hdrop : (terminated '\n' (p ++ l :: q) ++ '\n' :: rest).drop ((terminated '\n' p).length + off) =
      terminated '\n' (l.drop off :: q) ++ '\n' :: rest := by
    rw [terminated_append, terminated_cons, terminated_cons, List.append_assoc, List.drop_length_add_append,
      List.append_assoc, List.drop_append_of_le_length hoff, List.append_assoc]
  have hlength : (terminated '\n' (p ++ l :: q)).length =
      (terminated '\n' p).length + off + (terminated '\n' (l.drop off :: q)).length := by
    rw [terminated_append, terminated_cons, terminated_cons, List.length_append, List.length_append, List.length_append,
      List.length_drop]
    omega
  have hpos : 0 < (terminated '\n' (l.drop off :: q)).length := length_terminated_pos _ _
  have hfind := find_sep_sep rest q (l.drop off) (fun hm => hlines l List.mem_cons_self (List.mem_of_mem_drop hm))
    fun m hm => ⟨hq m hm, hlines m (List.mem_cons_of_mem _ hm)⟩
  rw [index, hdrop, hfind, Option.map_some, hlength]
  congr 1
  omega

/-- A text without the signature marker ends where the marker begins. -/
theorem find_sigMarker (htail : sigMarker <+: tail) (hmarkers : ∀ l ∈ lines, ¬ sigMarker <:+: l) :
    find sigMarker (terminated '\n' lines ++ tail) = some (terminated '\n' lines).length := by
  refine find_eq_some_iff.2 ⟨by rwa [List.drop_left], fun k hk hmarker => ?_⟩
  obtain ⟨p, l, q, off, rfl, -, -, hl⟩ := exists_line newline_not_mem_sigMarker _ _ k hk hmarker
  exact hmarkers l (List.mem_append_right _ List.mem_cons_self)
    (hl.isInfix.trans <| List.IsSuffix.isInfix <| List.drop_suffix off l)

theorem bodySpan_eq (hb : startMarker <+: b) (hlines : ∀ l ∈ before ++ b :: hashes, '\n' ∉ l)
    (hhashes : ∀ l ∈ hashes, l ≠ []) (htail : sigMarker <+: tail)
    (hdecoys : ∀ p l q, before = p ++ l :: q → startMarker <:+: l → [] ∉ q) (hmarkers : ∀ l ∈ lines, ¬ sigMarker <:+: l) :
    bodySpan (terminated '\n' (before ++ b :: hashes ++ [[]]) ++ (terminated '\n' lines ++ tail)) =
      some ((terminated '\n' (before ++ b :: hashes ++ [[]])).length,
        (terminated '\n' (before ++ b :: hashes ++ [[]])).length + (terminated '\n' lines).length) := by
  have hempty : terminated '\n' (before ++ b :: hashes ++ [[]]) = terminated '\n' (before ++ b :: hashes) ++ ['\n'] :=
    terminated_append _ _
  have hnil : b ≠ [] := by
    rintro rfl
    cases List.prefix_nil.1 hb
  rw [hempty]
  have hstop := find_sigMarker htail hmarkers
  generalize terminated '\n' lines ++ tail = rest at hstop ⊢
  rw [List.append_assoc, List.length_append, List.singleton_append, List.length_singleton]
  -- the first start marker is in a line that no empty line of the head follows
  have hmarked : startMarker <+:
    (terminated '\n' (before ++ b :: hashes) ++ '\n' :: rest).drop (terminated '\n' before).length := by
    rw [terminated_append, terminated_cons, List.append_assoc, List.drop_left, List.append_assoc]
    exact hb.trans (List.prefix_append _ _)
  have hbefore : (terminated '\n' before).length < (terminated '\n' (before ++ b :: hashes)).length := by
    rw [terminated_append, List.length_append]
    exact Nat.lt_add_of_pos_right (length_terminated_pos b hashes)
  obtain ⟨start, hstart, hle⟩ := index_le (Nat.zero_le _) (by rw [List.length_append]; omega) hmarked
  obtain ⟨p, l, q, off, hcut, rfl, hoff, hl⟩ :=
    exists_line newline_not_mem_startMarker _ _ start (by omega) (index_eq_some hstart).2
  have hq := ne_nil_of_marker hnil hhashes hdecoys hcut (hl.isInfix.trans <| List.IsSuffix.isInfix <| List.drop_suffix off l)
  rw [hcut] at hlines hstart hbefore ⊢
  have hheader := index_newlines (p := p) hoff (fun m hm => hlines m (List.mem_append_right p hm)) hq rest
  generalize terminated '\n' (p ++ l :: q) = before at hstart hheader hbefore ⊢
  have hend : before.length - 1 + 2 = before.length + 1 := by omega
  rw [bodySpan, hstart]
  dsimp only [Option.bind_eq_bind, Option.bind_some]
  rw [hheader]
  dsimp only [Option.bind_some]
  rw [hend, index, List.drop_length_add_append, List.drop_succ_cons, List.drop_zero, hstop]
  rfl

theorem bodySpan_eq_some {stop : Nat} (h : bodySpan text = some (i, stop)) :
    ∃ start j, index text startMarker 0 = some start ∧ index text ['\n', '\n'] start = some j ∧ i = j + 2 ∧
      index text sigMarker i = some stop := by
  obtain ⟨start, hstart, h⟩ := Option.bind_eq_some_iff.1 h
  obtain ⟨j, hj, h⟩ := Option.bind_eq_some_iff.1 h
  obtain ⟨stop', hstop, h⟩ := Option.bind_eq_some_iff.1 h
  cases h
  exact ⟨start, j, hstart, hj, rfl, hstop⟩

/-- A pattern within a line is in the text. -/
theorem prefix_drop_of_line (u v : Str) (p q : List Str) (rest : Str) :
    sub <+: (terminated '\n' (p ++ (u ++ sub ++ v) :: q) ++ rest).drop ((terminated '\n' p).length + u.length) := by
  rw [terminated_append, terminated_cons, List.append_assoc, List.drop_length_add_append, List.append_assoc, List.append_assoc,
    List.append_assoc, List.drop_left]
  exact List.prefix_append _ _

/-- An empty line after a start marker ends the header there. -/
theorem index_newlines_le {u v rest : Str} {p q : List Str}
    (htext : text = terminated '\n' (p ++ (u ++ startMarker ++ v) :: q ++ [[]]) ++ rest)
    (hstart : index text startMarker 0 = some start) (hj : index text ['\n', '\n'] start = some j) :
    j + 2 ≤ (terminated '\n' (p ++ (u ++ startMarker ++ v) :: q ++ [[]])).length := by
  have hmarker : startMarker <+: text.drop ((terminated '\n' p).length + u.length) := by
    rw [htext, terminated_append, List.append_assoc]
    exact prefix_drop_of_line u v p q _
  obtain ⟨x, hx⟩ := exists_terminated_eq '\n' (u ++ startMarker ++ v) q
  have hhead : terminated '\n' (p ++ (u ++ startMarker ++ v) :: q ++ [[]]) = terminated '\n' p ++ x ++ ['\n', '\n'] := by
    rw [terminated_append, terminated_append, hx, List.append_assoc, List.append_assoc, List.append_assoc]
    rfl
  have hux : u.length ≤ x.length := by
    have hlength := congrArg List.length hx
    rw [terminated_cons, List.length_append, List.length_append, List.length_append, List.length_append, List.length_cons,
      List.length_singleton] at hlength
    omega
  rw [hhead] at htext ⊢
  have hlen : text.length = (terminated '\n' p).length + x.length + 2 + rest.length := by
    rw [htext, List.length_append, List.length_append, List.length_append]
    rfl
  obtain ⟨start', hstart', hle⟩ := index_le (Nat.zero_le _) (by omega) hmarker
  rw [hstart] at hstart'
  cases hstart'
  have hnewlines : ['\n', '\n'] <+: text.drop ((terminated '\n' p).length + x.length) := by
    rw [htext, ← List.length_append, List.append_assoc, List.drop_left]
    exact List.prefix_append _ _
  obtain ⟨j', hj', hle'⟩ := index_le (hle.trans (Nat.add_le_add_left hux _)) (by omega) hnewlines
  rw [hj] at hj'
  cases hj'
  rw [List.length_append, List.length_append]
  exact Nat.add_le_add_right hle' 2

theorem of_bodySpan_eq (hblank : '\n' ∉ blank)
    (h : bodySpan (terminated '\n' (before ++ b :: hashes ++ [blank]) ++ (terminated '\n' lines ++ tail)) =
      some ((terminated '\n' (before ++ b :: hashes ++ [blank])).length,
        (terminated '\n' (before ++ b :: hashes ++ [blank])).length + (terminated '\n' lines).length)) :
    (∀ p l q, before = p ++ l :: q → startMarker <:+: l → [] ∉ q) ∧ blank = [] ∧ ∀ l ∈ lines, ¬ sigMarker <:+: l := by
  obtain ⟨start, j, hstart, hj, hend, hstop⟩ := bodySpan_eq_some h
  refine ⟨?_, ?_, ?_⟩
  · rintro p l q rfl ⟨u, v, rfl⟩ hempty
    obtain ⟨q₁, q₂, rfl⟩ := List.mem_iff_append.1 hempty
    have hhead : p ++ (u ++ startMarker ++ v) :: (q₁ ++ [] :: q₂) ++ b :: hashes ++ [blank] =
        (p ++ (u ++ startMarker ++ v) :: q₁ ++ [[]]) ++ (q₂ ++ b :: hashes ++ [blank]) := by simp
    rw [hhead, terminated_append _ (q₂ ++ b :: hashes ++ [blank])] at hstart hj hend
    have hle := index_newlines_le (List.append_assoc _ _ _) hstart hj
    have hpos : 0 < (terminated '\n' (q₂ ++ b :: hashes ++ [blank])).length := by
      rw [terminated_append, List.length_append]
      exact Nat.lt_of_lt_of_le (length_terminated_pos blank []) (Nat.le_add_left _ _)
    rw [← hend, List.length_append] at hle
    omega
  · rcases List.eq_nil_or_concat' blank with hnil | ⟨x, c, rfl⟩
    · exact hnil
    · have hhead : terminated '\n' (before ++ b :: hashes ++ [x ++ [c]]) =
          terminated '\n' (before ++ b :: hashes) ++ x ++ [c, '\n'] := by
        rw [terminated_append, List.append_assoc]
        simp [terminated]
      rw [hhead] at hj hend
      have hj' : j = (terminated '\n' (before ++ b :: hashes) ++ x).length := by
        rw [List.length_append] at hend
        exact (Nat.add_right_cancel hend).symm
      have hnewlines := (index_eq_some hj).2
      rw [hj', List.append_assoc, List.drop_left] at hnewlines
      exact absurd (List.mem_append_right x (List.mem_singleton.2 (List.cons_prefix_cons.1 hnewlines).1)) hblank
  · rintro l hl ⟨u, v, rfl⟩
    obtain ⟨p, q, rfl⟩ := List.mem_iff_append.1 hl
    generalize terminated '\n' (before ++ b :: hashes ++ [blank]) = head at hstop
    have hlt : (terminated '\n' p).length + u.length < (terminated '\n' (p ++ (u ++ sigMarker ++ v) :: q)).length := by
      rw [terminated_append, terminated_cons, List.length_append, List.length_append, List.length_append, List.length_append,
        List.length_cons]
      omega
    have hmarker : sigMarker <+: (head ++ (terminated '\n' (p ++ (u ++ sigMarker ++ v) :: q) ++ tail)).drop
        (head.length + ((terminated '\n' p).length + u.length)) := by
      rw [List.drop_length_add_append]
      exact prefix_drop_of_line u v p q tail
    obtain ⟨stop, hstop', hle⟩ := index_le (Nat.le_add_right _ _) (by
      rw [List.length_append, List.length_append]
      omega) hmarker
    rw [hstop] at hstop'
    cases hstop'
    omega

end Span

/-! ## Lines -/

section Lines

theorem withoutCr_cons {c : Char} {l : Str} (h : c = '\r' → l ≠ []) : withoutCr (c :: l) = c :: withoutCr l := by
  cases l with
  | nil =>
    have hc : c ≠ '\r' := fun hc => h hc rfl
    simp [withoutCr, hc]
  | cons x l =>
    unfold withoutCr
    rw [List.getLast?_cons_cons, List.dropLast_cons_cons]
    split <;> rfl

/-- **A line with no break of its own** is one line, without the carriage return at its end. -/
theorem splitlinesFrom_line : ∀ l line : Str, (∀ c ∈ withoutCr l, isLineBreak c = false) →
    splitlinesFrom line (l ++ ['\n']) = [line ++ withoutCr l]
  | [], line, _ => by
    rw [withoutCr, if_neg (by decide), List.append_nil]
    rfl
  | c :: l, line, hbreaks => by
    by_cases hcr : c = '\r' ∧ l = []
    · obtain ⟨rfl, rfl⟩ := hcr
      have hnil : withoutCr ['\r'] = [] := rfl
      rw [hnil]
      exact congrArg (fun x => [x]) (List.append_nil line).symm
    · rw [withoutCr_cons fun hc hl => hcr ⟨hc, hl⟩] at hbreaks ⊢
      obtain ⟨hc, hbreaks⟩ := List.forall_mem_cons.1 hbreaks
      have hne : c ≠ '\r' := by
        rintro rfl
        cases hc
      rw [List.cons_append, splitlinesFrom_cons line fun hc => absurd hc hne, hc, if_neg Bool.false_ne_true,
        splitlinesFrom_line l _ hbreaks, List.append_assoc]
      rfl

theorem length_splitlinesFrom_pos : ∀ l line : Str, 0 < (splitlinesFrom line (l ++ ['\n'])).length
  | [], _ => Nat.succ_pos _
  | c :: l, line => by
    by_cases hcr : c = '\r' ∧ (l ++ ['\n']).head? = some '\n'
    · obtain ⟨rfl, hhead⟩ := hcr
      cases l with
      | nil => exact Nat.succ_pos _
      | cons x l =>
        cases hhead
        exact Nat.succ_pos _
    · rw [List.cons_append, splitlinesFrom_cons line fun hc hd => hcr ⟨hc, hd⟩]
      split
      · exact Nat.succ_pos _
      · exact length_splitlinesFrom_pos l _

/-- **A line with a break of its own** is more than one line. -/
theorem two_le_length_splitlinesFrom : ∀ l line : Str, '\n' ∉ l → ¬ (∀ c ∈ withoutCr l, isLineBreak c = false) →
    2 ≤ (splitlinesFrom line (l ++ ['\n'])).length
  | [], _, _, h => absurd (by simp [withoutCr]) h
  | c :: l, line, hl, h => by
    obtain ⟨hc, hl⟩ := not_or.1 (mt List.mem_cons.2 hl)
    by_cases hcr : c = '\r' ∧ l = []
    · obtain ⟨rfl, rfl⟩ := hcr
      exact absurd (by simp [withoutCr]) h
    · rw [withoutCr_cons fun hc hl => hcr ⟨hc, hl⟩, List.forall_mem_cons] at h
      have hhead : c = '\r' → (l ++ ['\n']).head? ≠ some '\n' := by
        intro hc hd
        cases l with
        | nil => exact hcr ⟨hc, rfl⟩
        | cons x l =>
          cases hd
          exact hl List.mem_cons_self
      rw [List.cons_append, splitlinesFrom_cons line hhead]
      split
      · exact Nat.succ_le_succ (length_splitlinesFrom_pos l [])
      · rename_i hbreak
        exact two_le_length_splitlinesFrom l _ hl fun hbreaks => h ⟨Bool.eq_false_iff.2 hbreak, hbreaks⟩

theorem splitlines_terminated : ∀ lines : List Str,
    splitlines (terminated '\n' lines) = lines.flatMap fun l => splitlines (l ++ ['\n'])
  | [] => rfl
  | l :: lines => by
    rw [terminated_cons, splitlines, splitlinesFrom_append, splitlines_terminated lines, List.flatMap_cons]
    rfl

theorem isLineBreak_of_mem_splitlinesFrom : ∀ (s line : Str), (∀ c ∈ line, isLineBreak c = false) →
    ∀ l ∈ splitlinesFrom line s, ∀ c ∈ l, isLineBreak c = false := by
  intro s line hline
  fun_induction splitlinesFrom line s with
  | case1 => simp
  | case2 line hne => simpa using hline
  | case3 line s ih =>
    rintro l (_ | ⟨_, hl⟩)
    · exact hline
    · exact ih (by simp) l hl
  | case4 line c s hcr hbreak ih =>
    rintro l (_ | ⟨_, hl⟩)
    · exact hline
    · exact ih (by simp) l hl
  | case5 line c s hcr hbreak ih =>
    refine ih fun d hd => ?_
    rcases List.mem_append.1 hd with hd | hd
    · exact hline d hd
    · rw [List.mem_singleton.1 hd]
      exact Bool.eq_false_iff.2 hbreak

/-- A newline after lines without one is split off again. -/
theorem lfLines_joinNewline {lines : List Str} (h : ∀ l ∈ lines, '\n' ∉ l) :
    lfLines (joinNewline lines ++ ['\n']) = if lines = [] then [[]] else lines := by
  unfold lfLines joinNewline
  rw [List.getLast?_concat, if_pos rfl, List.dropLast_concat]
  split
  · rename_i hnil
    rw [hnil]
    rfl
  · rename_i hne
    exact List.splitOn_intercalate '\n' h hne

theorem terminated_eq_joinNewline : ∀ (l : Str) (lines : List Str),
    terminated '\n' (l :: lines) = joinNewline (l :: lines) ++ ['\n']
  | l, [] => by rw [terminated_cons, joinNewline, List.intercalate_singleton]; rfl
  | l, m :: lines => by
    rw [terminated_cons, terminated_eq_joinNewline m lines, joinNewline, joinNewline, List.intercalate_cons_cons,
      List.append_assoc, List.append_assoc]
    rfl

theorem lfLines_terminated {lines : List Str} (h : ∀ l ∈ lines, '\n' ∉ l) :
    lfLines (terminated '\n' lines) = if lines = [] then [[]] else lines := by
  cases lines with
  | nil => rfl
  | cons l lines => rw [terminated_eq_joinNewline, lfLines_joinNewline h]

/-- A text of lines without breaks has these lines for `splitlines` too. -/
theorem splitlines_joinNewline {lines : List Str} (h : ∀ l ∈ lines, ∀ c ∈ l, isLineBreak c = false) :
    splitlines (joinNewline lines ++ ['\n']) = lfLines (joinNewline lines ++ ['\n']) := by
  have hnewline : ∀ l ∈ lines, '\n' ∉ l := fun l hl hm => absurd (h l hl _ hm) (by decide)
  rw [lfLines_joinNewline hnewline]
  cases lines with
  | nil => rfl
  | cons l lines =>
    rw [← terminated_eq_joinNewline, splitlines_terminated, if_neg (List.cons_ne_nil l lines)]
    have hline : ∀ m ∈ l :: lines, splitlines (m ++ ['\n']) = [m] := by
      intro m hm
      have hcr : withoutCr m = m := by
        unfold withoutCr
        split
        · rename_i hlast
          exact absurd (h m hm _ (List.mem_of_getLast? hlast)) (by decide)
        · rfl
      have hsplit := splitlinesFrom_line m [] (by rw [hcr]; exact h m hm)
      rwa [hcr] at hsplit
    rw [List.flatMap_congr hline]
    simp

end Lines

/-! ## Trailing blanks -/

section Blanks

theorem trimmed_append_cr (s : Str) : trimmed (s ++ ['\r']) = trimmed s := by
  unfold trimmed
  rw [List.rdropWhile_concat_pos _ _ _ (by decide)]

/-- The carriage return of a line ending is a trailing blank, before and after the dash is unescaped. -/
theorem trimmed_undash_withoutCr (l : Str) : trimmed (undash (withoutCr l)) = trimmed (undash l) := by
  unfold withoutCr
  split
  · rename_i hlast
    obtain ⟨s, rfl⟩ := List.getLast?_eq_some_iff.1 hlast
    rw [List.dropLast_concat]
    have hundash : undash (s ++ ['\r']) = undash s ++ ['\r'] := by
      match s with
      | [] => rfl
      | [a] => simp [undash, startsWith, List.isPrefixOf]
      | a :: b :: s =>
        have hp : startsWith (a :: b :: s ++ ['\r']) "- ".toList = startsWith (a :: b :: s) "- ".toList := rfl
        unfold undash
        rw [hp]
        split <;> rfl
    rw [hundash, trimmed_append_cr]
  · rfl

theorem exists_trimmed_append (l : Str) : ∃ w, l = trimmed l ++ w ∧ ∀ c ∈ w, isSpace c = true := by
  refine ⟨l.rtakeWhile fun c => c == ' ' || c == '\t' || c == '\r', (List.rdropWhile_append_rtakeWhile ..).symm, fun c hc => ?_⟩
  have hblank := List.mem_rtakeWhile_imp hc
  rw [Bool.or_eq_true, Bool.or_eq_true, beq_iff_eq, beq_iff_eq, beq_iff_eq] at hblank
  rcases hblank with (rfl | rfl) | rfl <;> rfl

theorem splitBlank_append_space {w : Str} (hw : ∀ c ∈ w, isSpace c = true) (s : Str) : splitBlank (s ++ w) = splitBlank s := by
  induction w generalizing s with
  | nil => rw [List.append_nil]
  | cons c w ih =>
    obtain ⟨hc, hw⟩ := List.forall_mem_cons.1 hw
    have hrest : splitBlank w = [] := ih hw []
    unfold splitBlank at hrest ⊢
    rw [List.splitOnP_append_cons s w hc, List.filter_append, hrest, List.append_nil]

theorem strip_concat_space {c : Char} (hc : isSpace c = true) (s : Str) : strip (s ++ [c]) = strip s := by
  unfold strip
  rw [List.dropWhile_append]
  split
  · rename_i hempty
    rw [List.isEmpty_iff.1 hempty, List.dropWhile_cons_of_pos hc]
    rfl
  · rw [List.rdropWhile_concat_pos _ _ _ hc]

theorem strip_append_space {w : Str} (hw : ∀ c ∈ w, isSpace c = true) (s : Str) : strip (s ++ w) = strip s := by
  induction w generalizing s with
  | nil => rw [List.append_nil]
  | cons c w ih =>
    obtain ⟨hc, hw⟩ := List.forall_mem_cons.1 hw
    rw [List.append_cons, ih hw, strip_concat_space hc]

theorem splitBlank_eq_of_trimmed {l m : Str} (h : trimmed l = trimmed m) : splitBlank l = splitBlank m := by
  obtain ⟨v, hl, hv⟩ := exists_trimmed_append l
  obtain ⟨w, hm, hw⟩ := exists_trimmed_append m
  rw [hl, hm, splitBlank_append_space hv, splitBlank_append_space hw, h]

theorem strip_eq_of_trimmed {l m : Str} (h : trimmed l = trimmed m) : strip l = strip m := by
  obtain ⟨v, hl, hv⟩ := exists_trimmed_append l
  obtain ⟨w, hm, hw⟩ := exists_trimmed_append m
  rw [hl, hm, strip_append_space hv, strip_append_space hw, h]

end Blanks

/-! ## Digests -/

section Digests

theorem exists_of_sha256Entry {targetPath digest : Str} : ∀ (inSection : Bool) (lines : List Str),
    sha256Entry targetPath inSection lines = some digest →
    ∃ before entry after size, lines = before ++ entry :: after ∧
      (inSection = true ∨ ∃ l ∈ before, strip l = "SHA256:".toList) ∧ splitBlank entry = [digest, size, targetPath]
  | _, [], h => by cases h
  | inSection, line :: lines, h => by
    have later : ∀ inSection', sha256Entry targetPath inSection' lines = some digest →
        (inSection' = true → inSection = true ∨ strip line = "SHA256:".toList) →
        ∃ before entry after size, line :: lines = before ++ entry :: after ∧
          (inSection = true ∨ ∃ l ∈ before, strip l = "SHA256:".toList) ∧ splitBlank entry = [digest, size, targetPath] := by
      intro inSection' h' hsection
      obtain ⟨before, entry, after, size, rfl, hin, hentry⟩ := exists_of_sha256Entry inSection' lines h'
      refine ⟨line :: before, entry, after, size, rfl, ?_, hentry⟩
      rcases hin with hin | ⟨l, hl, hstrip⟩
      · exact (hsection hin).imp_right fun hstrip => ⟨line, List.mem_cons_self, hstrip⟩
      · exact .inr ⟨l, List.mem_cons_of_mem _ hl, hstrip⟩
    rw [sha256Entry] at h
    split at h
    · rename_i hstrip
      exact later true h fun _ => .inr hstrip
    split at h
    · exact later inSection h .inl
    split at h
    · cases h
    rename_i hsection _
    have hin : inSection = true := by simpa using hsection
    split at h
    · rename_i digest' size path hentry
      split at h
      · rename_i hpath
        cases h
        exact ⟨[], line, lines, size, rfl, .inl hin, by rw [hentry, hpath]⟩
      · exact later inSection h .inl
    · exact later inSection h .inl

theorem listed_of_sha256Entry {targetPath digest : Str} {lines : List Str}
    (h : sha256Entry targetPath false lines = some digest) : Listed lines digest targetPath := by
  obtain ⟨before, entry, after, size, hlines, hin, hentry⟩ := exists_of_sha256Entry false lines h
  exact ⟨before, entry, after, hlines, hin.resolve_left Bool.false_ne_true, size, hentry⟩

/-- What is listed is listed up to trailing blanks. -/
theorem Listed.of_trimmed {lines lines' : List Str} {digest targetPath : Str} (h : Listed lines digest targetPath)
    (htrimmed : lines.map trimmed = lines'.map trimmed) : Listed lines' digest targetPath := by
  obtain ⟨before, entry, after, rfl, ⟨l, hl, hstrip⟩, size, hentry⟩ := h
  rw [List.map_append, List.map_cons] at htrimmed
  obtain ⟨before', rest, rfl, hbefore, hrest⟩ := List.map_eq_append_iff.1 htrimmed.symm
  obtain ⟨entry', after', rfl, hentry', -⟩ := List.map_eq_cons_iff.1 hrest
  obtain ⟨l', hl', heq⟩ := List.mem_map.1 (hbefore ▸ List.mem_map_of_mem hl)
  exact ⟨before', entry', after', rfl, ⟨l', hl', by rw [strip_eq_of_trimmed heq, hstrip]⟩, size,
    by rw [splitBlank_eq_of_trimmed hentry', hentry]⟩

end Digests

/-! ## The result -/

section Result
variable {lines : List Str}

theorem length_le_splitlines : ∀ lines : List Str, lines.length ≤ (splitlines (terminated '\n' lines)).length
  | [] => Nat.zero_le _
  | l :: lines => by
    have ih := length_le_splitlines lines
    rw [splitlines_terminated] at ih ⊢
    rw [List.flatMap_cons, List.length_append, List.length_cons, Nat.add_comm]
    exact Nat.add_le_add (length_splitlinesFrom_pos l []) ih

/-- A break within a line adds a line. -/
theorem length_lt_splitlines (hlines : ∀ l ∈ lines, '\n' ∉ l) {l : Str} (hl : l ∈ lines)
    (h : ¬ ∀ c ∈ withoutCr l, isLineBreak c = false) : lines.length < (splitlines (terminated '\n' lines)).length := by
  obtain ⟨p, q, rfl⟩ := List.mem_iff_append.1 hl
  have hp := length_le_splitlines p
  have hq := length_le_splitlines q
  have htwo : 2 ≤ (splitlines (l ++ ['\n'])).length := two_le_length_splitlinesFrom l [] (hlines l hl) h
  rw [splitlines_terminated] at hp hq ⊢
  rw [List.flatMap_append, List.flatMap_cons, List.length_append, List.length_append, List.length_append, List.length_cons]
  omega

theorem isLineBreak_of_mem_undash (text : Str) {l : Str} (hl : l ∈ (splitlines text).map undash) :
    ∀ c ∈ l, isLineBreak c = false := by
  obtain ⟨m, hm, rfl⟩ := List.mem_map.1 hl
  intro c hc
  refine isLineBreak_of_mem_splitlinesFrom text [] (by simp) m hm c ?_
  unfold undash at hc
  split at hc
  · exact List.mem_of_mem_drop hc
  · exact hc

theorem utf8Bytes_injective : Function.Injective utf8Bytes := fun a b h => by
  rw [← decodeReplace_utf8Bytes a, h, decodeReplace_utf8Bytes]

/-- **The lines of the cleartext are returned** exactly when they have no breaks of their own. -/
theorem isSigned_iff (hlines : ∀ l ∈ lines, '\n' ∉ l) :
    IsSigned lines (.ok (utf8Bytes (joinNewline ((splitlines (terminated '\n' lines)).map undash) ++ ['\n']))) ↔
      ∀ l ∈ lines, ∀ c ∈ withoutCr l, isLineBreak c = false := by
  have hsplit := fun (l : Str) hl => isLineBreak_of_mem_undash (terminated '\n' lines) (l := l) hl
  have hnewline : ∀ l ∈ (splitlines (terminated '\n' lines)).map undash, '\n' ∉ l := fun l hl hm =>
    absurd (hsplit l hl _ hm) (by decide)
  constructor
  · rintro ⟨body, hbody, hsigned, -⟩ l hl
    by_contra hbreak
    have hlt := length_lt_splitlines hlines hl hbreak
    rw [← utf8Bytes_injective (Except.ok.inj hbody), signedLines, lfLines_joinNewline hnewline, lfLines_terminated hlines,
      if_neg (List.ne_nil_of_mem hl), if_neg (by
        rw [List.map_eq_nil_iff]
        exact List.ne_nil_of_length_pos (Nat.zero_lt_of_lt hlt))] at hsigned
    have hlength := congrArg List.length hsigned
    rw [List.length_map, List.length_map, List.length_map, List.length_map] at hlength
    omega
  · intro hbreaks
    have hcut : splitlines (terminated '\n' lines) = lines.map withoutCr := by
      have hline : ∀ l ∈ lines, splitlines (l ++ ['\n']) = [withoutCr l] := fun l hl => splitlinesFrom_line l [] (hbreaks l hl)
      rw [splitlines_terminated, List.flatMap_congr hline, List.map_eq_flatMap]
    have hsigned : (lfLines (joinNewline ((splitlines (terminated '\n' lines)).map undash) ++ ['\n'])).map trimmed =
        (signedLines lines).map trimmed := by
      rw [signedLines, lfLines_joinNewline hnewline, lfLines_terminated hlines, hcut]
      cases lines with
      | nil => rfl
      | cons l lines =>
        rw [if_neg (by simp), if_neg (List.cons_ne_nil l lines), List.map_map, List.map_map, List.map_map]
        exact List.map_congr_left fun m _ => trimmed_undash_withoutCr m
    refine ⟨_, rfl, hsigned, fun digest targetPath hfind => ?_⟩
    unfold findSha256InRelease at hfind
    rw [decodeReplace_utf8Bytes, splitlines_joinNewline hsplit] at hfind
    split at hfind
    · rename_i digest' hentry
      cases hfind
      exact (listed_of_sha256Entry hentry).of_trimmed hsigned
    · cases hfind

end Result

namespace Clearsigned
variable {m : Clearsigned} {lines : List Str} {gpgv : Bytes → GpgvRun} {signers : List (Str × Str)}

theorem decodeReplace_terminated (bs : Bytes) : ∀ ls : List Bytes,
    decodeReplace (terminated 10 ls ++ bs) = terminated '\n' (ls.map decodeReplace) ++ decodeReplace bs
  | [] => rfl
  | l :: ls => by
    have hcut := decodeReplace_cut (b := 10) (by decide) l (terminated 10 ls ++ bs)
    rw [terminated_cons, List.append_assoc, List.cons_append, hcut, decodeReplace_terminated bs ls, List.map_cons,
      terminated_cons, List.append_assoc]
    rfl

theorem file_decoded (hutf8 : m.cleartext = lines.map utf8Bytes) : decodeReplace m.file =
    terminated '\n' (m.before.map decodeReplace ++ (startMarker ++ decodeReplace m.beginBlank) :: m.hashes.map decodeReplace ++
      [decodeReplace m.blank]) ++ (terminated '\n' lines ++ decodeReplace ([10].intercalate m.tail)) := by
  have hlines : (lines.map utf8Bytes).map decodeReplace = lines := by
    have hid : decodeReplace ∘ utf8Bytes = id := funext decodeReplace_utf8Bytes
    rw [List.map_map, hid, List.map_id]
  rw [file, decodeReplace_terminated, List.map_append, terminated_append, List.append_assoc, hutf8, hlines, head,
    List.map_append, List.map_append, List.map_cons, decodeReplace_utf8Bytes_append]
  rfl

theorem newline_not_mem_lines (hutf8 : m.cleartext = lines.map utf8Bytes) : ∀ l ∈ lines, '\n' ∉ l := by
  intro l hl
  rw [← decodeReplace_utf8Bytes l]
  refine newline_not_mem_decodeReplace (m.lines _ ?_)
  simp only [List.mem_append, hutf8]
  exact .inl (.inl (.inr (List.mem_map_of_mem hl)))

theorem newline_not_mem_blank {w : Bytes} (h : ∀ b ∈ w, IsArmorBlank b) : '\n' ∉ decodeReplace w :=
  newline_not_mem_decodeReplace fun hm => by
    rcases h _ hm with h | h | h <;> cases h

theorem sigMarker_le_tail (m : Clearsigned) : sigMarker <+: decodeReplace ([10].intercalate m.tail) := by
  have htail : [10].intercalate m.tail = utf8Bytes sigMarker ++ (m.signatureBlank ++ ([10] ++ [10].intercalate (m.signature ++
      (utf8Bytes "-----END PGP SIGNATURE-----".toList ++ m.endBlank) :: m.after))) := by
    unfold tail
    cases m.signature <;> simp [List.intercalate_cons_cons]
  rw [htail, decodeReplace_utf8Bytes_append]
  exact List.prefix_append _ _

theorem offset_eq (m : Clearsigned) : m.offset = (terminated '\n' (m.before.map decodeReplace ++
    (startMarker ++ decodeReplace m.beginBlank) :: m.hashes.map decodeReplace ++ [decodeReplace m.blank])).length := by
  have h := decodeReplace_terminated [] m.head
  rw [List.append_nil, decodeReplace, List.append_nil] at h
  rw [offset, h, head, List.map_append, List.map_append, List.map_cons, decodeReplace_utf8Bytes_append]
  rfl

theorem hashes_ne_nil (m : Clearsigned) : ∀ l ∈ m.hashes.map decodeReplace, l ≠ [] := by
  intro l hl hnil
  obtain ⟨h, hh, rfl⟩ := List.mem_map.1 hl
  have hp := m.hash h hh
  rw [decodeReplace_eq_nil hnil] at hp
  exact absurd (List.prefix_nil.1 hp) (by decide)

theorem newline_not_mem_head (m : Clearsigned) : ∀ l ∈ m.before.map decodeReplace ++
    (startMarker ++ decodeReplace m.beginBlank) :: m.hashes.map decodeReplace, '\n' ∉ l := by
  intro l hl
  have hfield : ∀ h ∈ m.before ++ m.hashes, '\n' ∉ decodeReplace h := fun h hh =>
    newline_not_mem_decodeReplace (m.lines h (by
      simp only [List.mem_append] at hh ⊢
      exact hh.elim (fun hb => .inl (.inl (.inl (.inl hb)))) fun hh => .inl (.inl (.inl (.inr hh)))))
  rcases List.mem_append.1 hl with hl | hl
  · obtain ⟨h, hh, rfl⟩ := List.mem_map.1 hl
    exact hfield h (List.mem_append_left _ hh)
  · rcases List.mem_cons.1 hl with rfl | hl
    · exact fun hm => (List.mem_append.1 hm).elim newline_not_mem_startMarker
        (newline_not_mem_blank fun b hb => m.blanks b (by simp [hb]))
    · obtain ⟨h, hh, rfl⟩ := List.mem_map.1 hl
      exact hfield h (List.mem_append_right _ hh)

/-- **The program reads the body where it is** exactly when no marker is misread. -/
theorem bodySpan_iff (hutf8 : m.cleartext = lines.map utf8Bytes) :
    bodySpan (decodeReplace m.file) = some (m.offset, m.offset + (terminated '\n' lines).length) ↔
      (∀ p l q, m.before = p ++ l :: q → startMarker <:+: decodeReplace l → [] ∉ q) ∧ m.blank = [] ∧
        ∀ l ∈ lines, ¬ sigMarker <:+: l := by
  rw [file_decoded hutf8, offset_eq]
  constructor
  · intro h
    obtain ⟨hdecoys, hblank, hmarkers⟩ :=
      of_bodySpan_eq (newline_not_mem_blank fun b hb => m.blanks b (by simp [hb])) h
    refine ⟨fun p l q hbefore hl hq => ?_, decodeReplace_eq_nil hblank, hmarkers⟩
    refine hdecoys (p.map decodeReplace) (decodeReplace l) (q.map decodeReplace) (by rw [hbefore]; simp) hl ?_
    rw [← show decodeReplace [] = [] by rw [decodeReplace]]
    exact List.mem_map_of_mem hq
  · rintro ⟨hdecoys, hblank, hmarkers⟩
    rw [hblank, show decodeReplace [] = [] by rw [decodeReplace]]
    refine bodySpan_eq (List.prefix_append _ _) m.newline_not_mem_head m.hashes_ne_nil m.sigMarker_le_tail ?_ hmarkers
    intro p l q hbefore hl hq
    obtain ⟨p, rest, hm, rfl, hrest⟩ := List.map_eq_append_iff.1 hbefore
    obtain ⟨l, q, rfl, rfl, rfl⟩ := List.map_eq_cons_iff.1 hrest
    obtain ⟨e, he, hnil⟩ := List.mem_map.1 hq
    rw [decodeReplace_eq_nil hnil] at he
    exact hdecoys p l q hm hl he

/-- **The signed body is returned** exactly when the file gives the two readings no room to differ. -/
theorem verifyClearsigned_iff (hutf8 : m.cleartext = lines.map utf8Bytes) (haccepts : runGpgv gpgv m.file = .ok signers) :
    IsSigned lines (verifyClearsigned gpgv m.file) ∧
        bodySpan (decodeReplace m.file) = some (m.offset, m.offset + (terminated '\n' lines).length) ↔
      OneReading m lines := by
  have hverify : verifyClearsigned gpgv m.file = extractClearsignedBody m.file := by
    rw [verifyClearsigned, haccepts]
    rfl
  have hextract : bodySpan (decodeReplace m.file) = some (m.offset, m.offset + (terminated '\n' lines).length) →
      extractClearsignedBody m.file =
        .ok (utf8Bytes (joinNewline ((splitlines (terminated '\n' lines)).map undash) ++ ['\n'])) := by
    intro hspan
    unfold extractClearsignedBody
    dsimp only
    rw [hspan]
    dsimp only
    rw [file_decoded hutf8, offset_eq, List.take_length_add_append, List.drop_left, List.take_left]
  have hnewline := newline_not_mem_lines hutf8
  rw [hverify]
  constructor
  · rintro ⟨hsigned, hspan⟩
    obtain ⟨hdecoys, hblank, hmarkers⟩ := (bodySpan_iff hutf8).1 hspan
    rw [hextract hspan] at hsigned
    exact ⟨hdecoys, hblank, hmarkers, (isSigned_iff hnewline).1 hsigned⟩
  · rintro ⟨hdecoys, hblank, hmarkers, hbreaks⟩
    have hspan := (bodySpan_iff hutf8).2 ⟨hdecoys, hblank, hmarkers⟩
    exact ⟨by rw [hextract hspan]; exact (isSigned_iff hnewline).2 hbreaks, hspan⟩

def releaseLines : List Str := ["SHA256:".toList, " aa 9 main/Packages".toList]

/-- An Ed25519 signature of these lines. -/
def releaseSignature : List Str :=
  ["".toList, "iHUEARYIAB0WIQTCemLGnXlYi5m8QTtu8AItBfi6zgUCZZN9JQAKCRBu8AItBfi6".toList,
    "zqsxAP9mxZZOYyMRtGtZHSezs1ghsCrwFudz1q6vuksnKVhr6QD9Hj4MLREp6B+T".toList,
    "eon2I0h52nNl72Ycqm8yeO7P2UoYfQM=".toList, "=O+jr".toList]

/-- A signed Release with the given lines before it. -/
def release (before : List Bytes) (lines : ∀ l ∈ before, (10 : UInt8) ∉ l)
    (single : ∀ l ∈ before, ¬ utf8Bytes startMarker <+: l) : Clearsigned where
  before := before
  beginBlank := []
  hashes := [utf8Bytes "Hash: SHA256".toList]
  blank := []
  cleartext := releaseLines.map utf8Bytes
  signatureBlank := []
  signature := releaseSignature.map utf8Bytes
  endBlank := []
  after := [[]]
  lines l hl := by
    rw [List.append_assoc, List.append_assoc, List.append_assoc] at hl
    rcases List.mem_append.1 hl with hl | hl
    · exact lines l hl
    · have hrest : ∀ l ∈ [utf8Bytes "Hash: SHA256".toList] ++ (releaseLines.map utf8Bytes ++
          (releaseSignature.map utf8Bytes ++ [[]])), (10 : UInt8) ∉ l := by decide +kernel
      exact hrest l hl
  blanks b hb := by cases hb
  single l hl w hw := by
    rcases List.mem_append.1 hl with hl | hl
    · exact absurd (hw ▸ List.prefix_append _ _) (single l hl)
    · rw [List.mem_singleton.1 hl] at hw
      cases hw
  hash := by decide +kernel
  escaped := by decide +kernel
  armored := by decide +kernel

def releaseKey : Str := "C27A62C69D79588B99BC413B6EF0022D05F8BACE".toList

/-- What gpgv prints of that signature. -/
def validSig : GpgvRun := .finished 0 ("[GNUPG:] NEWSIG\n[GNUPG:] KEY_CONSIDERED ".toList ++ releaseKey ++
  " 0\n[GNUPG:] SIG_ID w8bWrT/IKP4mQv/FF4tk/nVYUyU 2024-01-02 1704164645\n".toList ++
  "[GNUPG:] GOODSIG 6EF0022D05F8BACE archive\n[GNUPG:] VALIDSIG ".toList ++ releaseKey ++
  " 2024-01-02 1704164645 0 4 0 22 8 01 ".toList ++ releaseKey ++ ['\n']) []

def noData : GpgvRun := .finished 2 "[GNUPG:] NODATA 1\n".toList "gpgv: no signature found".toList

theorem runGpgv_validSig {data : Bytes} (h : gpgv data = validSig) :
    runGpgv gpgv data = .ok [(releaseKey, releaseKey)] := by
  unfold runGpgv
  rw [h]
  decide +kernel

theorem runGpgv_noData {data : Bytes} (h : gpgv data = noData) : (runGpgv gpgv data).isOk = false := by
  unfold runGpgv
  rw [h]
  decide +kernel

def plainRelease : Clearsigned := release [] (by simp) (by simp)

/-- gpgv with this key alone, on this file. -/
def releaseGpgv (data : Bytes) : GpgvRun := if data = plainRelease.file then validSig else noData

theorem verifyClearsigned_release : IsSigned releaseLines (verifyClearsigned releaseGpgv plainRelease.file) ∧
    bodySpan (decodeReplace plainRelease.file) =
      some (plainRelease.offset, plainRelease.offset + (terminated '\n' releaseLines).length) := by
  have hdash : ∀ l ∈ releaseLines, '-' ∉ l := by decide +kernel
  have hbreaks : releaseLines.all (fun l => (withoutCr l).all fun c => !isLineBreak c) = true := by decide +kernel
  refine (verifyClearsigned_iff rfl (runGpgv_validSig (if_pos rfl))).2
    ⟨fun p l q h => ?_, rfl, fun l hl hmarker => hdash l hl (hmarker.subset (by decide)), fun l hl c hc => ?_⟩
  swap
  · simpa using List.all_eq_true.1 (List.all_eq_true.1 hbreaks l hl) c hc
  have hlength := congrArg List.length h
  simp [plainRelease, release] at hlength

/-- The lines of a decoy: both markers within a line, and the attacker's digest between them. -/
def decoy : List Str := ['x' :: startMarker, [], "SHA256:".toList, " ff 9 main/Packages".toList, 'x' :: sigMarker]

def decoyRelease : Clearsigned := release (decoy.map utf8Bytes) (by decide +kernel) (by decide +kernel)

/-- The text of the decoy and the message. -/
def decoyText : Str := terminated '\n' (decoy ++ [startMarker, "Hash: SHA256".toList, []] ++ releaseLines ++
  sigMarker :: releaseSignature ++ ["-----END PGP SIGNATURE-----".toList])

theorem extractClearsignedBody_decoyRelease :
    extractClearsignedBody decoyRelease.file = .ok (utf8Bytes "SHA256:\n ff 9 main/Packages\nx\n".toList) := by
  have hfile : decoyRelease.file = utf8Bytes decoyText := by decide +kernel
  unfold extractClearsignedBody
  rw [hfile, decodeReplace_utf8Bytes]
  decide +kernel

/-- A decoy before the message is returned in its place. -/
theorem decoy_returned : ¬ ∀ (covers : List Bytes → List Bytes → Prop) (gpgv : Bytes → GpgvRun),
    (∀ data, (∃ signers, runGpgv gpgv data = .ok signers) ↔
      ∃ m : Clearsigned, m.file = data ∧ covers m.cleartext m.signature) →
    ∀ (m : Clearsigned) (lines : List Str), m.cleartext = lines.map utf8Bytes → covers m.cleartext m.signature →
      IsSigned lines (verifyClearsigned gpgv m.file) := by
  classical
  intro h
  -- the one signature that there is covers the one cleartext
  obtain ⟨covers, hcovers⟩ : ∃ covers : List Bytes → List Bytes → Prop, ∀ cleartext signature,
      covers cleartext signature ↔ cleartext = releaseLines.map utf8Bytes ∧
        signature = releaseSignature.map utf8Bytes := ⟨_, fun _ _ => Iff.rfl⟩
  obtain ⟨gpgv, hgpgv⟩ : ∃ gpgv : Bytes → GpgvRun, ∀ data, gpgv data =
      if ∃ m : Clearsigned, m.file = data ∧ covers m.cleartext m.signature then validSig else noData :=
    ⟨_, fun _ => rfl⟩
  have haccepts : ∀ data, (∃ signers, runGpgv gpgv data = .ok signers) ↔
      ∃ m : Clearsigned, m.file = data ∧ covers m.cleartext m.signature := by
    intro data
    by_cases hdata : ∃ m : Clearsigned, m.file = data ∧ covers m.cleartext m.signature
    · exact iff_of_true ⟨_, runGpgv_validSig ((hgpgv data).trans (if_pos hdata))⟩ hdata
    · refine iff_of_false ?_ hdata
      rintro ⟨signers, hsigners⟩
      have hok := runGpgv_noData ((hgpgv data).trans (if_neg hdata))
      rw [hsigners] at hok
      cases hok
  have hcovered : covers decoyRelease.cleartext decoyRelease.signature := (hcovers _ _).2 ⟨rfl, rfl⟩
  obtain ⟨body, hbody, hlines, -⟩ := h covers gpgv haccepts decoyRelease releaseLines rfl hcovered
  rw [verifyClearsigned, runGpgv_validSig ((hgpgv _).trans (if_pos ⟨decoyRelease, rfl, hcovered⟩))] at hbody
  have hextract : extractClearsignedBody decoyRelease.file = .ok (utf8Bytes body) := hbody
  rw [extractClearsignedBody_decoyRelease] at hextract
  rw [← utf8Bytes_injective (Except.ok.inj hextract)] at hlines
  exact absurd hlines (by decide +kernel)

end Clearsigned

end RepoWatch
