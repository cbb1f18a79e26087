import RepoWatch.Parsers
/-!
# ApkIndex — APKINDEX.tar.gz, verified and read

A signed index is two gzip members: a tar archive with the signature, and one with the index.  Verification hands on the second
member alone; without it both are read as one archive.  The two readings agree where the first archive is one plain entry
(`parse_payload`), as abuild-sign leaves it.
-/
namespace RepoWatch
namespace Apk

open Lib Lib.Utf8

/-! ## Records -/

/-- The variables of the loop over the lines. -/
structure Records where
  packages : List PackageRef := []
  name : Option Str := none
  version : Option Str := none

namespace Records
variable (r : Records)

/-- The packages with the current one if it is complete. -/
def save : List PackageRef :=
  match r.name, r.version with
  | some name, some version =>
    if name ≠ [] ∧ version ≠ [] then
      r.packages ++ [{ name := name, version := version, filename := some (name ++ '-' :: version ++ ".apk".toList) }]
    else r.packages
  | _, _ => r.packages

def readLine (line : Str) : Records :=
  if line = [] then { packages := r.save }
  else if startsWith line "P:".toList then { r with name := some (line.drop 2) }
  else if startsWith line "V:".toList then { r with version := some (line.drop 2) }
  else r

end Records

def parseRecords (text : Str) : List PackageRef := ((splitlines text).foldl Records.readLine {}).save

def apkindex : Bytes := utf8Bytes "APKINDEX".toList

/-! ## Signatures -/

/-- The character of a key's name. -/
def isKeyChar (c : Char) : Bool := c.isAlphanum || ['_', '@', '+', '.', '-'].contains c

/-- The name of a signature's member: whether the digest is SHA-1, and the name of the key. -/
def signatureKey (name : Str) : Option (Bool × Str) :=
  let sha1 := startsWith name ".SIGN.RSA.".toList
  let key := name.drop (if sha1 then 10 else 13)
  if (sha1 || startsWith name ".SIGN.RSA256.".toList) ∧ key ≠ [] ∧ key.all isKeyChar then some (sha1, key) else none

/-- `isfile`. -/
def isFile (m : Tar.Member) : Bool := ([48, 0, 55, 83] : List UInt8).contains m.type

/-- An error of the archive, as `verify_index` wraps it. -/
def envelopeError : Tar.TarError → FetchError
  | .readError message => .signature (.message ("APKINDEX: invalid signature envelope: ".toList ++ message))
  | e => .tar e

/-- `_run`: the output of a program that has succeeded. -/
def toolOutput (program : String) : ToolRun → Except FetchError Str
  | .failed error => raiseSignature ("APKINDEX: cannot run ".toList ++ program.toList ++ ": ".toList ++ error)
  | .finished returncode stdout stderr =>
    if returncode ≠ 0 then
      raiseSignature ("APKINDEX: ".toList ++ program.toList ++ " verification failed: ".toList ++
        stderr.drop (stderr.length - 2000))
    else .ok stdout

/-- The first number of `apk-tools\s+(\d+)\.(\d+)` at the start of a text. -/
def versionAt (s : Str) : Option Str :=
  let rest := s.drop 9
  let number := rest.dropWhile isSpace
  let digits := number.takeWhile fun c => (digitValue c).isSome
  if startsWith s "apk-tools".toList ∧ (rest.head?.any isSpace) = true ∧ digits ≠ [] then
    match number.drop digits.length with
    | '.' :: c :: _ => if (digitValue c).isSome then some digits else none
    | _ => none
  else none

section
variable (lib : Library) (host : Host)

/-- `_parse_apkindex_tar_gz`. -/
def parseApkindexTarGz (raw : Bytes) : Except FetchError (List PackageRef) := do
  let members ← raising .tar (lib.gzipMembers raw)
  let extracted ← raising .tar (lib.readMember members apkindex)
  match extracted with
  | none => return []
  | some content => return parseRecords (decodeReplace content)

/-- `_member`: the content of the first gzip member, and what follows it. -/
def gzipMember (raw : Bytes) (limit : Nat) : Except FetchError (Bytes × Bytes) :=
  match lib.inflate raw (limit + 1) with
  | none => raiseSignature "APKINDEX: malformed gzip member".toList
  | some ⟨content, some unused⟩ =>
    if limit < content.length then raiseSignature "APKINDEX: truncated or oversized gzip member".toList
    else .ok (content, unused)
  | some ⟨_, none⟩ => raiseSignature "APKINDEX: truncated or oversized gzip member".toList

/-- The digest, the key and the signature of a signature's archive. -/
def signatureOf (signatureTar : Bytes) : Except FetchError (Bool × Str × Bytes) := do
  let members ← raising envelopeError (lib.membersOf signatureTar)
  match members with
  | [m] =>
    if !isFile m then raiseSignature "APKINDEX: expected one signature".toList
    else match signatureKey (decodeReplace m.name) with
      | none => raiseSignature "APKINDEX: unsupported signature or key name".toList
      | some (sha1, key) =>
        if key = ['.'] ∨ key = ['.', '.'] ∨ 16384 < m.content.length then
          raiseSignature "APKINDEX: unsupported signature or key name".toList
        else return (sha1, key, m.content)
  | _ => raiseSignature "APKINDEX: expected one signature".toList

/-- The signature is checked by one of the two backends. -/
def checkSignature (backend : Str) (raw payload : Bytes) (sha1 : Bool) (key signature : Bytes) : Except FetchError Unit := do
  if backend = "openssl".toList then
    let _ ← toolOutput "openssl" (host.openssl sha1 key signature payload)
    return ()
  else if backend = "apk-tools".toList then
    let version ← toolOutput "apk" host.apkVersion
    match version.tails.findSome? versionAt with
    | none => raiseSignature "APKINDEX: apk-tools >= 3.0 required for index verification".toList
    | some number =>
      let number ← intOf number
      if number < 3 then raiseSignature "APKINDEX: apk-tools >= 3.0 required for index verification".toList
      else
        let _ ← toolOutput "apk" (host.apkVerify key raw)
        return ()
  else raiseSignature "APKINDEX: unknown verification backend".toList

/-- `verify_index`. -/
def verifyIndex (raw : Bytes) (keysDir backend : Str) : Except FetchError Bytes := do
  let (signatureTar, payload) ← gzipMember lib raw (1024 * 1024)
  if payload = [] then raiseSignature "APKINDEX: signature member missing".toList
  else
    let (_, trailing) ← gzipMember lib payload (256 * 1024 * 1024)
    if trailing ≠ [] then raiseSignature "APKINDEX: unexpected trailing gzip member/data".toList
    else
      let (sha1, name, signature) ← signatureOf lib signatureTar
      match host.apkKey keysDir name with
      | none => raiseSignature ("APKINDEX: trusted key missing: ".toList ++ name)
      | some key =>
        let _ ← checkSignature host backend raw payload sha1 key signature
        return payload

/-! ## The parser -/

def indexUrl (repo : RepoFields) : Str := repo.upstream ++ '/' :: repo.arch ++ "/APKINDEX.tar.gz".toList

/-- The index that is parsed: the verified member, or all that was sent. -/
def trustedIndex (repo : RepoFields) (raw : Bytes) : Except FetchError Bytes :=
  if repo.verifySignature then verifyIndex lib host raw (repo.apkKeysDir.getD []) repo.apkSignatureBackend else .ok raw

/-- `ApkParser.fetch_packages`. -/
def fetchPackages (up : Upstream) (repo : RepoFields) : Except FetchError (List PackageRef) := do
  let raw ← httpGet up (indexUrl repo)
  let index ← trustedIndex lib host repo raw
  parseApkindexTarGz lib index

end

/-! ## Two readings of one index -/

/-- The documented agreement of the two gzip decoders: whole members that zlib has inflated are what a `GzipFile` reads. -/
structure GzipAgrees (lib : Library) : Prop where
  single : ∀ {raw content : Bytes} {n : Nat}, lib.inflate raw n = some ⟨content, some []⟩ →
    lib.gunzipped raw = content ∧ (lib.gunzip raw).damage = none
  double : ∀ {raw rest front back : Bytes} {n m : Nat}, lib.inflate raw n = some ⟨front, some rest⟩ →
    lib.inflate rest m = some ⟨back, some []⟩ → lib.gunzipped raw = front ++ back ∧ (lib.gunzip raw).damage = none

/-- The archive in front of an index is one plain entry. -/
def PlainSignature (lib : Library) (raw : Bytes) : Prop :=
  ∀ d, lib.inflate raw (1024 * 1024 + 1) = some d → Tar.isEntry d.content = true

section
variable {lib : Library} {host host' : Host} {up : Upstream} {raw payload : Bytes} {packages packages' : List PackageRef}

theorem gzipMember_ok {limit : Nat} {content unused : Bytes} (h : gzipMember lib raw limit = .ok (content, unused)) :
    lib.inflate raw (limit + 1) = some ⟨content, some unused⟩ := by
  unfold gzipMember at h
  split at h
  · cases h
  · rename_i hinflate
    split at h
    · cases h
    · cases h
      exact hinflate
  · cases h

theorem signatureOf_ok {signatureTar : Bytes} {r : Bool × Str × Bytes} (h : signatureOf lib signatureTar = .ok r) :
    ∃ m : Tar.Member, lib.membersOf signatureTar = .ok [m] ∧ m.name ≠ apkindex := by
  unfold signatureOf at h
  obtain ⟨members, hmembers, h⟩ := bind_eq_ok.1 h
  rw [raising_eq_ok] at hmembers
  split at h
  · rename_i m
    refine ⟨m, hmembers, fun hname => ?_⟩
    have hkey : signatureKey "APKINDEX".toList = none := by decide
    rw [hname, apkindex, decodeReplace_utf8Bytes, hkey] at h
    split at h <;> cases h
  · cases h

/-- What verification has established, whatever the keys and the programs. -/
theorem verifyIndex_ok {keysDir backend : Str} (h : verifyIndex lib host raw keysDir backend = .ok payload) :
    ∃ front back, lib.inflate raw (1024 * 1024 + 1) = some ⟨front, some payload⟩ ∧
      lib.inflate payload (256 * 1024 * 1024 + 1) = some ⟨back, some []⟩ ∧
      ∃ m : Tar.Member, lib.membersOf front = .ok [m] ∧ m.name ≠ apkindex := by
  unfold verifyIndex at h
  obtain ⟨⟨front, payload'⟩, hfront, h⟩ := bind_eq_ok.1 h
  dsimp only at h
  split at h
  · cases h
  · obtain ⟨⟨back, trailing⟩, hback, h⟩ := bind_eq_ok.1 h
    dsimp only at h
    split at h
    · cases h
    · rename_i htrailing
      obtain rfl : trailing = [] := not_not.1 htrailing
      obtain ⟨⟨sha1, name, signature⟩, hsignature, h⟩ := bind_eq_ok.1 h
      dsimp only at h
      split at h
      · cases h
      · obtain ⟨-, -, h⟩ := bind_eq_ok.1 h
        cases h
        exact ⟨front, back, gzipMember_ok hfront, gzipMember_ok hback, signatureOf_ok hsignature⟩

/-- **An index behind a plain entry** is read from both members as from the second. -/
theorem parse_payload (hgzip : GzipAgrees lib) {front back : Bytes} {n n' : Nat} {m : Tar.Member}
    (hfront : lib.inflate raw n = some ⟨front, some payload⟩) (hback : lib.inflate payload n' = some ⟨back, some []⟩)
    (hentry : Tar.isEntry front = true) (hmember : lib.membersOf front = .ok [m]) (hname : m.name ≠ apkindex)
    (h : parseApkindexTarGz lib payload = .ok packages) : parseApkindexTarGz lib raw = .ok packages := by
  unfold parseApkindexTarGz at h ⊢
  obtain ⟨members, hmembers, h⟩ := bind_eq_ok.1 h
  obtain ⟨extracted, hextracted, h⟩ := bind_eq_ok.1 h
  rw [raising_eq_ok] at hmembers hextracted
  obtain ⟨hcontent, hdamage⟩ := hgzip.single hback
  obtain ⟨hcontent', hdamage'⟩ := hgzip.double hfront hback
  unfold Library.gzipMembers at hmembers
  rw [hcontent, hdamage] at hmembers
  obtain ⟨first, hall, hfirst⟩ := Tar.getmembers_append hentry hmembers
  obtain rfl : m = first := List.cons.inj (hfirst hmember) |>.1
  have hmembers' : lib.gzipMembers raw = .ok (m :: members) := by
    unfold Library.gzipMembers
    rw [hcontent', hdamage']
    exact hall
  have hextracted' : lib.readMember (m :: members) apkindex = .ok extracted := by
    unfold Library.readMember at hextracted ⊢
    rw [List.findIdx?_cons, if_neg (by simpa using hname)]
    cases hfind : members.findIdx? fun m => m.name == apkindex with
    | none =>
      rw [hfind] at hextracted
      exact hextracted
    | some i =>
      rw [hfind] at hextracted
      exact Tar.extractfile_cons m hextracted
  exact bind_eq_ok.2 ⟨_, raising_eq_ok.2 hmembers', bind_eq_ok.2 ⟨extracted, raising_eq_ok.2 hextracted', h⟩⟩

/-- What a fetch parses. -/
theorem fetchPackages_ok {repo : RepoFields} (h : fetchPackages lib host up repo = .ok packages) :
    ∃ raw index, up.get (indexUrl repo) = .body raw ∧ parseApkindexTarGz lib index = .ok packages ∧
      if repo.verifySignature then verifyIndex lib host raw (repo.apkKeysDir.getD []) repo.apkSignatureBackend = .ok index
      else index = raw := by
  unfold fetchPackages at h
  obtain ⟨raw, hraw, h⟩ := bind_eq_ok.1 h
  obtain ⟨index, hindex, h⟩ := bind_eq_ok.1 h
  refine ⟨raw, index, httpGet_eq_ok.1 hraw, h, ?_⟩
  unfold trustedIndex at hindex
  split at hindex
  · rename_i hverify
    rw [if_pos hverify]
    exact hindex
  · rename_i hverify
    rw [if_neg hverify]
    cases hindex
    rfl

/-- **Two fetches of one index** give the same packages; where only one verifies, the archive in front must be plain. -/
theorem fetchPackages_agree (hgzip : GzipAgrees lib) {a b : RepoFields} (hurl : indexUrl a = indexUrl b)
    (hplain : a.verifySignature ≠ b.verifySignature → ∀ raw, up.get (indexUrl a) = .body raw → PlainSignature lib raw) :
    Agree (fetchPackages lib host up a) (fetchPackages lib host' up b) := by
  intro packages packages' ha hb
  obtain ⟨raw, index, hraw, hparse, hindex⟩ := fetchPackages_ok ha
  obtain ⟨raw', index', hraw', hparse', hindex'⟩ := fetchPackages_ok hb
  rw [← hurl, hraw] at hraw'
  cases hraw'
  cases hva : a.verifySignature <;> cases hvb : b.verifySignature <;> rw [hva] at hindex <;> rw [hvb] at hindex'
  case false.false =>
    obtain rfl : index = raw := hindex
    obtain rfl : index' = index := hindex'
    exact Agree.refl _ hparse hparse'
  case true.true =>
    obtain ⟨front, back, hfront, -⟩ := verifyIndex_ok hindex
    obtain ⟨front', back', hfront', -⟩ := verifyIndex_ok hindex'
    rw [hfront] at hfront'
    cases hfront'
    exact Agree.refl _ hparse hparse'
  case true.false =>
    obtain ⟨front, back, hfront, hback, m, hmember, hname⟩ := verifyIndex_ok hindex
    obtain rfl : index' = raw := hindex'
    have hentry := hplain (by rw [hva, hvb]; decide) index' hraw _ hfront
    exact Agree.refl _ (parse_payload hgzip hfront hback hentry hmember hname hparse) hparse'
  case false.true =>
    obtain ⟨front, back, hfront, hback, m, hmember, hname⟩ := verifyIndex_ok hindex'
    obtain rfl : index = raw := hindex
    have hentry := hplain (by rw [hva, hvb]; decide) index hraw _ hfront
    exact Agree.refl _ hparse (parse_payload hgzip hfront hback hentry hmember hname hparse')

end

end Apk
end RepoWatch
