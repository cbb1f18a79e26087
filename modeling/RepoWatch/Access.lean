import Mathlib.Algebra.Order.Ring.Rat
import RepoWatch.Lib.Table
import RepoWatch.Text
/-!
# Access — administrator sessions and host tokens

Secrets are stored by their digest.  A token grants access as long as it is neither revoked nor expired, and may name the
repositories it is for (`tokenAccess_eq_some`).
-/
namespace RepoWatch

open Lib

/-- A row of `admin_sessions`. -/
structure AdminSessionRow where
  secretHash : Str
  passwordFingerprint : Str
  expiresAt : Rat
  secure : Bool
  deriving DecidableEq

/-- A row of `host_tokens`. -/
structure HostToken where
  id : Str
  name : Str
  secretHash : Str
  createdAt : Rat
  expiresAt : Option Rat
  lastUsedAt : Option Rat
  revokedAt : Option Rat
  repoIds : Option (List Str)
  deriving DecidableEq

/-- The token is neither revoked nor expired. -/
def HostToken.Live (token : HostToken) (now : Rat) : Prop :=
  token.revokedAt = none ∧ ∀ e, token.expiresAt = some e → now < e

structure AdminSession where
  passwordFingerprint : Str
  csrf : Str
  expiresAt : Rat
  deriving DecidableEq

structure AccessStore where
  sessions : Table AdminSessionRow Str AdminSessionRow.secretHash
  tokens : Table HostToken Str HostToken.id
  secretsNodup : (tokens.rows.map HostToken.secretHash).Nodup

/-- `auth`'s SHA-256 of a secret and the HMAC that is its CSRF token. -/
structure Hashes where
  digest : Str → Str
  csrfFor : Str → Str

/-- The hashes of the texts that the tables list; any other text stands for its own. -/
def Hashes.ofTables (digests csrfs : List (Str × Str)) : Hashes where
  digest s := ((digests.find? fun entry => entry.1 = s).map Prod.snd).getD s
  csrfFor s := ((csrfs.find? fun entry => entry.1 = s).map Prod.snd).getD s

namespace AccessStore
variable (hashes : Hashes) (store : AccessStore)

/-- `AccessStore.session`. -/
def session (secret : Str) (passwordHash : Option Str) (secure : Bool) (now : Rat) : Option AdminSession :=
  match passwordHash with
  | none => none
  | some passwordHash =>
    if passwordHash = [] ∨ secret = [] ∨ 128 < secret.length then none
    else match store.sessions.get (hashes.digest secret) with
      | none => none
      | some row =>
        if row.expiresAt ≤ now ∨ (row.secure = true ∧ secure = false) then none
        else if row.passwordFingerprint ≠ hashes.digest passwordHash then none
        else some ⟨row.passwordFingerprint, hashes.csrfFor secret, row.expiresAt⟩

/-- `SELECT … FROM host_tokens WHERE secret_hash=?`. -/
def tokenRow (secretHash : Str) : Option HostToken := store.tokens.rows.find? fun t => decide (t.secretHash = secretHash)

/-- What `AccessStore.token_access` answers: the repositories of the token, all of them if it names none. -/
def tokenAccess (secret : Str) (now : Rat) : Option (Option (List Str)) :=
  if startsWith secret "rw_".toList = false ∨ 128 < secret.length then none
  else match store.tokenRow (hashes.digest secret) with
    | none => none
    | some row =>
      if row.revokedAt.isSome ∨ row.expiresAt.any (fun e => decide (e ≤ now)) = true then none
      else some row.repoIds

/-- The row after its use, which is noted once a minute. -/
def usedRow (secretHash : Str) (now : Rat) (row : HostToken) : HostToken :=
  if row.secretHash = secretHash ∧ row.revokedAt = none ∧ row.lastUsedAt.all (fun used => decide (used < now - 60)) = true then
    { row with lastUsedAt := some now }
  else row

variable {hashes store} {secret : Str} {now : Rat}

/-- **A session is valid** as long as it has not expired and the password is still the one it was opened with. -/
theorem session_isSome {passwordHash : Option Str} {secure : Bool} :
    (store.session hashes secret passwordHash secure now).isSome = true ↔ ∃ hash, passwordHash = some hash ∧ hash ≠ [] ∧
      secret ≠ [] ∧ secret.length ≤ 128 ∧ ∃ row, store.sessions.get (hashes.digest secret) = some row ∧
        now < row.expiresAt ∧ (row.secure = true → secure = true) ∧ row.passwordFingerprint = hashes.digest hash := by
  unfold session
  cases passwordHash with
  | none => simp
  | some hash =>
    cases hrow : store.sessions.get (hashes.digest secret) with
    | none => simp
    | some row =>
      simp only [Option.some.injEq, exists_eq_left']
      by_cases hform : hash = [] ∨ secret = [] ∨ 128 < secret.length
      · rw [if_pos hform]
        refine iff_of_false Bool.false_ne_true ?_
        rintro ⟨hhash, hsecret, hlen, -⟩
        rcases hform with h | h | h
        · exact hhash h
        · exact hsecret h
        · omega
      · rw [if_neg hform]
        simp only [not_or, not_lt] at hform
        by_cases hended : row.expiresAt ≤ now ∨ (row.secure = true ∧ secure = false)
        · rw [if_pos hended]
          refine iff_of_false Bool.false_ne_true ?_
          rintro ⟨-, -, -, hlive, hsecure, -⟩
          rcases hended with h | ⟨h, hno⟩
          · exact absurd hlive (not_lt.2 h)
          · exact absurd (hsecure h) (by rw [hno]; exact Bool.false_ne_true)
        · rw [if_neg hended]
          simp only [not_or, not_le, not_and, Bool.not_eq_false] at hended
          by_cases hpassword : row.passwordFingerprint = hashes.digest hash
          · rw [if_neg (not_not.2 hpassword)]
            exact iff_of_true rfl ⟨hform.1, hform.2.1, hform.2.2, hended.1, hended.2, hpassword⟩
          · rw [if_pos hpassword]
            exact iff_of_false Bool.false_ne_true fun h => hpassword h.2.2.2.2.2

/-- **A grant is a live token's.** -/
theorem tokenAccess_eq_some {grant : Option (List Str)} : store.tokenAccess hashes secret now = some grant ↔
    startsWith secret "rw_".toList = true ∧ secret.length ≤ 128 ∧ ∃ token,
      store.tokenRow (hashes.digest secret) = some token ∧ HostToken.Live token now ∧ token.repoIds = grant := by
  unfold tokenAccess HostToken.Live
  by_cases hform : startsWith secret "rw_".toList = false ∨ 128 < secret.length
  · rw [if_pos hform]
    refine iff_of_false (by simp) ?_
    rintro ⟨hpre, hlen, -⟩
    rcases hform with hno | hlong
    · rw [hpre] at hno
      cases hno
    · omega
  · rw [if_neg hform]
    rw [not_or, Bool.not_eq_false, not_lt] at hform
    simp only [hform.1, hform.2, true_and]
    cases hrow : store.tokenRow (hashes.digest secret) with
    | none => simp
    | some row =>
      have hlive : (row.revokedAt.isSome ∨ row.expiresAt.any (fun e => decide (e ≤ now)) = true) ↔
          ¬ (row.revokedAt = none ∧ ∀ e, row.expiresAt = some e → now < e) := by
        cases row.revokedAt <;> cases row.expiresAt <;> simp
      simp only [Option.some.injEq, exists_eq_left', hlive, Option.ite_none_left_eq_some, not_not]

end AccessStore
end RepoWatch
