import Mathlib.Tactic.NormNum
import RepoWatch.Access
import RepoWatch.Lib.Run
import RepoWatch.Narinfo
/-!
# Sessions — sessions and tokens over runs

The store changes by logins, logouts, and tokens issued, revoked and used.  A session holds in exactly the states in which
its login has been followed by no logout with its secret and by no login that sweeps it (`session_of_run`), and a token
grants access until it is revoked, forever after not (`tokenAccess_of_run`).
-/
namespace RepoWatch

open Lib

/-- A value of a request's JSON body. -/
inductive BodyValue where
  | null
  | bool (b : Bool)
  | number (q : Rat)
  -- NaN and the infinities
  | notFinite
  | string (s : Str)
  | array (xs : List BodyValue)
  | object (fields : List (Str × BodyValue))

def BodyValue.str? : BodyValue → Option Str
  | .string s => some s
  | _ => none

/-- What `create_token` has checked. -/
structure TokenFields where
  name : Str
  expiresAt : Option Rat
  repoIds : Option (List Str)
  deriving DecidableEq

/-- `sorted(set(repo_ids))`. -/
def sortedSet (l : List Str) : List Str := sortedStr l.dedup

def checkName : BodyValue → Except Str Str
  | .string name =>
    if strip name = [] ∨ 128 < name.length then .error "name must be a nonempty string of at most 128 characters".toList
    else .ok (strip name)
  | _ => .error "name must be a nonempty string of at most 128 characters".toList

def checkExpiry (now : Rat) : BodyValue → Except Str (Option Rat)
  | .null => .ok none
  | .number e =>
    if now < e ∧ e < 253402300799 then .ok (some e) else .error "expires_at must be a future Unix timestamp or null".toList
  | _ => .error "expires_at must be a future Unix timestamp or null".toList

def checkRepoIds : BodyValue → Except Str (Option (List Str))
  | .null => .ok none
  | .array xs =>
    match xs.mapM BodyValue.str? with
    | none => .error "repo_ids must be null (all) or a list of repository ids".toList
    | some ids =>
      if 10000 < ids.length ∨ (ids.any fun id => decide (id = [] ∨ 256 < id.length)) = true then
        .error "repo_ids must be null (all) or a list of repository ids".toList
      else .ok (some (sortedSet ids))
  | _ => .error "repo_ids must be null (all) or a list of repository ids".toList

/-- The checks of `create_token`. -/
def tokenFields (name expiresAt repoIds : BodyValue) (now : Rat) : Except Str TokenFields := do
  let name ← checkName name
  let expiresAt ← checkExpiry now expiresAt
  let repoIds ← checkRepoIds repoIds
  return ⟨name, expiresAt, repoIds⟩

namespace AccessStore
variable (hashes : Hashes) (store : AccessStore)

def empty : AccessStore := ⟨Table.empty, Table.empty, List.nodup_nil⟩

/-! ## Operations -/

/-- `SESSION_SECONDS`. -/
def sessionSeconds : Rat := 12 * 60 * 60

/-- The row of a new session. -/
def sessionRow (secret passwordHash : Str) (secure : Bool) (now : Rat) : AdminSessionRow :=
  ⟨hashes.digest secret, hashes.digest passwordHash, now + sessionSeconds, secure⟩

/-- `AccessStore.create_session`; `none` where the secret is one that is there already. -/
def createSession (secret passwordHash : Str) (secure : Bool) (now : Rat) : Option AccessStore :=
  let swept := store.sessions.filter fun row =>
    !(decide (row.expiresAt ≤ now) || decide (row.passwordFingerprint ≠ hashes.digest passwordHash))
  if (swept.get (hashes.digest secret)).isSome then none
  else some { store with sessions := swept.upsert (sessionRow hashes secret passwordHash secure now) }

/-- `AccessStore.logout`. -/
def logout (secret : Str) : AccessStore := { store with sessions := store.sessions.delete (hashes.digest secret) }

/-- The secret of a token. -/
def tokenSecret (random : Str) : Str := "rw_".toList ++ random

/-- The row of a new token. -/
def tokenOf (id random : Str) (fields : TokenFields) (now : Rat) : HostToken where
  id := id
  name := fields.name
  secretHash := hashes.digest (tokenSecret random)
  createdAt := now
  expiresAt := fields.expiresAt
  lastUsedAt := none
  revokedAt := none
  repoIds := fields.repoIds

/-- `AccessStore.create_token` after its checks; `none` where the id or the secret is there already. -/
def createToken (id random : Str) (fields : TokenFields) (now : Rat) : Option AccessStore :=
  if h : (store.tokens.get id).isNone = true ∧
    hashes.digest (tokenSecret random) ∉ store.tokens.rows.map HostToken.secretHash then
    some { store with
      tokens := store.tokens.upsert (tokenOf hashes id random fields now)
      secretsNodup := by
        rw [Table.rows_upsert (Option.isNone_iff_eq_none.1 h.1), List.map_append]
        refine List.nodup_append.2 ⟨store.secretsNodup, List.nodup_singleton _, fun a ha b hb hab => ?_⟩
        rw [List.map_singleton, List.mem_singleton] at hb
        obtain rfl : a = hashes.digest (tokenSecret random) := hab.trans hb
        exact h.2 ha }
  else none

/-- Tokens with another mark of their use or their end. -/
def updateTokens (f : HostToken → HostToken) (hf : ∀ t, (f t).id = t.id ∧ (f t).secretHash = t.secretHash) : AccessStore :=
  { store with
    tokens := store.tokens.update f fun t => (hf t).1
    secretsNodup := by
      have hsame : HostToken.secretHash ∘ f = HostToken.secretHash := funext fun t => (hf t).2
      show ((store.tokens.rows.map f).map HostToken.secretHash).Nodup
      rw [List.map_map, hsame]
      exact store.secretsNodup }

/-- The token of an id with the time of its revocation, the first one if there were several. -/
def revokedRow (id : Str) (now : Rat) (t : HostToken) : HostToken :=
  if t.id = id then { t with revokedAt := some (t.revokedAt.getD now) } else t

/-- `AccessStore.revoke_token`. -/
def revokeToken (id : Str) (now : Rat) : AccessStore :=
  store.updateTokens (revokedRow id now) fun t => by unfold revokedRow; split <;> exact ⟨rfl, rfl⟩

/-- What `revoke_token` returns. -/
def hasToken (id : Str) : Bool := (store.tokens.get id).isSome

/-- What `token_access` writes. -/
def useToken (secret : Str) (now : Rat) : AccessStore :=
  if (store.tokenAccess hashes secret now).isSome then
    store.updateTokens (usedRow (hashes.digest secret) now) fun t => by unfold usedRow; split <;> exact ⟨rfl, rfl⟩
  else store

end AccessStore

/-! ## Runs -/

inductive AccessAction where
  | login (secret passwordHash : Str) (secure : Bool) (now : Rat)
  | logout (secret : Str)
  | issue (id random : Str) (fields : TokenFields) (now : Rat)
  | revoke (id : Str) (now : Rat)
  | use (secret : Str) (now : Rat)

namespace AccessAction
variable (hashes : Hashes)

/-- What an action makes of the store; `none` where it raises. -/
def act (store : AccessStore) : AccessAction → Option AccessStore
  | login secret passwordHash secure now => store.createSession hashes secret passwordHash secure now
  | logout secret => some (store.logout hashes secret)
  | issue id random fields now => store.createToken hashes id random fields now
  | revoke id now => some (store.revokeToken id now)
  | use secret now => some (store.useToken hashes secret now)

/-- The action opens the session of the row. -/
def Opens (action : AccessAction) (row : AdminSessionRow) : Prop :=
  match action with
  | login secret passwordHash secure now => row = AccessStore.sessionRow hashes secret passwordHash secure now
  | _ => False

/-- The action leaves a session alone: no logout with its secret, and no login after its end or with another password. -/
def Spares (action : AccessAction) (row : AdminSessionRow) : Prop :=
  match action with
  | login _ passwordHash _ now => now < row.expiresAt ∧ row.passwordFingerprint = hashes.digest passwordHash
  | logout secret => row.secretHash ≠ hashes.digest secret
  | _ => True

end AccessAction

variable {hashes : Hashes} {store store' : AccessStore} {action : AccessAction}

/-- A run of the store from nothing. -/
abbrev AccessRun (hashes : Hashes) (actions : List AccessAction) (store : AccessStore) : Prop :=
  Run (fun s a s' => AccessAction.act hashes s a = some s') AccessStore.empty actions store

/-! ## Sessions -/

theorem sessions_createToken {id random : Str} {fields : TokenFields} {now : Rat}
    (h : store.createToken hashes id random fields now = some store') : store'.sessions = store.sessions := by
  unfold AccessStore.createToken at h
  split at h
  · cases h
    rfl
  · cases h

theorem sessions_useToken (secret : Str) (now : Rat) : (store.useToken hashes secret now).sessions = store.sessions := by
  unfold AccessStore.useToken
  split <;> rfl

/-- What a login leaves of the sessions. -/
theorem get_createSession {secret passwordHash : Str} {secure : Bool} {now : Rat} {row : AdminSessionRow}
    (h : store.createSession hashes secret passwordHash secure now = some store') :
    store'.sessions.get row.secretHash = some row ↔
      row = AccessStore.sessionRow hashes secret passwordHash secure now ∨
        (store.sessions.get row.secretHash = some row ∧ now < row.expiresAt ∧
          row.passwordFingerprint = hashes.digest passwordHash) := by
  unfold AccessStore.createSession at h
  dsimp only at h
  split at h
  · cases h
  · rename_i hnew
    cases h
    rw [Option.not_isSome_iff_eq_none] at hnew
    have hswept : ∀ {r : AdminSessionRow},
      (!(decide (r.expiresAt ≤ now) || decide (r.passwordFingerprint ≠ hashes.digest passwordHash))) = true ↔
        now < r.expiresAt ∧ r.passwordFingerprint = hashes.digest passwordHash := by
      intro r
      simp
    rw [Table.get_upsert]
    by_cases hkey : row.secretHash = hashes.digest secret
    · rw [if_pos (show row.secretHash = (AccessStore.sessionRow hashes secret passwordHash secure now).secretHash from hkey)]
      constructor
      · intro hrow
        exact Or.inl (Option.some.inj hrow).symm
      · rintro (rfl | ⟨hget, hspared⟩)
        · rfl
        · rw [← hkey, Table.get_filter, hget, Option.filter_some, if_pos (hswept.2 hspared)] at hnew
          cases hnew
    · rw [if_neg (show ¬ row.secretHash = (AccessStore.sessionRow hashes secret passwordHash secure now).secretHash from hkey),
        Table.get_filter, Option.filter_eq_some_iff, hswept]
      refine ⟨Or.inr, ?_⟩
      rintro (rfl | hkept)
      · exact absurd rfl hkey
      · exact hkept

/-- **What one action leaves of the sessions.** -/
theorem sessions_act {row : AdminSessionRow} (h : action.act hashes store = some store') :
    store'.sessions.get row.secretHash = some row ↔
      action.Opens hashes row ∨ (store.sessions.get row.secretHash = some row ∧ action.Spares hashes row) := by
  unfold AccessAction.Opens AccessAction.Spares
  cases action with
  | login secret passwordHash secure now => exact get_createSession h
  | logout secret =>
    cases h
    simp only [false_or]
    show (store.sessions.delete (hashes.digest secret)).get row.secretHash = some row ↔ _
    rw [Table.get_delete]
    by_cases hkey : row.secretHash = hashes.digest secret <;> simp [hkey]
  | issue id random fields now => simp [sessions_createToken h]
  | revoke id now =>
    cases h
    simp [AccessStore.revokeToken, AccessStore.updateTokens]
  | use secret now =>
    cases h
    simp [sessions_useToken]

/-- The session of a row is open after the actions: a login has opened it and every later action has spared it. -/
def Standing (hashes : Hashes) (actions : List AccessAction) (row : AdminSessionRow) : Prop :=
  ∃ before action after, actions = before ++ action :: after ∧ action.Opens hashes row ∧
    ∀ later ∈ after, later.Spares hashes row

theorem sessions_of_run {actions : List AccessAction} (h : AccessRun hashes actions store) {row : AdminSessionRow} :
    store.sessions.get row.secretHash = some row ↔ Standing hashes actions row := by
  have hempty : ¬ AccessStore.empty.sessions.get row.secretHash = some row := fun hnone => by cases hnone
  exact Run.mem_iff (P := fun s r => s.sessions.get r.secretHash = some r) (fun _ _ _ hs => sessions_act hs) h hempty

/-- **A session is accepted** in exactly the states in which its login stands: opened with this secret and under the
present password, within its twelve hours, over no lesser transport, and neither logged out nor swept by another login. -/
theorem session_of_run {actions : List AccessAction} (h : AccessRun hashes actions store) (secret hash : Str) (secure : Bool)
    (now : Rat) : (store.session hashes secret (some hash) secure now).isSome = true ↔
      hash ≠ [] ∧ secret ≠ [] ∧ secret.length ≤ 128 ∧ ∃ row, Standing hashes actions row ∧
        row.secretHash = hashes.digest secret ∧ row.passwordFingerprint = hashes.digest hash ∧ now < row.expiresAt ∧
        (row.secure = true → secure = true) := by
  rw [AccessStore.session_isSome]
  constructor
  · rintro ⟨_, hhash, hne, hsecret, hlength, row, hget, hlive, hsecure, hpassword⟩
    cases hhash
    have hkey := Table.key_of_get hget
    refine ⟨hne, hsecret, hlength, row, (sessions_of_run h).1 ?_, hkey, hpassword, hlive, hsecure⟩
    rw [hkey]
    exact hget
  · rintro ⟨hne, hsecret, hlength, row, hstanding, hkey, hpassword, hlive, hsecure⟩
    refine ⟨hash, rfl, hne, hsecret, hlength, row, ?_, hlive, hsecure, hpassword⟩
    rw [← hkey]
    exact (sessions_of_run h).2 hstanding

/-- The SHA-256 of the secrets and of the two password hashes below. -/
def demoHashes : Hashes := .ofTables [
    ("first".toList, hex [
      0xa7, 0x93, 0x7b, 0x64, 0xb8, 0xca, 0xa5, 0x8f, 0x03, 0x72, 0x1b, 0xb6, 0xba, 0xcf, 0x5c, 0x78,
      0xcb, 0x23, 0x5f, 0xeb, 0xe0, 0xe7, 0x0b, 0x1b, 0x84, 0xcd, 0x99, 0x54, 0x14, 0x61, 0xa0, 0x8e]),
    ("second".toList, hex [
      0x16, 0x36, 0x7a, 0xac, 0xb6, 0x7a, 0x4a, 0x01, 0x7c, 0x8d, 0xa8, 0xab, 0x95, 0x68, 0x2c, 0xcb,
      0x39, 0x08, 0x63, 0x78, 0x0f, 0x71, 0x14, 0xdd, 0xa0, 0xa0, 0xe0, 0xc5, 0x56, 0x44, 0xc7, 0xc4]),
    ("third".toList, hex [
      0xb1, 0xe9, 0x93, 0x24, 0x50, 0x5b, 0xd3, 0x2d, 0xa0, 0xe1, 0xf8, 0x5d, 0xcf, 0x5e, 0x19, 0xa0,
      0x9d, 0xb0, 0x48, 0x1e, 0x8a, 0x15, 0xf6, 0x2c, 0x41, 0xeb, 0x32, 0x03, 0x04, 0xa8, 0xe9, 0x27]),
    ("old hash".toList, hex [
      0x69, 0xa2, 0x39, 0x04, 0xe4, 0xd3, 0xb0, 0xb8, 0xdc, 0x77, 0x76, 0xaf, 0x00, 0x2e, 0x52, 0x4d,
      0x7b, 0x5c, 0xe1, 0xb4, 0xdb, 0xaf, 0x9e, 0x35, 0x79, 0x8d, 0x85, 0xce, 0x6b, 0xa4, 0xec, 0x05]),
    ("hash".toList, hex [
      0xd0, 0x4b, 0x98, 0xf4, 0x8e, 0x8f, 0x8b, 0xcc, 0x15, 0xc6, 0xae, 0x5a, 0xc0, 0x50, 0x80, 0x1c,
      0xd6, 0xdc, 0xfd, 0x42, 0x8f, 0xb5, 0xf9, 0xe6, 0x5c, 0x4e, 0x16, 0xe7, 0x80, 0x73, 0x40, 0xfa]),
    ("rw_one".toList, hex [
      0x5c, 0xc6, 0x85, 0x63, 0x4d, 0x12, 0x5c, 0xe3, 0x47, 0x1f, 0x76, 0xfb, 0xa7, 0x46, 0xc7, 0x60,
      0x5b, 0xc3, 0x86, 0x62, 0x8a, 0x1b, 0x15, 0x54, 0x67, 0x22, 0xad, 0x42, 0x39, 0x91, 0xe9, 0x66]),
    ("rw_two".toList, hex [
      0xe9, 0x7a, 0x31, 0xc0, 0xc6, 0xd0, 0xb5, 0x50, 0x83, 0xa7, 0x78, 0xc0, 0x91, 0x87, 0xbc, 0x57,
      0x32, 0x0d, 0x6f, 0x78, 0xd4, 0x92, 0x02, 0x3a, 0x17, 0xdb, 0x6e, 0x83, 0x08, 0xb2, 0x68, 0x40])] []

/-- Three logins, the first before the password was changed, and a logout. -/
def demoLogins : List AccessAction := [
  .login "first".toList "old hash".toList true 0, .login "second".toList "hash".toList true 10,
  .login "third".toList "hash".toList true 20, .logout "second".toList]

theorem standing_demoLogins {row : AdminSessionRow} : Standing demoHashes demoLogins row ↔
    row = AccessStore.sessionRow demoHashes "third".toList "hash".toList true 20 := by
  constructor
  · rintro ⟨before, action, after, hsplit, hopens, hspares⟩
    rcases before with _ | ⟨_, _ | ⟨_, _ | ⟨_, _ | ⟨_, before⟩⟩⟩⟩ <;>
      simp only [demoLogins, List.nil_append, List.cons_append, List.cons.injEq, List.nil_eq, List.append_eq_nil_iff,
        reduceCtorEq, and_false] at hsplit
    · -- swept by the second login
      obtain ⟨rfl, rfl⟩ := hsplit
      cases hopens
      exact absurd (hspares _ List.mem_cons_self).2 (by decide +kernel)
    · -- logged out
      obtain ⟨-, rfl, rfl⟩ := hsplit
      cases hopens
      exact absurd rfl (hspares _ (List.mem_cons_of_mem _ List.mem_cons_self))
    · obtain ⟨-, -, rfl, rfl⟩ := hsplit
      exact hopens
    · obtain ⟨-, -, -, rfl, rfl⟩ := hsplit
      cases hopens
  · rintro rfl
    refine ⟨[_, _], _, [_], rfl, rfl, fun later hlater => ?_⟩
    obtain rfl := List.mem_singleton.1 hlater
    show _ ≠ _
    decide +kernel

/-- The third session is accepted; the first has been swept by a login with the new password, and the second is logged out. -/
theorem session_of_run_logins : ∃ store, AccessRun demoHashes demoLogins store ∧
    (store.session demoHashes "third".toList (some "hash".toList) true 30).isSome = true ∧
    ¬ (store.session demoHashes "first".toList (some "old hash".toList) true 30).isSome = true ∧
    ¬ (store.session demoHashes "second".toList (some "hash".toList) true 30).isSome = true := by
  obtain ⟨store, hstore⟩ := Option.isSome_iff_exists.1
    (show (demoLogins.foldlM (AccessAction.act demoHashes) AccessStore.empty).isSome from by decide +kernel)
  have hrun : AccessRun demoHashes demoLogins store := run_iff_foldlM.2 hstore
  refine ⟨store, hrun, (session_of_run hrun _ _ _ _).2 ?_, fun h => ?_, fun h => ?_⟩
  · exact ⟨by decide, by decide, by decide, _, standing_demoLogins.2 rfl, rfl, rfl, by decide +kernel, fun _ => rfl⟩
  · obtain ⟨-, -, -, row, hstanding, hsecret, -⟩ := (session_of_run hrun _ _ _ _).1 h
    rw [standing_demoLogins.1 hstanding] at hsecret
    exact absurd hsecret (by decide +kernel)
  · obtain ⟨-, -, -, row, hstanding, hsecret, -⟩ := (session_of_run hrun _ _ _ _).1 h
    rw [standing_demoLogins.1 hstanding] at hsecret
    exact absurd hsecret (by decide +kernel)

/-! ## Tokens -/

/-- The store has the token, not revoked; when it was last used does not matter. -/
def AccessStore.Grants (store : AccessStore) (token : HostToken) : Prop :=
  token.revokedAt = none ∧ ∃ used, { token with lastUsedAt := used } ∈ store.tokens.rows

namespace AccessAction
variable (hashes : Hashes)

def Issues (action : AccessAction) (token : HostToken) : Prop :=
  match action with
  | issue id random fields now => { token with lastUsedAt := none } = AccessStore.tokenOf hashes id random fields now
  | _ => False

def Leaves (action : AccessAction) (token : HostToken) : Prop :=
  match action with
  | revoke id _ => id ≠ token.id
  | _ => True

end AccessAction

theorem tokens_createSession {secret passwordHash : Str} {secure : Bool} {now : Rat}
    (h : store.createSession hashes secret passwordHash secure now = some store') : store'.tokens = store.tokens := by
  unfold AccessStore.createSession at h
  dsimp only at h
  split at h
  · cases h
  · cases h
    rfl

theorem grants_createToken {id random : Str} {fields : TokenFields} {now : Rat} {token : HostToken}
    (h : store.createToken hashes id random fields now = some store') :
    store'.Grants token ↔ { token with lastUsedAt := none } = AccessStore.tokenOf hashes id random fields now ∨
      store.Grants token := by
  unfold AccessStore.createToken at h
  split at h
  · rename_i hnew
    cases h
    unfold AccessStore.Grants
    rw [show (store.tokens.upsert (AccessStore.tokenOf hashes id random fields now)).rows =
      store.tokens.rows ++ [AccessStore.tokenOf hashes id random fields now] from
        Table.rows_upsert (Option.isNone_iff_eq_none.1 hnew.1)]
    simp only [List.mem_append, List.mem_singleton]
    constructor
    · rintro ⟨hlive, used, hold | hissued⟩
      · exact Or.inr ⟨hlive, used, hold⟩
      · refine Or.inl ?_
        obtain rfl : used = none := congrArg HostToken.lastUsedAt hissued
        exact hissued
    · rintro (hissued | ⟨hlive, used, hold⟩)
      · exact ⟨congrArg HostToken.revokedAt hissued, none, Or.inr hissued⟩
      · exact ⟨hlive, used, Or.inl hold⟩
  · cases h

theorem grants_revokeToken {id : Str} {now : Rat} {token : HostToken} :
    (store.revokeToken id now).Grants token ↔ store.Grants token ∧ id ≠ token.id := by
  unfold AccessStore.Grants
  constructor
  · rintro ⟨hlive, used, hmem⟩
    obtain ⟨t, ht, hrow⟩ := List.mem_map.1 hmem
    unfold AccessStore.revokedRow at hrow
    split at hrow
    · rw [← congrArg HostToken.revokedAt hrow] at hlive
      cases hlive
    · rename_i hid
      subst hrow
      exact ⟨⟨hlive, used, ht⟩, fun h => hid h.symm⟩
  · rintro ⟨⟨hlive, used, hmem⟩, hid⟩
    refine ⟨hlive, used, List.mem_map.2 ⟨_, hmem, ?_⟩⟩
    exact if_neg fun h => hid h.symm

theorem grants_useToken {secret : Str} {now : Rat} {token : HostToken} :
    (store.useToken hashes secret now).Grants token ↔ store.Grants token := by
  unfold AccessStore.useToken AccessStore.Grants
  split
  · refine and_congr_right fun _ => ⟨?_, ?_⟩
    · rintro ⟨used, hmem⟩
      obtain ⟨t, ht, hrow⟩ := List.mem_map.1 hmem
      refine ⟨t.lastUsedAt, ?_⟩
      unfold AccessStore.usedRow at hrow
      split at hrow
      · have htoken : t = { token with lastUsedAt := t.lastUsedAt } :=
          congrArg (fun r : HostToken => { r with lastUsedAt := t.lastUsedAt }) hrow
        exact htoken ▸ ht
      · subst hrow
        exact ht
    · rintro ⟨used, hmem⟩
      have himage := List.mem_map_of_mem (f := AccessStore.usedRow (hashes.digest secret) now) hmem
      unfold AccessStore.usedRow at himage
      split at himage
      · exact ⟨some now, himage⟩
      · exact ⟨used, himage⟩
  · exact Iff.rfl

theorem grants_act {token : HostToken} (h : action.act hashes store = some store') :
    store'.Grants token ↔ action.Issues hashes token ∨ (store.Grants token ∧ action.Leaves token) := by
  unfold AccessAction.Issues AccessAction.Leaves
  cases action with
  | login secret passwordHash secure now => simp [AccessStore.Grants, tokens_createSession h]
  | logout secret =>
    cases h
    simp [AccessStore.Grants, AccessStore.logout]
  | issue id random fields now => simp [grants_createToken h]
  | revoke id now =>
    cases h
    simp [grants_revokeToken]
  | use secret now =>
    cases h
    simp [grants_useToken]

/-- **A token grants access** in exactly the states in which it has been issued with this secret and not revoked since, until
it expires; what it grants is what it was issued for. -/
theorem tokenAccess_of_run {actions : List AccessAction} (h : AccessRun hashes actions store) (secret : Str) (now : Rat)
    (grant : Option (List Str)) : store.tokenAccess hashes secret now = some grant ↔
      startsWith secret "rw_".toList = true ∧ secret.length ≤ 128 ∧ ∃ before id random fields issued after,
        actions = before ++ .issue id random fields issued :: after ∧
        hashes.digest (AccessStore.tokenSecret random) = hashes.digest secret ∧
        (∀ time, .revoke id time ∉ after) ∧ (∀ e, fields.expiresAt = some e → now < e) ∧ fields.repoIds = grant := by
  rw [AccessStore.tokenAccess_eq_some]
  refine and_congr_right fun _ => and_congr_right fun _ => ?_
  have hgrants : ∀ token, store.Grants token ↔ ∃ before action after, actions = before ++ action :: after ∧
      action.Issues hashes token ∧ ∀ later ∈ after, later.Leaves token := fun token =>
    Run.mem_iff (P := AccessStore.Grants) (fun _ _ _ hs => grants_act hs) h fun ⟨_, _, hmem⟩ => List.not_mem_nil hmem
  have hleaves : ∀ (token : HostToken) (after : List AccessAction),
      (∀ later ∈ after, later.Leaves token) ↔ ∀ time, .revoke token.id time ∉ after := by
    intro token after
    refine ⟨fun hall time hmem => hall _ hmem rfl, fun hno later hmem => ?_⟩
    cases later with
    | revoke id time => exact fun hid => hno time (hid ▸ hmem)
    | _ => trivial
  constructor
  · rintro ⟨token, hrow, ⟨hrevoked, hexpiry⟩, hids⟩
    have hmem := List.mem_of_find?_eq_some hrow
    have hsecret : token.secretHash = hashes.digest secret := by simpa using List.find?_some hrow
    obtain ⟨before, action, after, hsplit, hissues, hkept⟩ := (hgrants token).1 ⟨hrevoked, token.lastUsedAt, hmem⟩
    cases action with
    | issue id random fields issued =>
      have hid : token.id = id := congrArg HostToken.id hissues
      have hexpires : token.expiresAt = fields.expiresAt := congrArg HostToken.expiresAt hissues
      have hgranted : token.repoIds = fields.repoIds := congrArg HostToken.repoIds hissues
      exact ⟨before, id, random, fields, issued, after, hsplit, (congrArg HostToken.secretHash hissues).symm.trans hsecret,
        hid ▸ (hleaves token after).1 hkept, hexpires ▸ hexpiry, hgranted ▸ hids⟩
    | _ => cases hissues
  · rintro ⟨before, id, random, fields, issued, after, hsplit, hsecret, hno, hexpiry, hids⟩
    obtain ⟨-, used, hmem⟩ := (hgrants (AccessStore.tokenOf hashes id random fields issued)).2
      ⟨before, _, after, hsplit, rfl, (hleaves _ after).2 hno⟩
    refine ⟨{ AccessStore.tokenOf hashes id random fields issued with lastUsedAt := used }, ?_, ⟨rfl, hexpiry⟩, hids⟩
    unfold AccessStore.tokenRow
    rw [← hsecret]
    exact Table.find?_key_of_mem _ _ store.secretsNodup hmem

/-- Two tokens, of which the first is used and the second revoked. -/
def demoTokens : List AccessAction := [
  .issue ['1'] "one".toList ⟨['m'], none, some [['a']]⟩ 0, .issue ['2'] "two".toList ⟨['n'], some 1000, none⟩ 10,
  .use "rw_one".toList 20, .revoke ['2'] 30]

/-- The first token grants what it was issued for; the second, which has not expired, is revoked. -/
theorem tokenAccess_of_run_issues : ∃ store, AccessRun demoHashes demoTokens store ∧
    store.tokenAccess demoHashes "rw_one".toList 40 = some (some [['a']]) ∧
    ∀ grant, store.tokenAccess demoHashes "rw_two".toList 40 ≠ some grant := by
  obtain ⟨store, hstore⟩ := Option.isSome_iff_exists.1
    (show (demoTokens.foldlM (AccessAction.act demoHashes) AccessStore.empty).isSome from by decide +kernel)
  have hrun : AccessRun demoHashes demoTokens store := run_iff_foldlM.2 hstore
  refine ⟨store, hrun, (tokenAccess_of_run hrun _ _ _).2 ?_, fun grant h => ?_⟩
  · exact ⟨by decide, by decide, [], ['1'], "one".toList, _, 0, _, rfl, rfl, by simp, (fun _ he => by cases he), rfl⟩
  · obtain ⟨-, -, before, id, random, fields, issued, after, hsplit, hsecret, hkept, -⟩ :=
      (tokenAccess_of_run hrun _ _ _).1 h
    rcases before with _ | ⟨_, _ | ⟨_, _ | ⟨_, _ | ⟨_, before⟩⟩⟩⟩ <;>
      simp only [demoTokens, List.nil_append, List.cons_append, List.cons.injEq, List.nil_eq, List.append_eq_nil_iff,
        reduceCtorEq, AccessAction.issue.injEq, false_and, and_false] at hsplit
    · -- another token
      obtain ⟨⟨rfl, rfl, rfl, rfl⟩, rfl⟩ := hsplit
      exact absurd hsecret (by decide +kernel)
    · obtain ⟨-, ⟨rfl, rfl, rfl, rfl⟩, rfl⟩ := hsplit
      exact hkept 30 (List.mem_cons_of_mem _ List.mem_cons_self)

end RepoWatch
