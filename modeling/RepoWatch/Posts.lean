import Mathlib.Tactic.NormNum
import RepoWatch.Auth
import RepoWatch.Handler
import RepoWatch.Sessions
/-!
# Posts — who may write

`_post` lets a request through its gates one by one: the context, the origin, the administrator with the CSRF token of the
session, the transport and the body.  Over any run of requests a write is made only behind a login with the password that
the configuration has at the write (`write_authorized`).
-/
namespace RepoWatch

open Lib

/-! ## Requests -/

/-- What reading the body of a request does. -/
inductive BodyRead where
  | bytes (raw : Bytes)
  | timeout
  | failed

structure PostRequest extends WebRequest where
  /-- `rfile.read` of a number of bytes. -/
  read : Nat → BodyRead

/-- The actions behind the gates that write, in the order of the code's tests. -/
inductive WebWrite where
  | addRepo
  | updateConfig
  | updateRepo (repoId : Str)
  | deleteRepo (repoId : Str)
  | warm (repoId : Str)
  | purge (repoId : Str)
  | removeWarmed (repoId : Str)
  | ban (repoId : Str)
  | unban (repoId : Str)
  | dedup
  | orphans
  | zombies
  deriving DecidableEq

/-- What `_post` reads of `self.path`. -/
def postRoute (url : Str) : WebRoute :=
  let path := urlparsePath url
  ⟨path, (path.splitOn '/').filter (· ≠ []), (urlsplit url).query⟩

namespace WebRoute
variable (r : WebRoute)

def isLogin : Bool := r.path = "/api/auth/login".toList

/-- The token of `/api/tokens/<id>/revoke`. -/
def revokedToken : Option Str :=
  match r.parts with
  | [api, tokens, id, revoke] =>
    if api = "api".toList ∧ tokens = "tokens".toList ∧ revoke = "revoke".toList then some id else none
  | _ => none

/-- The writes of `/api/repos/...`. -/
def repoWrite : Option WebWrite :=
  match r.parts with
  | [api, repos, id] => if api = "api".toList ∧ repos = "repos".toList then some (.updateRepo id) else none
  | [api, repos, id, page] =>
    if api = "api".toList ∧ repos = "repos".toList then
      if page = "delete".toList then some (.deleteRepo id)
      else if page = "warm".toList then some (.warm id)
      else if page = "purge".toList then some (.purge id)
      else if page = "bans".toList then some (.ban id)
      else none
    else none
  | [api, repos, id, page, remove] =>
    if api = "api".toList ∧ repos = "repos".toList ∧ remove = "remove".toList then
      if page = "warmed".toList then some (.removeWarmed id)
      else if page = "bans".toList then some (.unban id)
      else none
    else none
  | _ => none

def webWrite : Option WebWrite :=
  if r.path = "/api/repos".toList then some .addRepo
  else if r.path = "/api/config".toList then some .updateConfig
  else match r.repoWrite with
    | some write => some write
    | none =>
      if r.path = "/api/storage/dedup".toList then some .dedup
      else if r.path = "/api/storage/orphans".toList then some .orphans
      else if r.path = "/api/storage/zombies".toList then some .zombies
      else none

end WebRoute

/-! ## The environment -/

abbrev BodyFields := Dict Str BodyValue

/-- The libraries that `_post` uses, and the writes behind its gates. -/
structure PostEnv extends WebEnv where
  pbkdf2 : Pbkdf2
  -- `get_content_type` of the header
  contentType : Option Str → Str
  loadsJson : Bytes → Option BodyValue
  write : Service → WebConfig → WebWrite → BodyFields → WebResponse

/-- What happens while a request is served: the configuration it reloads, and the random texts it draws. -/
structure Occasion where
  time : Rat
  clock : Int
  reloaded : Option WebConfig
  sessionSecret : Str
  tokenId : Str
  tokenRandom : Str

def PostEnv.at (env : PostEnv) (occasion : Occasion) : PostEnv := { env with time := occasion.time, clock := occasion.clock }

namespace WebResponse

def crossOrigin : WebResponse := error "cross-origin request denied" 403
def csrfRequired : WebResponse := error "CSRF token required" 403
def bodyTooLarge : WebResponse := error "request body too large" 413
def jsonRequired : WebResponse := error "application/json required" 415
def invalidBody : WebResponse := error "invalid JSON request body" 400
def unavailable : WebResponse := error "operation unavailable" 503
def noPassword : WebResponse := error "set administrator password with repowatch set-password" 503
def invalidPassword : WebResponse := error "invalid password" 401
def configInvalid : WebResponse := error "config.yaml is currently invalid" 500
def passwordUnset : WebResponse := error "set an administrator password with repowatch set-password" 501
def sessionRequired : WebResponse := error "administrator session required" 401

def valueError (message : Str) : WebResponse := ⟨400, .json (errorPayload message), []⟩

end WebResponse

/-! ## Gates -/

section
variable (env : PostEnv) (occasion : Occasion) (svc : Service) (req : PostRequest)

/-- `self.session_secret`. -/
def cookieSecret : Str := ((env.loadCookie ((req.get "Cookie").getD [])).bind id).getD []

/-- `_same_origin`. -/
def sameOrigin (client : ClientContext) : Bool :=
  let expected := (if client.secure then "https".toList else "http".toList) ++ "://".toList ++ client.host
  (req.get "Origin").all (fun origin => origin = [] || decide (env.lower origin = expected)) &&
    decide (req.get "Sec-Fetch-Site" ≠ some "cross-site".toList)

/-- `_admin_required(csrf=True)`. -/
def csrfChecked (ctx : RequestContext) : Except WebResponse Unit := do
  let _ ← adminRequired ctx
  if (ctx.admin.any fun admin => decide ((req.get "X-CSRF-Token").getD [] ≠ admin.csrf)) = true then .error .csrfRequired
  else return ()

/-- The length of the body, if it may be read. -/
def bodyLength : Except WebResponse Nat :=
  if (req.get "Transfer-Encoding").any (· ≠ []) = true ∨ 1 < (req.headers "Content-Length".toList).length then .error .invalidBody
  else match pyInt ((req.get "Content-Length").getD ['0']) with
    | .error _ => .error .invalidBody
    | .ok length =>
      if length < 0 ∨ 1024 * 1024 < length then .error .bodyTooLarge
      else if length ≠ 0 ∧ env.contentType (req.get "Content-Type") ≠ "application/json".toList then .error .jsonRequired
      else .ok length.toNat

/-- The JSON object of the body. -/
def bodyFields : Except WebResponse BodyFields := do
  let length ← bodyLength env req
  match if length = 0 then BodyRead.bytes [] else req.read length with
  | .failed => .error .unavailable
  | .timeout => .error .invalidBody
  | .bytes raw =>
    if raw.length ≠ length then .error .invalidBody
    else if raw = [] then return Table.empty
    else match env.loadsJson raw with
      | some (.object fields) => return Dict.ofPairs fields
      | _ => .error .invalidBody

/-- Everything but a login needs the administrator. -/
def adminChecked (r : WebRoute) (ctx : RequestContext) : Except WebResponse Unit :=
  if r.isLogin then .ok () else csrfChecked req ctx

/-- What `_post` does before it looks at the route. -/
def postGates (r : WebRoute) : Except WebResponse (RequestContext × BodyFields) := do
  let ctx ← context env.toWebEnv svc req.toWebRequest
  if sameOrigin env req ctx.client = false then .error .crossOrigin
  else
    let _ ← adminChecked req r ctx
    if ctx.transportAllowed = false then .error .httpsRequired
    else
      let body ← bodyFields env req
      return (ctx, body)

/-! ## Routes -/

/-- What a request changes: the store of sessions and tokens, or what a write behind the gates does. -/
inductive PostEffect where
  | nothing
  | access (action : AccessAction)
  | write (w : WebWrite)

def cookieHeader (client : ClientContext) (secret : Str) (age : String) : Str × Str :=
  ("Set-Cookie".toList, "repowatch_session=".toList ++ secret ++ "; Path=/; HttpOnly; SameSite=Strict; Max-Age=".toList ++
    age.toList ++ if client.secure then "; Secure".toList else [])

/-- The login. -/
def postLogin (ctx : RequestContext) (body : BodyFields) : WebResponse × PostEffect :=
  match ctx.current.adminPasswordHash.filter (· ≠ []) with
  | none => (.noPassword, .nothing)
  | some hash =>
    match body.lookup "password".toList with
    | some (.string password) =>
      if 1024 < password.length ∨ verifyPassword env.pbkdf2 password hash = false then (.invalidPassword, .nothing)
      else
        (⟨200, .json (.object [("csrf_token".toList, .string (env.hashes.csrfFor occasion.sessionSecret)),
          ("expires_at".toList, .float)]),
          [cookieHeader ctx.client occasion.sessionSecret "43200"]⟩,
          .access (.login occasion.sessionSecret hash ctx.client.secure env.time))
    | _ => (.invalidPassword, .nothing)

/-- The repositories of a new token are restricted to existing ones, where restrictions are enabled. -/
def checkTokenRepos (ctx : RequestContext) : BodyValue → Except Str Unit
  | .null => .ok ()
  | value =>
    if ctx.current.tokenRepoRestrictions = false then
      .error "enable status_server.token_repo_restrictions before issuing scoped tokens".toList
    else match value with
      | .array xs =>
        if (xs.all fun x => x.str?.any fun id => (ctx.current.config.repoById id).isSome) = true then .ok ()
        else .error "repo_ids must contain existing repository ids".toList
      | _ => .error "repo_ids must contain existing repository ids".toList

/-- The checks of a new token. -/
def newTokenFields (ctx : RequestContext) (body : BodyFields) : Except Str TokenFields := do
  let field := fun name : String => (body.lookup name.toList).getD .null
  if (body.keys.all fun key => ["name", "expires_at", "repo_ids"].any fun name => key = name.toList) = false then
    .error "only name, expires_at and repo_ids are supported".toList
  else
    let _ ← checkTokenRepos ctx (field "repo_ids")
    tokenFields (field "name") (field "expires_at") (field "repo_ids") env.time

/-- A new token. -/
def postToken (ctx : RequestContext) (body : BodyFields) : WebResponse × PostEffect :=
  match newTokenFields env ctx body with
  | .error message => (.valueError message, .nothing)
  | .ok fields =>
    (⟨201, .json (.object [("id".toList, .string occasion.tokenId), ("name".toList, .string fields.name),
        ("token".toList, .string (AccessStore.tokenSecret occasion.tokenRandom)), ("created_at".toList, .float),
        ("expires_at".toList, if fields.expiresAt.isSome then .float else .null),
        ("repo_ids".toList, match fields.repoIds with
          | some ids => .array (ids.map .string)
          | none => .null)]), []⟩,
      .access (.issue occasion.tokenId occasion.tokenRandom fields env.time))

/-- `load_admin_config`: the session under the configuration as it is now. -/
def loadAdminConfig (admin : Option AdminSession) : Except WebResponse WebConfig :=
  match occasion.reloaded with
  | none => .error .configInvalid
  | some current =>
    match current.adminPasswordHash.filter (· ≠ []) with
    | none => .error .passwordUnset
    | some hash =>
      if (admin.any fun session => decide (session.passwordFingerprint = env.hashes.digest hash)) = false then
        .error .sessionRequired
      else .ok current

/-- `_post` behind its gates. -/
def postRouted (r : WebRoute) (ctx : RequestContext) (body : BodyFields) : WebResponse × PostEffect :=
  if r.isLogin then postLogin env occasion ctx body
  else if r.path = "/api/auth/logout".toList then
    (⟨200, .json (.object [("ok".toList, .bool true)]), [cookieHeader ctx.client [] "0"]⟩,
      .access (.logout (cookieSecret env req)))
  else if r.path = "/api/tokens".toList then postToken env occasion ctx body
  else match r.revokedToken with
    | some id =>
      let found := svc.access.hasToken id
      (⟨if found then 200 else 404, .json (.object [("ok".toList, .bool found)]), []⟩, .access (.revoke id env.time))
    | none =>
      match r.webWrite with
      | none => (.notFound, .nothing)
      | some w =>
        match loadAdminConfig env occasion ctx.admin with
        | .error response => (response, .nothing)
        | .ok current => (env.write svc current w body, .write w)

/-- `do_POST`: the response and what it changes; `none` where it raises on its URL. -/
def doPost : Option (WebResponse × PostEffect) :=
  if netlocRaises env.netlocOk req.path then none
  else
    let r := postRoute req.path
    match postGates env svc req r with
    | .error response => some (response, .nothing)
    | .ok (ctx, body) => some (postRouted env occasion svc req r ctx body)

end

/-! ## Exchanges -/

/-- The use of a token that `do_GET` notes. -/
def getAction (env : WebEnv) (svc : Service) (req : WebRequest) : Option AccessAction :=
  let r := route req.path
  if netlocRaises env.netlocOk req.path || r.isPublic || r.path = "/metrics".toList then none
  else match context env svc req with
    | .error _ => none
    | .ok ctx =>
      let authorization := (req.get "Authorization").getD []
      if !(ctx.current.guestReadOnly && ctx.admin.isNone && r.guestRoute) && r.isStatus && ctx.admin.isNone &&
          startsWith authorization "Bearer ".toList then
        some (.use (authorization.drop "Bearer ".length) env.time)
      else none

inductive WebCall where
  | get (req : WebRequest)
  | post (req : PostRequest)

/-- A request with what it is served from: the configuration when it comes and the records it reads. -/
structure Exchange where
  occasion : Occasion
  current : Option WebConfig
  db : Database
  request : WebCall

/-- The service that an exchange meets. -/
def Exchange.service (x : Exchange) (access : AccessStore) : Service := ⟨x.current, x.db, access⟩

/-- What an exchange changes, if it does not raise. -/
def Exchange.effect (env : PostEnv) (access : AccessStore) (x : Exchange) : Option PostEffect :=
  match x.request with
  | .get req => some (match getAction (env.at x.occasion).toWebEnv (x.service access) req with
    | some action => .access action
    | none => .nothing)
  | .post req => (doPost (env.at x.occasion) x.occasion (x.service access) req).map Prod.snd

/-- One exchange with its effect; the store changes by actions alone. -/
def ExchangeStep (env : PostEnv) (access : AccessStore) (step : Exchange × PostEffect) (access' : AccessStore) : Prop :=
  step.1.effect env access = some step.2 ∧
    match step.2 with
    | .access action => action.act env.hashes access = some access'
    | _ => access' = access

/-- The action among the effects. -/
def PostEffect.action : PostEffect → Option AccessAction
  | .access action => some action
  | _ => none

section
variable {env : PostEnv} {access access' : AccessStore} {steps : List (Exchange × PostEffect)}

/-- **A run of exchanges is a run of the store** through the actions among its effects. -/
theorem accessRun_of_exchanges (h : Run (ExchangeStep env) AccessStore.empty steps access) :
    AccessRun env.hashes (steps.filterMap fun step => step.2.action) access := by
  refine h.history (fun steps access => AccessRun env.hashes (steps.filterMap fun step => step.2.action) access) (.nil _) ?_
  rintro steps access₁ step access₂ - hrun ⟨-, hstep⟩
  rw [List.filterMap_append]
  cases heffect : step.2 with
  | nothing =>
    rw [heffect] at hstep
    simpa [heffect, PostEffect.action, show access₂ = access₁ from hstep] using hrun
  | access action =>
    rw [heffect] at hstep
    simpa [heffect, PostEffect.action] using Run.snoc hrun hstep
  | write w =>
    rw [heffect] at hstep
    simpa [heffect, PostEffect.action, show access₂ = access₁ from hstep] using hrun

/-! ## Logins and writes -/

/-- An exchange is a `POST`, with the context that it is served in. -/
def Exchange.PostedIn (env : PostEnv) (access : AccessStore) (x : Exchange) (req : PostRequest) (ctx : RequestContext) : Prop :=
  x.request = .post req ∧ x.current = some ctx.current ∧
    context (env.at x.occasion).toWebEnv (x.service access) req.toWebRequest = .ok ctx

/-- The login of an exchange is accepted: a password of the configured hash, from the site itself, over an allowed
transport. -/
def Exchange.LogsIn (env : PostEnv) (access : AccessStore) (x : Exchange) (hash : Str) (secure : Bool) : Prop :=
  ∃ req ctx password, x.PostedIn env access req ctx ∧ (postRoute req.path).isLogin = true ∧
    ctx.current.adminPasswordHash = some hash ∧ ctx.client.secure = secure ∧
    (ctx.client.credentialsAllowed || ctx.current.allowInsecureHttp) = true ∧
    sameOrigin (env.at x.occasion) req ctx.client = true ∧ verifyPassword env.pbkdf2 password hash = true

/-- What only an administrator may change. -/
def PostEffect.privileged : PostEffect → Bool
  | .access (.login ..) => false
  | .access (.use ..) => false
  | .nothing => false
  | _ => true

variable {occasion : Occasion} {svc : Service} {req : PostRequest} {ctx : RequestContext} {body : BodyFields} {r : WebRoute}

theorem csrfChecked_ok (h : csrfChecked req ctx = .ok ()) :
    ∃ admin, ctx.admin = some admin ∧ (req.get "X-CSRF-Token").getD [] = admin.csrf := by
  unfold csrfChecked at h
  obtain ⟨⟨⟩, hadmin, h⟩ := bind_eq_ok.1 h
  unfold adminRequired at hadmin
  split at hadmin
  · cases hadmin
  split at hadmin
  · cases hadmin
  rename_i hsome
  cases hsession : ctx.admin with
  | none => simp [hsession] at hsome
  | some admin =>
    rw [hsession, Option.any_some] at h
    split at h
    · cases h
    · rename_i hcsrf
      exact ⟨admin, rfl, by simpa using hcsrf⟩

theorem postGates_ok (h : postGates env svc req r = .ok (ctx, body)) :
    context env.toWebEnv svc req.toWebRequest = .ok ctx ∧ sameOrigin env req ctx.client = true ∧ ctx.transportAllowed = true ∧
      (r.isLogin = false → csrfChecked req ctx = .ok ()) := by
  unfold postGates at h
  obtain ⟨ctx', hcontext, h⟩ := bind_eq_ok.1 h
  split at h
  · cases h
  rename_i horigin
  obtain ⟨⟨⟩, hcsrf, h⟩ := bind_eq_ok.1 h
  split at h
  · cases h
  rename_i htransport
  obtain ⟨body', -, h⟩ := bind_eq_ok.1 h
  cases h
  rw [Bool.not_eq_false] at horigin htransport
  refine ⟨hcontext, horigin, htransport, fun hlogin => ?_⟩
  rw [adminChecked, hlogin] at hcsrf
  exact hcsrf

/-- A login changes the store by the session it opens, under a password that it has verified. -/
theorem postLogin_access {action : AccessAction} (h : (postLogin env occasion ctx body).2 = .access action) :
    ∃ hash password, ctx.current.adminPasswordHash = some hash ∧ verifyPassword env.pbkdf2 password hash = true ∧
      action = .login occasion.sessionSecret hash ctx.client.secure env.time := by
  unfold postLogin at h
  cases hhash : ctx.current.adminPasswordHash.filter (· ≠ []) with
  | none =>
    rw [hhash] at h
    cases h
  | some hash =>
    rw [hhash] at h
    dsimp only at h
    split at h
    · rename_i password hpassword
      split at h
      · cases h
      · rename_i hverified
        cases h
        refine ⟨hash, password, (Option.filter_eq_some_iff.1 hhash).1, ?_, rfl⟩
        simpa using (not_or.1 hverified).2
    · cases h

theorem loadAdminConfig_ok {admin : Option AdminSession} {current : WebConfig}
    (h : loadAdminConfig env occasion admin = .ok current) :
    occasion.reloaded = some current ∧ ∃ hash session, current.adminPasswordHash = some hash ∧ admin = some session ∧
      session.passwordFingerprint = env.hashes.digest hash := by
  unfold loadAdminConfig at h
  split at h
  · cases h
  · rename_i reloaded hreloaded
    split at h
    · cases h
    · rename_i hash hhash
      split at h
      · cases h
      · rename_i hsession
        cases h
        refine ⟨hreloaded, hash, ?_⟩
        cases admin with
        | none => simp at hsession
        | some session => exact ⟨session, (Option.filter_eq_some_iff.1 hhash).1, rfl, by simpa using hsession⟩

theorem postLogin_effect (env : PostEnv) (occasion : Occasion) (ctx : RequestContext) (body : BodyFields) :
    (postLogin env occasion ctx body).2 = .nothing ∨ ∃ action, (postLogin env occasion ctx body).2 = .access action := by
  unfold postLogin
  split
  · exact Or.inl rfl
  · split
    · split
      · exact Or.inl rfl
      · exact Or.inr ⟨_, rfl⟩
    · exact Or.inl rfl

theorem postToken_effect (env : PostEnv) (occasion : Occasion) (ctx : RequestContext) (body : BodyFields) :
    (postToken env occasion ctx body).2 = .nothing ∨
    ∃ id random fields now, (postToken env occasion ctx body).2 = .access (.issue id random fields now) := by
  unfold postToken
  split
  · exact Or.inl rfl
  · exact Or.inr ⟨_, _, _, _, rfl⟩

/-- **What a request changes, by its route**: a login opens a session, and a write has found the administrator's session good
under the configuration as it is now. -/
theorem postRouted_effect {effect : PostEffect} (h : (postRouted env occasion svc req r ctx body).2 = effect) :
    match effect with
    | .nothing => True
    | .access (.login secret hash secure now) => r.isLogin = true ∧
        ∃ password, ctx.current.adminPasswordHash = some hash ∧ verifyPassword env.pbkdf2 password hash = true ∧
          secret = occasion.sessionSecret ∧ secure = ctx.client.secure ∧ now = env.time
    | .access (.use ..) => False
    | .access _ => r.isLogin = false
    | .write _ => r.isLogin = false ∧ ∃ current, loadAdminConfig env occasion ctx.admin = .ok current := by
  unfold postRouted at h
  split at h
  · rename_i hlogin
    obtain hnothing | ⟨action, haction⟩ := postLogin_effect env occasion ctx body
    · rw [hnothing] at h
      subst h
      trivial
    · obtain ⟨hash, password, hhash, hverified, rfl⟩ := postLogin_access haction
      rw [haction] at h
      subst h
      exact ⟨hlogin, password, hhash, hverified, rfl, rfl, rfl⟩
  rename_i hlogin
  rw [Bool.not_eq_true] at hlogin
  split at h
  · subst h
    exact hlogin
  split at h
  · obtain hnothing | ⟨id, random, fields, now, hissue⟩ := postToken_effect env occasion ctx body
    · rw [hnothing] at h
      subst h
      trivial
    · rw [hissue] at h
      subst h
      exact hlogin
  split at h
  · subst h
    exact hlogin
  split at h
  · subst h
    trivial
  cases hload : loadAdminConfig env occasion ctx.admin with
  | error response =>
    rw [hload] at h
    subst h
    trivial
  | ok current =>
    rw [hload] at h
    subst h
    exact ⟨hlogin, current, rfl⟩

theorem doPost_effect {response : WebResponse} {effect : PostEffect} (h : doPost env occasion svc req = some (response, effect))
    (hsome : effect ≠ .nothing) : ∃ ctx body, postGates env svc req (postRoute req.path) = .ok (ctx, body) ∧
      (postRouted env occasion svc req (postRoute req.path) ctx body).2 = effect := by
  obtain ⟨-, h⟩ := Option.ite_none_left_eq_some.1 h
  dsimp only at h
  split at h
  · cases h
    exact absurd rfl hsome
  · rename_i ctx body hgates
    exact ⟨ctx, body, hgates, congrArg Prod.snd (Option.some.inj h)⟩

/-- What only a `POST` does. -/
theorem post_of_effect {x : Exchange} {effect : PostEffect} (h : x.effect env access = some effect) (hsome : effect ≠ .nothing)
    (huse : ∀ secret now, effect ≠ .access (.use secret now)) : ∃ req ctx body, x.request = .post req ∧
      postGates (env.at x.occasion) (x.service access) req (postRoute req.path) = .ok (ctx, body) ∧
      (postRouted (env.at x.occasion) x.occasion (x.service access) req (postRoute req.path) ctx body).2 = effect := by
  unfold Exchange.effect at h
  split at h
  · split at h
    · rename_i action haction
      unfold getAction at haction
      dsimp only at haction
      split at haction
      · cases haction
      split at haction
      · cases haction
      split at haction
      · cases haction
        cases h
        exact absurd rfl (huse _ _)
      · cases haction
    · cases h
      exact absurd rfl hsome
  · rename_i req hreq
    obtain ⟨⟨response, effect'⟩, hpost, heffect⟩ := Option.map_eq_some_iff.1 h
    obtain rfl : effect' = effect := heffect
    obtain ⟨ctx, body, hgates, hrouted⟩ := doPost_effect hpost hsome
    exact ⟨req, ctx, body, hreq, hgates, hrouted⟩

theorem login_of_effect {x : Exchange} {secret hash : Str} {secure : Bool} {now : Rat}
    (h : x.effect env access = some (.access (.login secret hash secure now))) :
    secret = x.occasion.sessionSecret ∧ now = x.occasion.time ∧ x.LogsIn env access hash secure := by
  obtain ⟨req, ctx, body, hreq, hgates, hrouted⟩ := post_of_effect h (by rintro ⟨⟩) (by rintro _ _ ⟨⟩)
  obtain ⟨hlogin, password, hhash, hverified, rfl, rfl, rfl⟩ := postRouted_effect hrouted
  obtain ⟨hcontext, horigin, htransport, -⟩ := postGates_ok hgates
  exact ⟨rfl, rfl, req, ctx, password, ⟨hreq, current_of_context hcontext, hcontext⟩, hlogin, hhash, rfl, htransport, horigin,
    hverified⟩

/-- The session of a request, and what stands in it. -/
theorem admin_of_gates (h : context env.toWebEnv svc req.toWebRequest = .ok ctx) {admin : AdminSession}
    (hadmin : ctx.admin = some admin) :
    ∃ hash, ctx.current.adminPasswordHash = some hash ∧
      (svc.access.session env.hashes (cookieSecret env req) (some hash) ctx.client.secure env.time).isSome = true ∧
      admin.csrf = env.hashes.csrfFor (cookieSecret env req) ∧ admin.passwordFingerprint = env.hashes.digest hash := by
  unfold context at h
  split at h
  · cases h
  split at h
  · cases h
  split at h
  · cases h
  split at h
  · cases h
  rename_i current _ _ _ client _ _ secret hcookie
  cases h
  have hsecret : cookieSecret env req = secret.getD [] := by
    rw [cookieSecret, hcookie]
    rfl
  rw [hsecret]
  dsimp only at hadmin
  cases hpassword : current.adminPasswordHash with
  | none =>
    rw [hpassword] at hadmin
    cases hadmin
  | some hash =>
    rw [hpassword] at hadmin
    refine ⟨hash, rfl, by rw [hadmin]; rfl, ?_⟩
    unfold AccessStore.session at hadmin
    dsimp only at hadmin
    split at hadmin
    · cases hadmin
    split at hadmin
    · cases hadmin
    split at hadmin
    · cases hadmin
    split at hadmin
    · cases hadmin
    · rename_i hfingerprint
      cases hadmin
      exact ⟨rfl, not_not.1 hfingerprint⟩

/-- The administrator of a request: a login of the run with the secret of the request's cookie, under the password that is
configured now, less than twelve hours ago, over no better transport, and ended by nothing since. -/
def LoggedIn (env : PostEnv) (steps : List (Exchange × PostEffect)) (secret hash : Str) (secure : Bool) (now : Rat) : Prop :=
  ∃ before access login effect after opened encrypted, steps = before ++ (login, effect) :: after ∧
    Run (ExchangeStep env) AccessStore.empty before access ∧ login.LogsIn env access opened encrypted ∧
    env.hashes.digest login.occasion.sessionSecret = env.hashes.digest secret ∧
      env.hashes.digest opened = env.hashes.digest hash ∧
    now < login.occasion.time + AccessStore.sessionSeconds ∧ (encrypted = true → secure = true) ∧
    ∀ step ∈ after, ∀ action, step.2 = .access action →
      action.Spares env.hashes
        (AccessStore.sessionRow env.hashes login.occasion.sessionSecret opened encrypted login.occasion.time)

theorem loggedIn_of_standing (h : Run (ExchangeStep env) AccessStore.empty steps access)
    {row : AdminSessionRow} {secret hash : Str}
    {secure : Bool} {now : Rat} (hstanding : Standing env.hashes (steps.filterMap fun step => step.2.action) row)
    (hsecret : row.secretHash = env.hashes.digest secret) (hpassword : row.passwordFingerprint = env.hashes.digest hash)
    (hlive : now < row.expiresAt) (hsecure : row.secure = true → secure = true) : LoggedIn env steps secret hash secure now := by
  obtain ⟨before, action, after, hsplit, hopens, hspared⟩ := hstanding
  obtain ⟨front, rest, rfl, -, hrest⟩ := List.filterMap_eq_append_iff.1 hsplit
  obtain ⟨quiet, ⟨login, effect⟩, later, rfl, -, haction, rfl⟩ := List.filterMap_eq_cons_iff.1 hrest
  have hrun : Run (ExchangeStep env) AccessStore.empty ((front ++ quiet) ++ (login, effect) :: later) access := by
    rwa [List.append_assoc]
  obtain ⟨access₁, access₂, hbefore, ⟨heffect, -⟩, -⟩ := hrun.step_of_mem
  obtain rfl : effect = .access action := by
    cases effect <;> cases haction
    rfl
  cases action with
  | login issued opened encrypted time =>
    obtain ⟨hissued, htime, hlogs⟩ := login_of_effect heffect
    dsimp only at hissued htime hlogs
    rw [hissued, htime] at hopens
    subst hopens
    refine ⟨front ++ quiet, access₁, login, _, later, opened, encrypted, (List.append_assoc ..).symm, hbefore, hlogs, hsecret,
      hpassword, hlive, hsecure, ?_⟩
    intro step hstep action heffect
    refine hspared action (List.mem_filterMap.2 ⟨step, hstep, ?_⟩)
    rw [heffect]
    rfl
  | _ => cases hopens

/-- **Whoever writes has logged in**: in every run of requests, under any changes of the configuration, whatever only an
administrator may change is changed by a request from the site itself over an allowed transport, with the cookie of a
login that nothing has ended and its CSRF token; and a write behind the gates finds the password unchanged once more. -/
theorem write_authorized (h : Run (ExchangeStep env) AccessStore.empty steps access) {x : Exchange} {effect : PostEffect}
    (heffect : x.effect env access = some effect) (hprivileged : effect.privileged = true) :
    ∃ req ctx hash, x.PostedIn env access req ctx ∧ ctx.current.adminPasswordHash = some hash ∧
      (ctx.client.credentialsAllowed || ctx.current.allowInsecureHttp) = true ∧
      sameOrigin (env.at x.occasion) req ctx.client = true ∧
      (req.get "X-CSRF-Token").getD [] = env.hashes.csrfFor (cookieSecret (env.at x.occasion) req) ∧
      LoggedIn env steps (cookieSecret (env.at x.occasion) req) hash ctx.client.secure x.occasion.time ∧
      ∀ w, effect = .write w → ∃ reloaded hash', x.occasion.reloaded = some reloaded ∧ reloaded.adminPasswordHash = some hash' ∧
        env.hashes.digest hash' = env.hashes.digest hash := by
  obtain ⟨req, ctx, body, hreq, hgates, hrouted⟩ := post_of_effect heffect (by rintro rfl; cases hprivileged)
    (by rintro _ _ rfl; cases hprivileged)
  obtain ⟨hcontext, horigin, htransport, hcsrf⟩ := postGates_ok hgates
  have hrouted := postRouted_effect hrouted
  have hlogin : (postRoute req.path).isLogin = false := by
    cases effect with
    | nothing => cases hprivileged
    | write w => exact hrouted.1
    | access action =>
      cases action with
      | login => cases hprivileged
      | use => cases hprivileged
      | _ => exact hrouted
  obtain ⟨admin, hadmin, htoken⟩ := csrfChecked_ok (hcsrf hlogin)
  obtain ⟨hash, hhash, hsession, hadminCsrf, hfingerprint⟩ := admin_of_gates hcontext hadmin
  obtain ⟨-, -, -, row, hstanding, hsecret, hpassword, hlive, hsecure⟩ :=
    (session_of_run (accessRun_of_exchanges h) _ _ _ _).1 hsession
  refine ⟨req, ctx, hash, ⟨hreq, current_of_context hcontext, hcontext⟩, hhash, htransport, horigin,
    htoken.trans hadminCsrf, loggedIn_of_standing h hstanding hsecret hpassword hlive hsecure, ?_⟩
  rintro w rfl
  obtain ⟨-, current, hload⟩ := hrouted
  obtain ⟨hreloaded, hash', session, hhash', hsession', hsame⟩ := loadAdminConfig_ok hload
  obtain rfl : admin = session := Option.some.inj (hadmin.symm.trans hsession')
  exact ⟨current, hash', hreloaded, hhash', hsame.symm.trans hfingerprint⟩

end

/-! ## A login and a write -/

/-- `{"password": "correct horse"}`. -/
def loginBody : Bytes := Utf8.utf8Bytes "\x7b\x22password\x22: \x22correct horse\x22\x7d".toList

/-- The SHA-256 of `session`. -/
def sessionDigest : Str := hex [
  0x3f, 0x3a, 0xf1, 0xec, 0xeb, 0xbd, 0x14, 0x10, 0xab, 0x41, 0x7e, 0xc0, 0xd2, 0x7b, 0xbf, 0xcb,
  0x5d, 0x34, 0x0e, 0x17, 0x7a, 0xe1, 0x59, 0xb5, 0x9f, 0xc8, 0x62, 0x6c, 0x2d, 0xfd, 0x91, 0x75]

/-- The CSRF token of `session`. -/
def sessionCsrf : Str := hex [
  0x8b, 0x0c, 0x6a, 0x22, 0x9c, 0x26, 0x39, 0xa1, 0x9a, 0x25, 0xbf, 0x87, 0xc1, 0x7e, 0xd3, 0xf0,
  0x00, 0x07, 0xbc, 0xba, 0xfc, 0x5d, 0x6a, 0xf0, 0xac, 0x54, 0x6d, 0x6b, 0x1d, 0x0a, 0xc2, 0x28]

/-- The SHA-256 of `demoHash`. -/
def hashDigest : Str := hex [
  0xc9, 0x8f, 0xa7, 0xc3, 0xae, 0x29, 0x7e, 0x76, 0xce, 0xac, 0x02, 0xc1, 0x73, 0x1e, 0xa8, 0xae,
  0x8a, 0xaf, 0x54, 0x00, 0x5b, 0xa8, 0xb4, 0x66, 0xe5, 0xc8, 0x65, 0x38, 0xf0, 0x18, 0x27, 0xc5]

def plainPostEnv : PostEnv :=
  { plainEnv with
    hashes := .ofTables [("session".toList, sessionDigest), (demoHash, hashDigest)] [("session".toList, sessionCsrf)]
    loadCookie := fun cookie => some (if cookie = "repowatch_session=session".toList then some "session".toList else none)
    pbkdf2 := demoPbkdf2
    contentType := fun header => header.getD []
    loadsJson := fun body =>
      if body = loginBody then some (.object [("password".toList, .string "correct horse".toList)]) else none
    write := fun _ _ _ _ => ⟨201, .json .null, []⟩ }

theorem no_proxies : ∀ network ∈ ([] : List Str), (Ip.parseNetwork network).isSome = true := fun _ h => absurd h List.not_mem_nil

def plainConfig : WebConfig where
  trustedProxies := []
  proxiesOk := no_proxies
  config := ⟨300, [], [], {}, List.nodup_nil, NginxConfig.versionOk_default⟩
  guestReadOnly := false
  tokenRepoRestrictions := false
  allowInsecureHttp := false
  metricsAllowedNetworks := []
  adminPasswordHash := some demoHash

def plainExchange (time : Rat) (path : String) (headers : List (String × Str)) (body : Bytes) : Exchange where
  occasion := ⟨time, 0, some plainConfig, "session".toList, ['i'], ['r']⟩
  current := some plainConfig
  db := .empty
  request := .post {
    path := path.toList
    headers := fun name => (headers.filter fun h => h.1.toList = name).map Prod.snd
    peer := "127.0.0.1".toList
    tls := false
    read := fun n => .bytes (body.take n) }

def plainLogin : Exchange :=
  plainExchange 0 "/api/auth/login"
    [("Host", ['h']), ("Content-Length", "29".toList), ("Content-Type", "application/json".toList)] loginBody

def plainAddition : Exchange :=
  plainExchange 1 "/api/repos"
    [("Host", ['h']), ("Cookie", "repowatch_session=session".toList), ("X-CSRF-Token", sessionCsrf)] []

theorem plainLogin_effect :
    plainLogin.effect plainPostEnv .empty = some (.access (.login "session".toList demoHash false 0)) := rfl

/-- The store after the login. -/
def plainAccess : AccessStore :=
  { AccessStore.empty with sessions := Table.empty.upsert ⟨sessionDigest, hashDigest, 43200, false⟩ }

theorem plainAccess_run : Run (ExchangeStep plainPostEnv) AccessStore.empty
    [(plainLogin, .access (.login "session".toList demoHash false 0))] plainAccess := by
  have hrow : AccessStore.sessionRow plainPostEnv.hashes "session".toList demoHash false 0 =
      ⟨sessionDigest, hashDigest, 43200, false⟩ := by
    unfold AccessStore.sessionRow AccessStore.sessionSeconds
    norm_num
    decide +kernel
  have hcreate : AccessStore.empty.createSession plainPostEnv.hashes "session".toList demoHash false 0 =
      some plainAccess := by
    unfold AccessStore.createSession
    rw [hrow]
    rfl
  have hstep : ExchangeStep plainPostEnv .empty (plainLogin, .access (.login "session".toList demoHash false 0)) plainAccess :=
    ⟨plainLogin_effect, hcreate⟩
  exact Run.snoc (.nil _) hstep

theorem plainAddition_effect : plainAddition.effect plainPostEnv plainAccess = some (.write .addRepo) := rfl

/-- A repository is added after a login with the password. -/
theorem write_authorized_plain : ∃ req ctx hash, plainAddition.PostedIn plainPostEnv plainAccess req ctx ∧
    ctx.current.adminPasswordHash = some hash ∧ (req.get "X-CSRF-Token").getD [] = sessionCsrf ∧
    LoggedIn plainPostEnv [(plainLogin, .access (.login "session".toList demoHash false 0))] "session".toList hash
      ctx.client.secure 1 := by
  obtain ⟨req, ctx, hash, hposted, hhash, -, -, htoken, hlogged, -⟩ :=
    write_authorized plainAccess_run plainAddition_effect rfl
  have hreq := hposted.1
  cases hreq
  exact ⟨_, ctx, hash, hposted, hhash, rfl, hlogged⟩

end RepoWatch
