import RepoWatch.Access
import RepoWatch.ClientContext
import RepoWatch.Status
/-!
# Handler — who gets which page

`doGet` is a chain of gates: public pages, the request's context, the metrics network, and for everything else a guest, a
host token or an administrator.  `doGet_gated` says what a request without a session gets, and `doGet_scoped` that a token
for some repositories shows nothing of the others.
-/
namespace RepoWatch

open Lib

/-- The status server's configuration, as far as the gates read it. -/
structure WebConfig extends StatusServerConfig where
  config : Config
  guestReadOnly : Bool
  tokenRepoRestrictions : Bool
  allowInsecureHttp : Bool
  metricsAllowedNetworks : List Str
  adminPasswordHash : Option Str

/-- What a request is answered from; `current` is the configuration if it loads. -/
structure Service where
  current : Option WebConfig
  db : Database
  access : AccessStore

structure WebRequest where
  path : Str
  headers : Str → List Str
  peer : Str
  tls : Bool

/-- `headers.get`. -/
def WebRequest.get (req : WebRequest) (name : String) : Option Str := (req.headers name.toList).head?

/-! ## Responses -/

inductive Body where
  | json (payload : Json)
  | html (page : Str)
  | text (s : Str)
  | asset (contentType content : Str)

/-- The headers are those besides the content's type and length. -/
structure WebResponse where
  status : Nat
  body : Body
  headers : List (Str × Str) := []

namespace WebResponse

def error (message : String) (status : Nat) : WebResponse := ⟨status, .json (errorPayload message.toList), []⟩

def configUnavailable : WebResponse := error "configuration unavailable" 503
def invalidHeaders : WebResponse := error "invalid request headers" 400
def metricsDenied : WebResponse := error "metrics access denied" 403
def httpsRequired : WebResponse := error "HTTPS required" 403
def loginRequired : WebResponse := error "administrator login required" 401
def repositoryDenied : WebResponse := error "repository access denied" 403
def notFound : WebResponse := error "not found" 404

def tokenRequired : WebResponse :=
  { error "valid host token required" 401 with headers := [("WWW-Authenticate".toList, "Bearer".toList)] }

def toLogin : WebResponse := ⟨303, .html [], [("Location".toList, "/login".toList)]⟩

end WebResponse

/-! ## Routes -/

/-- `_normalize_v1_path`. -/
def normalizeV1Path (path : Str) : Str :=
  if startsWith path "/api/v1/".toList then
    let rest := path.drop "/api/v1".length
    if rest ∈ ["/healthz", "/metrics", "/status.json"].map String.toList ∨ startsWith rest "/status/".toList then rest
    else path
  else path

structure WebRoute where
  path : Str
  parts : List Str
  query : Str

/-- What `do_GET` reads of `self.path`. -/
def route (url : Str) : WebRoute :=
  let path := normalizeV1Path (urlparsePath url)
  ⟨path, (path.splitOn '/').filter (· ≠ []), (urlsplit url).query⟩

/-- `urlsplit` raises on the netloc. -/
def netlocRaises (netlocOk : Str → Bool) (url : Str) : Bool :=
  let netloc := (urlsplit url).netloc
  let bracketed := (partition ']' ((partition '[' netloc).2.getD [])).1
  !urlsplitOk url || (netloc.contains '[' && !bracketedHostOk bracketed) || !netlocOk netloc

namespace WebRoute
variable (r : WebRoute)

/-- The repository of `/status/<id>.json`. -/
def statusFile : Option Str :=
  match r.parts with
  | [dir, file] =>
    if dir = "status".toList ∧ ".json".toList <:+ file then some (file.take (file.length - ".json".length)) else none
  | _ => none

def isStatus : Bool := r.path = "/status.json".toList || r.statusFile.isSome

def isHistory : Bool :=
  match r.parts with
  | [dir, _, file] => dir = "status".toList && file = "history".toList
  | _ => false

/-- The repository and the page of `/api/repos/<id>/<page>`. -/
def repoPage : Option (Str × Str) :=
  match r.parts with
  | [api, repos, id, page] => if api = "api".toList ∧ repos = "repos".toList then some (id, page) else none
  | _ => none

def isDashboard : Bool := ["/", "/dashboard"].any fun p => r.path = p.toList

def guestRoute : Bool :=
  (["/", "/dashboard", "/api/auth/session", "/api/repos", "/api/requests", "/api/requests/summary", "/api/config",
    "/api/prefetch-efficiency"].any fun p => r.path = p.toList) || r.isStatus || r.isHistory ||
    r.repoPage.any fun p => ["packages", "warmed", "bans"].any fun page => p.2 = page.toList

def isPublic : Bool :=
  r.path = "/healthz".toList || r.path = "/login".toList || startsWith r.path "/static/".toList

end WebRoute

/-- The pages behind the gates, besides the status. -/
inductive WebPage where
  | dashboard
  | session (guest : Bool)
  | tokens
  | history (repoId query : Str)
  | repos
  | packages (repoId query : Str)
  | warmed (repoId query : Str)
  | bans (repoId : Str)
  | purgeCandidates (repoId : Str)
  | config
  | stats (query : Str)
  | completeness (query : Str)
  | dedup
  | orphans
  | zombies
  | requestsSummary (query : Str)
  | requests (query : Str)
  | prefetchEfficiency

/-- The page of a route, in the order of the code's tests; `none` is not found. -/
def WebRoute.page (r : WebRoute) (guest : Bool) : Option WebPage :=
  if r.isDashboard then some .dashboard
  else if r.path = "/api/auth/session".toList then some (.session guest)
  else if r.path = "/api/tokens".toList then some .tokens
  else if r.isHistory then r.parts[1]?.map fun id => .history id r.query
  else if r.path = "/api/repos".toList then some .repos
  else match r.repoPage.bind (fun p =>
      if p.2 = "packages".toList then some (WebPage.packages p.1 r.query)
      else if p.2 = "warmed".toList then some (.warmed p.1 r.query)
      else if p.2 = "bans".toList then some (.bans p.1)
      else if p.2 = "purge-candidates".toList then some (.purgeCandidates p.1)
      else none) with
    | some page => some page
    | none =>
      if r.path = "/api/config".toList then some .config
      else if r.path = "/api/stats".toList then some (.stats r.query)
      else if r.path = "/api/storage/completeness".toList then some (.completeness r.query)
      else if r.path = "/api/storage/dedup".toList then some .dedup
      else if r.path = "/api/storage/orphans".toList then some .orphans
      else if r.path = "/api/storage/zombies".toList then some .zombies
      else if r.path = "/api/requests/summary".toList then some (.requestsSummary r.query)
      else if r.path = "/api/requests".toList then some (.requests r.query)
      else if r.path = "/api/prefetch-efficiency".toList then some .prefetchEfficiency
      else none

/-! ## Gates -/

structure RequestContext where
  current : WebConfig
  client : ClientContext
  admin : Option AdminSession

/-- The libraries and files that the handler uses, the clocks it reads, and the pages behind its gates. -/
structure WebEnv where
  lower : Str → Str
  netlocOk : Str → Bool
  hashes : Hashes
  fromisoformat : Str → Option Int
  -- the session cookie that `SimpleCookie` finds, or `none` where it raises
  loadCookie : Str → Option (Option Str)
  loginPage : Str
  asset : Str → Option (Str × Str)
  time : Rat
  clock : Int
  metrics : Service → WebResponse
  page : Service → RequestContext → WebPage → WebResponse

def securityHeaders : List String :=
  ["Host", "X-Forwarded-For", "X-Forwarded-Proto", "X-Forwarded-Host", "Authorization", "Cookie", "Origin", "X-CSRF-Token"]

section
variable (env : WebEnv) (svc : Service) (req : WebRequest)

/-- `_context`: the context of the request, or the response that ends it. -/
def context : Except WebResponse RequestContext :=
  match svc.current with
  | none => .error .configUnavailable
  | some current =>
    if securityHeaders.any (fun name => 1 < (req.headers name.toList).length) then .error .invalidHeaders
    else match clientContext env.lower env.netlocOk req.peer (fun name => (req.headers name).head?) req.tls
        current.toStatusServerConfig with
      | .error _ => .error .invalidHeaders
      | .ok client =>
        match env.loadCookie ((req.get "Cookie").getD []) with
        | none => .error .invalidHeaders
        | some secret =>
          .ok ⟨current, client, svc.access.session env.hashes (secret.getD []) current.adminPasswordHash client.secure env.time⟩

/-- `credentials_allowed or allow_insecure_http`. -/
def RequestContext.transportAllowed (ctx : RequestContext) : Bool :=
  ctx.client.credentialsAllowed || ctx.current.allowInsecureHttp

/-- `_admin_required`. -/
def adminRequired (ctx : RequestContext) : Except WebResponse Unit :=
  if ctx.transportAllowed = false then .error .httpsRequired
  else if ctx.admin.isNone then .error .loginRequired
  else .ok ()

/-- The grant of the `Authorization` header. -/
def bearerGrant : Option (Option (List Str)) :=
  let authorization := (req.get "Authorization").getD []
  if startsWith authorization "Bearer ".toList then
    svc.access.tokenAccess env.hashes (authorization.drop "Bearer ".length) env.time
  else none

/-- Whether the request is a guest's, and the repositories it is restricted to. -/
def authorize (ctx : RequestContext) (r : WebRoute) : Except WebResponse (Bool × Option (List Str)) :=
  if ctx.current.guestReadOnly && ctx.admin.isNone && r.guestRoute then .ok (true, none)
  else if r.isStatus && ctx.admin.isNone then
    match ctx.transportAllowed, bearerGrant env svc req with
    | true, some grant =>
      let allowed := if ctx.current.tokenRepoRestrictions then grant else none
      if r.path ≠ "/status.json".toList ∧ (allowed.any fun ids => decide (r.statusFile.getD [] ∉ ids)) = true then
        .error .repositoryDenied
      else .ok (false, allowed)
    | _, _ => .error .tokenRequired
  else if r.isDashboard && ctx.admin.isNone then .error .toLogin
  else (adminRequired ctx).map fun _ => (false, none)

/-- The part of `do_GET` behind the gates; `none` where the handler raises. -/
def serveAuthorized (ctx : RequestContext) (r : WebRoute) (guest : Bool) (allowed : Option (List Str)) : Option WebResponse :=
  let payload := statusPayload env.fromisoformat env.clock ctx.current.config svc.db
  if r.path = "/status.json".toList then
    (payload none).map fun p => match allowed with
      | some ids => ⟨p.1, .json (if p.1 = 200 then restrict ids p.2 else p.2), []⟩
      | none => ⟨p.1, .json p.2, []⟩
  else match r.statusFile with
    | some id => (payload (some id)).map fun p => ⟨p.1, .json p.2, []⟩
    | none => some (match r.page guest with
      | some page => env.page svc ctx page
      | none => .notFound)

/-- The pages that need no context. -/
def servePublic (r : WebRoute) : Option WebResponse :=
  if r.path = "/healthz".toList then
    (healthzStatus env.fromisoformat env.clock (svc.current.map WebConfig.config) svc.db).map fun status =>
      ⟨status, .json (.object [("healthy".toList, .bool (status = 200))]), []⟩
  else if r.path = "/login".toList then some ⟨200, .html env.loginPage, []⟩
  else some (match env.asset r.path with
    | none => .notFound
    | some (contentType, content) => ⟨200, .asset contentType content, []⟩)

/-- The client's network may read the metrics. -/
def RequestContext.metricsAllowed (ctx : RequestContext) : Bool :=
  ctx.client.clientIp.any fun ip => ip ≠ [] && inNetworks ip ctx.current.metricsAllowedNetworks

/-- `do_GET`: the response, or `none` where it raises. -/
def doGet : Option WebResponse :=
  if netlocRaises env.netlocOk req.path then none
  else
    let r := route req.path
    if r.isPublic then servePublic env svc r
    else match context env svc req with
      | .error response => some response
      | .ok ctx =>
        if r.path = "/metrics".toList then some (if ctx.metricsAllowed then env.metrics svc else .metricsDenied)
        else match authorize env svc req ctx r with
          | .error response => some response
          | .ok (guest, allowed) => serveAuthorized env svc ctx r guest allowed

end

/-! ## Without a session -/

section
variable {env : WebEnv} {svc : Service} {req : WebRequest} {ctx : RequestContext} {current : WebConfig} {response : WebResponse}

theorem current_of_context (h : context env svc req = .ok ctx) : svc.current = some ctx.current := by
  unfold context at h
  split at h
  · cases h
  · rename_i current hcurrent
    split at h
    · cases h
    · split at h
      · cases h
      · split at h
        · cases h
        · cases h
          exact hcurrent

theorem admin_of_context (h : context env svc req = .ok ctx) : ∃ secret, ctx.admin =
    svc.access.session env.hashes secret ctx.current.adminPasswordHash ctx.client.secure env.time := by
  unfold context at h
  split at h
  · cases h
  · split at h
    · cases h
    · split at h
      · cases h
      · split at h
        · cases h
        · cases h
          exact ⟨_, rfl⟩

/-- A context fails on the headers alone when the configuration is there. -/
theorem context_error (hcurrent : svc.current = some current) (h : context env svc req = .error response) :
    response = .invalidHeaders := by
  unfold context at h
  rw [hcurrent] at h
  dsimp only at h
  split at h
  · cases h
    rfl
  · split at h
    · cases h
      rfl
    · split at h
      · cases h
        rfl
      · cases h

/-- An administrator's session is presented with the request. -/
def Administrator (env : WebEnv) (svc : Service) (req : WebRequest) : Prop :=
  ∃ ctx, context env svc req = .ok ctx ∧ ctx.admin.isSome = true

/-- A live token is presented over an allowed transport, and covers the repository asked for. -/
def HasToken (env : WebEnv) (svc : Service) (req : WebRequest) (ctx : RequestContext) (r : WebRoute) : Prop :=
  ctx.transportAllowed = true ∧ ∃ secret token, req.get "Authorization" = some ("Bearer ".toList ++ secret) ∧
    svc.access.tokenRow (env.hashes.digest secret) = some token ∧ token.Live env.time ∧
    (ctx.current.tokenRepoRestrictions = true → ∀ ids, token.repoIds = some ids → ∀ id, r.statusFile = some id → id ∈ ids)

theorem bearerGrant_eq_some {grant : Option (List Str)} (h : bearerGrant env svc req = some grant) :
    ∃ secret token, req.get "Authorization" = some ("Bearer ".toList ++ secret) ∧
      svc.access.tokenRow (env.hashes.digest secret) = some token ∧ token.Live env.time ∧ token.repoIds = grant := by
  obtain ⟨hbearer, h⟩ := Option.ite_none_right_eq_some.1 h
  obtain ⟨-, -, token, hrow, hlive, hids⟩ := AccessStore.tokenAccess_eq_some.1 h
  obtain ⟨secret, hsecret⟩ := startsWith_iff.1 hbearer
  rw [← hsecret] at hrow
  refine ⟨secret, token, ?_, hrow, hlive, hids⟩
  cases hauth : req.get "Authorization" with
  | none =>
    rw [hauth] at hsecret
    cases hsecret
  | some authorization =>
    rw [hauth] at hsecret
    exact congrArg some hsecret.symm

theorem statusFile_of_path {r : WebRoute} (hr : r = route req.path) (hpath : r.path = "/status.json".toList) :
    r.statusFile = none := by
  have hparts : r.parts = (r.path.splitOn '/').filter (· ≠ []) := by
    rw [hr]
    rfl
  unfold WebRoute.statusFile
  rw [hparts, hpath]
  rfl

/-- **The status gate without a session**: a refusal, or a live token that covers what is asked. -/
theorem authorize_status {r : WebRoute} (hr : r = route req.path) (hguest : ctx.current.guestReadOnly = false)
    (hadmin : ctx.admin = none) (hstatus : r.isStatus = true) :
    match authorize env svc req ctx r with
    | .error response => response = .tokenRequired ∨ response = .repositoryDenied
    | .ok _ => HasToken env svc req ctx r := by
  unfold authorize
  rw [hguest, hadmin, hstatus]
  simp only [Bool.false_and, Bool.false_eq_true, if_false, Option.isNone_none, Bool.and_true, if_true]
  cases htransport : ctx.transportAllowed with
  | false => exact Or.inl rfl
  | true =>
    cases hgrant : bearerGrant env svc req with
    | none => exact Or.inl rfl
    | some grant =>
      obtain ⟨secret, token, hauth, hrow, hlive, hids⟩ := bearerGrant_eq_some hgrant
      dsimp only
      set allowed := if ctx.current.tokenRepoRestrictions = true then grant else none with hallowed
      by_cases hdenied : r.path ≠ "/status.json".toList ∧ (allowed.any fun ids => decide (r.statusFile.getD [] ∉ ids)) = true
      · rw [if_pos hdenied]
        exact Or.inr rfl
      · rw [if_neg hdenied]
        refine ⟨htransport, secret, token, hauth, hrow, hlive, fun hrestrict ids hids' id hid => ?_⟩
        by_contra hno
        refine hdenied ⟨fun hpath => ?_, ?_⟩
        · rw [statusFile_of_path hr hpath] at hid
          cases hid
        · rw [hallowed, if_pos hrestrict, ← hids, hids', hid]
          simpa using hno

/-- **Every other page without a session** is refused. -/
theorem authorize_other {r : WebRoute} (hguest : ctx.current.guestReadOnly = false) (hadmin : ctx.admin = none)
    (hstatus : r.isStatus = false) : ∃ response, authorize env svc req ctx r = .error response ∧
      (response = .toLogin ∨ response = .httpsRequired ∨ response = .loginRequired) := by
  unfold authorize adminRequired
  rw [hguest, hadmin, hstatus]
  simp only [Bool.false_and, Bool.false_eq_true, if_false, Option.isNone_none, Bool.and_true, if_true]
  split
  · exact ⟨_, rfl, Or.inl rfl⟩
  · split
    · exact ⟨_, rfl, Or.inr (Or.inl rfl)⟩
    · exact ⟨_, rfl, Or.inr (Or.inr rfl)⟩

/-- What may answer a request without a session: the headers are refused, or the metrics are shown to their networks, the
status to a token, and nothing else. -/
def Gated (env : WebEnv) (svc : Service) (req : WebRequest) (response : WebResponse) : Prop :=
  response = .invalidHeaders ∨ ∃ ctx, context env svc req = .ok ctx ∧
    if (route req.path).path = "/metrics".toList then
      response = .metricsDenied ∨ (ctx.metricsAllowed = true ∧ response = env.metrics svc)
    else if (route req.path).isStatus = true then
      response = .tokenRequired ∨ response = .repositoryDenied ∨ HasToken env svc req ctx (route req.path)
    else response = .toLogin ∨ response = .httpsRequired ∨ response = .loginRequired

/-- **A request without a session** is gated, outside the public pages and without guests. -/
theorem doGet_gated (hcurrent : svc.current = some current) (hguest : current.guestReadOnly = false)
    (hadmin : ¬ Administrator env svc req) (hpublic : (route req.path).isPublic = false)
    (h : doGet env svc req = some response) : Gated env svc req response := by
  obtain ⟨-, h⟩ := Option.ite_none_left_eq_some.1 h
  dsimp only at h
  rw [hpublic] at h
  simp only [Bool.false_eq_true, if_false] at h
  cases hctx : context env svc req with
  | error refused =>
    rw [hctx] at h
    cases h
    exact Or.inl (context_error hcurrent hctx)
  | ok ctx =>
    rw [hctx] at h
    dsimp only at h
    have hsame : current = ctx.current := Option.some.inj (hcurrent.symm.trans (current_of_context hctx))
    subst hsame
    have hnone : ctx.admin = none := by
      by_contra hsome
      exact hadmin ⟨ctx, hctx, Option.isSome_iff_ne_none.2 hsome⟩
    refine Or.inr ⟨ctx, hctx, ?_⟩
    by_cases hmetrics : (route req.path).path = "/metrics".toList
    · rw [if_pos hmetrics] at h ⊢
      cases h
      cases hallowed : ctx.metricsAllowed with
      | true => exact Or.inr ⟨rfl, rfl⟩
      | false => exact Or.inl rfl
    · rw [if_neg hmetrics] at h ⊢
      by_cases hstatus : (route req.path).isStatus = true
      · rw [if_pos hstatus]
        have hgate := @authorize_status env svc req ctx _ rfl hguest hnone hstatus
        cases hauth : authorize env svc req ctx (route req.path) with
        | error refused =>
          rw [hauth] at h hgate
          cases h
          exact hgate.imp_right Or.inl
        | ok out =>
          rw [hauth] at hgate
          exact Or.inr (Or.inr hgate)
      · rw [if_neg hstatus]
        obtain ⟨refused, hauth, hwhich⟩ := @authorize_other env svc req ctx _ hguest hnone (Bool.eq_false_iff.2 hstatus)
        rw [hauth] at h
        cases h
        exact hwhich

end

/-! ## With a token for some repositories -/

/-- Two services with the same settings and tokens that agree on the given repositories. -/
structure SameFor (ids : List Str) (svc svc' : Service) (current current' : WebConfig) : Prop where
  loaded : svc.current = some current
  loaded' : svc'.current = some current'
  settings : current = { current' with config := current.config }
  access : svc.access = svc'.access
  agree : AgreeOn ids current.config current'.config svc.db svc'.db

section
variable {env : WebEnv} {svc svc' : Service} {req : WebRequest} {ctx : RequestContext} {current current' : WebConfig}
  {ids : List Str}

theorem isStatus_of_path {url p : Str} (h : (route url).path = p) :
    (route url).isStatus = (WebRoute.mk p ((p.splitOn '/').filter (· ≠ [])) []).isStatus := by
  subst h
  rfl

theorem SameFor.context (h : SameFor ids svc svc' current current') : RepoWatch.context env svc req =
    (RepoWatch.context env svc' req).map fun ctx => { ctx with current := { ctx.current with config := current.config } } := by
  unfold RepoWatch.context
  rw [h.loaded, h.loaded', h.settings, h.access]
  dsimp only
  split
  · rfl
  · cases clientContext env.lower env.netlocOk req.peer (fun name => (req.headers name).head?) req.tls
      current'.toStatusServerConfig with
    | error e => rfl
    | ok client => cases env.loadCookie ((req.get "Cookie").getD []) <;> rfl

theorem SameFor.context_ok (h : SameFor ids svc svc' current current') {ctx' : RequestContext}
    (hctx' : RepoWatch.context env svc' req = .ok ctx') : ∃ ctx, RepoWatch.context env svc req = .ok ctx ∧
      ctx.current = current ∧ ctx.admin = ctx'.admin ∧ ctx.transportAllowed = ctx'.transportAllowed := by
  have hctx : RepoWatch.context env svc req = _ := h.context
  rw [hctx'] at hctx
  have hcurrent := Option.some.inj ((current_of_context hctx).symm.trans h.loaded)
  exact ⟨_, hctx, hcurrent, rfl, rfl⟩

theorem SameFor.bearerGrant (h : SameFor ids svc svc' current current') :
    RepoWatch.bearerGrant env svc req = RepoWatch.bearerGrant env svc' req := by
  unfold RepoWatch.bearerGrant
  rw [h.access]

/-- The status gate for a token that names its repositories. -/
theorem authorize_scoped {r : WebRoute} (hguest : ctx.current.guestReadOnly = false) (hadmin : ctx.admin = none)
    (hrestrict : ctx.current.tokenRepoRestrictions = true) (hstatus : r.isStatus = true)
    (hgrant : bearerGrant env svc req = some (some ids)) : authorize env svc req ctx r =
      if ctx.transportAllowed = true then
        if r.path ≠ "/status.json".toList ∧ r.statusFile.getD [] ∉ ids then .error .repositoryDenied
        else .ok (false, some ids)
      else .error .tokenRequired := by
  unfold authorize
  rw [hguest, hadmin, hstatus, hrestrict, hgrant]
  simp only [Bool.false_and, Bool.false_eq_true, if_false, Option.isNone_none, Bool.and_true, if_true]
  cases ctx.transportAllowed with
  | false => rfl
  | true => simp only [if_true, Option.any_some, decide_eq_true_eq]

/-- **The status pages under a token for some repositories** depend on nothing of the others. -/
theorem SameFor.serveAuthorized (h : SameFor ids svc svc' current current') (htimes : TimesOk env.fromisoformat svc.db)
    (htimes' : TimesOk env.fromisoformat svc'.db) {ctx ctx' : RequestContext} {r : WebRoute}
    (hctx : ctx.current.config = current.config) (hctx' : ctx'.current.config = current'.config) (hstatus : r.isStatus = true)
    (hids : ¬ (r.path ≠ "/status.json".toList ∧ r.statusFile.getD [] ∉ ids)) (guest : Bool) :
    RepoWatch.serveAuthorized env svc ctx r guest (some ids) = RepoWatch.serveAuthorized env svc' ctx' r guest (some ids) := by
  unfold RepoWatch.serveAuthorized
  dsimp only
  rw [hctx, hctx']
  by_cases hpath : r.path = "/status.json".toList
  · have hpayload := @AgreeOn.statusPayload_restrict _ _ _ _ _ _ env.clock h.agree htimes htimes'
    rw [if_pos hpath, if_pos hpath]
    rw [statusPayload_eq htimes, statusPayload_eq htimes', Option.map_some, Option.map_some] at hpayload ⊢
    have hbody := (Prod.mk.inj (Option.some.inj hpayload)).2
    exact congrArg (fun body => some (WebResponse.mk 200 (.json body) [])) hbody
  · rw [if_neg hpath, if_neg hpath]
    cases hfile : r.statusFile with
    | none =>
      unfold WebRoute.isStatus at hstatus
      rw [hfile, decide_eq_false hpath] at hstatus
      cases hstatus
    | some id =>
      rw [hfile] at hids
      have hid : id ∈ ids := by
        by_contra hno
        exact hids ⟨hpath, hno⟩
      dsimp only
      rw [h.agree.statusPayload_one htimes htimes' hid]

/-- **A token for some repositories shows nothing of the others**: two services that agree on its repositories answer a
status request alike. -/
theorem doGet_scoped (h : SameFor ids svc svc' current current') (hguest : current.guestReadOnly = false)
    (hrestrict : current.tokenRepoRestrictions = true) (hadmin : ¬ Administrator env svc req)
    (hgrant : bearerGrant env svc req = some (some ids)) (htimes : TimesOk env.fromisoformat svc.db)
    (htimes' : TimesOk env.fromisoformat svc'.db) (hstatus : (route req.path).isStatus = true) :
    doGet env svc req = doGet env svc' req := by
  have hpath : ∀ p, (WebRoute.mk p ((p.splitOn '/').filter (· ≠ [])) []).isStatus = false → (route req.path).path ≠ p := by
    intro p hno hp
    rw [isStatus_of_path hp, hno] at hstatus
    cases hstatus
  have hhealthz := hpath "/healthz".toList (by decide)
  have hmetrics := hpath "/metrics".toList (by decide)
  unfold doGet
  dsimp only
  split
  · rfl
  · split
    · unfold servePublic
      rw [if_neg hhealthz, if_neg hhealthz]
    · cases hctx' : context env svc' req with
      | error refused =>
        rw [h.context, hctx']
        rfl
      | ok ctx' =>
        obtain ⟨ctx, hctx, rfl, hadmin', htransport'⟩ := h.context_ok hctx'
        have hcurrent' : current' = ctx'.current :=
          Option.some.inj (h.loaded'.symm.trans (current_of_context hctx'))
        subst hcurrent'
        have hnone : ctx.admin = none := by
          by_contra hsome
          exact hadmin ⟨ctx, hctx, Option.isSome_iff_ne_none.2 hsome⟩
        have hguest' : ctx'.current.guestReadOnly = false := by
          rw [h.settings] at hguest
          exact hguest
        have hrestrict' : ctx'.current.tokenRepoRestrictions = true := by
          rw [h.settings] at hrestrict
          exact hrestrict
        rw [hctx]
        dsimp only
        rw [authorize_scoped hguest hnone hrestrict hstatus hgrant,
          authorize_scoped hguest' (hadmin' ▸ hnone) hrestrict' hstatus (h.bearerGrant.symm.trans hgrant), htransport']
        by_cases htransport : ctx'.transportAllowed = true
        · rw [if_pos htransport]
          by_cases hids : (route req.path).path ≠ "/status.json".toList ∧ (route req.path).statusFile.getD [] ∉ ids
          · rw [if_pos hids]
          · rw [if_neg hids]
            exact h.serveAuthorized htimes htimes' rfl rfl hstatus hids false
        · rw [if_neg htransport]

end

/-- **Host tokens see only their repositories**: without a session, a payload behind the public pages is the metrics for
their networks, or the status for a live token; and a token for some repositories shows nothing of the others. -/
theorem host_tokens (env : WebEnv) :
    (∀ svc req current response, svc.current = some current → current.guestReadOnly = false →
      ¬ Administrator env svc req → (route req.path).isPublic = false → doGet env svc req = some response →
      Gated env svc req response) ∧
    (∀ ids svc svc' current current' req, SameFor ids svc svc' current current' → current.guestReadOnly = false →
      current.tokenRepoRestrictions = true → ¬ Administrator env svc req → bearerGrant env svc req = some (some ids) →
      TimesOk env.fromisoformat svc.db → TimesOk env.fromisoformat svc'.db → (route req.path).isStatus = true →
      doGet env svc req = doGet env svc' req) :=
  ⟨fun _ _ _ _ hcurrent hguest hadmin hpublic h => doGet_gated hcurrent hguest hadmin hpublic h,
    fun _ _ _ _ _ _ h hguest hrestrict hadmin hgrant htimes htimes' hstatus =>
      doGet_scoped h hguest hrestrict hadmin hgrant htimes htimes' hstatus⟩

/-! ## Two services -/

/-- The SHA-256 of `rw_s`. -/
def tokenDigest : Str := hex [
  0xa9, 0x9b, 0xd8, 0x67, 0x73, 0xcd, 0x9b, 0xe0, 0xef, 0xa0, 0x26, 0x2f, 0x43, 0x99, 0xd1, 0x6b,
  0x9b, 0xce, 0x65, 0x9c, 0xfb, 0xeb, 0xec, 0x51, 0xcb, 0x63, 0x4c, 0x70, 0xd2, 0xc3, 0x96, 0x01]

/-- The time of a check. -/
def checkTime : Str := "2026-01-02T03:04:05+00:00".toList

/-- The libraries for one token and one time, a minute after that time, and pages that are not found. -/
def plainEnv : WebEnv where
  lower := id
  netlocOk := fun _ => true
  hashes := .ofTables [("rw_s".toList, tokenDigest)] []
  fromisoformat := fun s => if s = checkTime then some 1767323045000000 else none
  loadCookie := fun _ => some none
  loginPage := []
  asset := fun _ => none
  time := 1767323105
  clock := 1767323105000000
  metrics := fun _ => .notFound
  page := fun _ _ _ => .notFound

/-- A service of the given repositories without an administrator, and with a token for the repository `a`. -/
def tokenService (repos : List RepoConfig) (hids : (repos.map fun r => r.id).Nodup) (db : Database) : Service where
  current := some {
    trustedProxies := []
    proxiesOk := fun _ h => absurd h List.not_mem_nil
    config := ⟨300, [], repos, {}, hids, NginxConfig.versionOk_default⟩
    guestReadOnly := false
    tokenRepoRestrictions := true
    allowInsecureHttp := false
    metricsAllowedNetworks := []
    adminPasswordHash := none }
  db := db
  access := {
    sessions := .empty
    tokens := Table.empty.upsert ⟨[], [], tokenDigest, 0, none, none, none, some ["a".toList]⟩
    secretsNodup := by decide }

/-- A status request with that token, and with the given values of the header `Host`. -/
def tokenRequest (path : String) (hosts : List String) : WebRequest where
  path := path.toList
  headers := fun name =>
    if name = "Authorization".toList then ["Bearer rw_s".toList]
    else if name = "Host".toList then hosts.map String.toList
    else []
  peer := "127.0.0.1".toList
  tls := false

theorem not_administrator (repos : List RepoConfig) (hids : (repos.map fun r => r.id).Nodup) (db : Database)
    (req : WebRequest) : ¬ Administrator plainEnv (tokenService repos hids db) req := by
  rintro ⟨ctx, hctx, hadmin⟩
  obtain ⟨secret, hsession⟩ := admin_of_context hctx
  have hpassword : ctx.current.adminPasswordHash = none := by
    rw [← Option.some.inj (current_of_context hctx)]
  rw [hsession, hpassword] at hadmin
  cases hadmin

/-- A request with two `Host` headers is refused as malformed, without an authentication error. -/
theorem repeated_host_refused : ¬ ∀ (env : WebEnv) (svc : Service) (req : WebRequest) (current : WebConfig)
    (response : WebResponse), svc.current = some current → current.guestReadOnly = false → ¬ Administrator env svc req →
    (route req.path).isPublic = false → (route req.path).path ≠ "/metrics".toList → (route req.path).isStatus = false →
    doGet env svc req = some response → response = .toLogin ∨ response = .httpsRequired ∨ response = .loginRequired := by
  intro h
  have hget : doGet plainEnv (tokenService [] List.nodup_nil .empty) (tokenRequest "/api/repos" ["h", "h"]) =
      some .invalidHeaders := rfl
  have hrefused := h _ _ _ _ _ rfl rfl (not_administrator [] List.nodup_nil .empty _) (by decide) (by decide) (by decide) hget
  rcases hrefused with hno | hno | hno
  · exact absurd (congrArg WebResponse.status hno) (by decide)
  · exact absurd (congrArg WebResponse.status hno) (by decide)
  · exact absurd (congrArg WebResponse.status hno) (by decide)

/-- The check state and a queued replacement of the repository `b`. -/
def otherDb : Database :=
  { Database.empty with
    repoState := Table.empty.upsert { repoId := "b".toList, lastCheck := checkTime }
    pendingReplacements := Table.empty.upsert ⟨"b".toList, "k".toList, [], none, [], none⟩ }

/-- An administrator's page under the token, and the status of a service with and without another repository. -/
theorem host_tokens_other :
    Gated plainEnv (tokenService [] List.nodup_nil .empty) (tokenRequest "/api/stats" ["h"]) .loginRequired ∧
    doGet plainEnv (tokenService [aptRepo "a" "u"] (by decide) .empty) (tokenRequest "/status.json" ["h"]) =
      doGet plainEnv (tokenService [aptRepo "a" "u", aptRepo "b" "v"] (by decide) otherDb)
        (tokenRequest "/status.json" ["h"]) := by
  constructor
  · exact (host_tokens plainEnv).1 _ _ _ _ rfl rfl (not_administrator _ _ _ _) (by decide) rfl
  · refine (host_tokens plainEnv).2 ["a".toList] _ _ _ _ _ ⟨rfl, rfl, rfl, rfl, rfl, by decide, by decide, ?_⟩ rfl rfl
      (not_administrator _ _ _ _) (by decide) (fun s hs => by cases hs) ?_ (by decide)
    · intro id hid key
      rw [List.mem_singleton.1 hid]
      rfl
    · intro s hs _
      obtain rfl : s = { repoId := "b".toList, lastCheck := checkTime } := List.mem_singleton.1 hs
      decide

end RepoWatch
