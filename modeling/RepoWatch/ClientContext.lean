import RepoWatch.Lib.Ip
import RepoWatch.Narinfo
import RepoWatch.Url
/-!
# ClientContext — whom a request is from

Behind a trusted proxy the client is the rightmost address of `X-Forwarded-For` and the peer that is not a trusted proxy's;
what stands to its left cannot change it (`clientContext_ok`).
-/
namespace RepoWatch

open Lib Lib.Ip

/-! ## Addresses and networks -/

/-- An IPv4-mapped address is the IPv4 address. -/
def unmapped : Address → Address
  | .v4 n => .v4 n
  | .v6 n scope => if n.val >>> 32 = 0xffff then .v4 (Fin.ofNat _ n.val) else .v6 n scope

/-- `access.ip`. -/
def ip (value : Str) : Option Address := (Ip.parse value).map unmapped

/-- `access.in_networks`: a network that does not parse ends the search. -/
def inNetworks (address : Str) : List Str → Bool
  | [] => false
  | network :: networks =>
    match ip address, Ip.parseNetwork network with
    | some a, some n => n.contains a || inNetworks address networks
    | _, _ => false

/-- `is_loopback`. -/
def isLoopback : Address → Bool
  | .v4 n => n.val >>> 24 = 127
  | .v6 n _ => n.val = 1

/-- The fields of the status server's configuration that the client context reads; its networks parse. -/
structure StatusServerConfig where
  trustedProxies : List Str
  proxiesOk : ∀ network ∈ trustedProxies, (Ip.parseNetwork network).isSome = true

/-! ## The host -/

/-- What a request's headers raise: a text of the program, or an error of the library. -/
inductive HeaderError where
  | valueError (message : Str)
  | builtin
  deriving DecidableEq

/-- `\Av[a-fA-F0-9]+\..+\Z` on a text without line breaks. -/
def isVersionedHost : Str → Bool
  | 'v' :: s =>
    !(s.takeWhile isHexDigit).isEmpty && match s.dropWhile isHexDigit with
      | '.' :: _ :: _ => true
      | _ => false
  | _ => false

/-- `_check_bracketed_host`. -/
def bracketedHostOk (host : Str) : Bool :=
  if startsWith host ['v'] then isVersionedHost host
  else match Ip.parse host with
    | some (.v6 _ _) => true
    | _ => false

/-- The host and the port of a netloc. -/
def splitHost (hostinfo : Str) : Str × Option Str :=
  match partition '[' hostinfo with
  | (_, some bracketed) =>
    let (host, rest) := partition ']' bracketed
    (host, (partition ':' (rest.getD [])).2)
  | (_, none) => partition ':' hostinfo

/-- `.port` does not raise. -/
def hostPortOk : Option Str → Bool
  | none | some [] => true
  | some port => port.all Char.isDigit && decide (decimal port ≤ 65535)

/-- The checks of the external host; `netlocOk` says whether the compatibility form of a netloc has no delimiter. -/
def checkHost (netlocOk : Str → Bool) (host : Str) : Except HeaderError Unit := do
  if host.isEmpty || host.any (fun c => "/\\@,\r\n\t #?".toList.contains c) then
    throw (.valueError "invalid external host".toList)
  let url := "//".toList ++ host
  let parsed := urlsplit url
  let bracketed := (partition ']' ((partition '[' parsed.netloc).2.getD [])).1
  if !urlsplitOk url || (parsed.netloc.contains '[' && !bracketedHostOk bracketed) || !netlocOk parsed.netloc then
    throw .builtin
  let (hostname, port) := splitHost parsed.hostinfo
  if hostname.isEmpty || parsed.hasUserinfo || !hostPortOk port then
    throw (.valueError "invalid external host".toList)

/-! ## The context -/

/-- `headers.get`. -/
abbrev Headers := Str → Option Str

structure ClientContext where
  clientIp : Option Str
  secure : Bool
  host : Str
  localDirect : Bool
  deriving DecidableEq

def ClientContext.credentialsAllowed (context : ClientContext) : Bool := context.secure || context.localDirect

def forwarded (headers : Headers) : Bool :=
  ["X-Forwarded-For", "X-Forwarded-Proto", "X-Forwarded-Host"].any fun k => (headers k.toList).isSome

/-- The client behind a trusted proxy. -/
def forwardedClient (config : StatusServerConfig) (peer raw : Str) : Option Str :=
  if raw.isEmpty || decide (4096 < raw.length) then none
  else do
    let hops ← (raw.splitOn ',').mapM fun part => (ip (strip part)).map Address.print
    let chain := hops ++ [peer]
    guard (chain.length ≤ 32)
    (chain.rdropWhile fun address => inNetworks address config.trustedProxies).getLast?

/-- What a trusted proxy says of its connection. -/
def forwardedSecure (headers : Headers) (tls : Bool) : Except HeaderError Bool :=
  match headers "X-Forwarded-Proto".toList with
  | none => .ok tls
  | some proto =>
    if proto = "http".toList ∨ proto = "https".toList then .ok (proto = "https".toList)
    else .error (.valueError "proxy must overwrite X-Forwarded-Proto with http or https".toList)

/-- `client_context`. -/
def clientContext (lower : Str → Str) (netlocOk : Str → Bool) (peer : Str) (headers : Headers) (tls : Bool)
    (config : StatusServerConfig) : Except HeaderError ClientContext := do
  let some address := ip peer | throw .builtin
  let peer := address.print
  let loopback := (ip peer).any isLoopback
  let trusted := inNetworks peer config.trustedProxies
  let host := (headers "Host".toList).getD []
  let client :=
    if trusted then forwardedClient config peer ((headers "X-Forwarded-For".toList).getD [])
    else if forwarded headers && loopback then none
    else some peer
  let secure ← (if trusted then forwardedSecure headers tls else .ok tls)
  let host := if trusted then (headers "X-Forwarded-Host".toList).getD host else host
  checkHost netlocOk host
  return ⟨client, secure, lower host, loopback && !forwarded headers && !trusted⟩

/-! ## What a client is -/

namespace StatusServerConfig
variable {config : StatusServerConfig} {a : Address}

/-- An address of a trusted proxy. -/
def Trusted (config : StatusServerConfig) (a : Address) : Prop :=
  ∃ network ∈ config.trustedProxies, ∃ n, Ip.parseNetwork network = some n ∧ n.contains a = true

/-- The hop that names the client: it is no trusted proxy's, and those after it are. -/
structure ClientHop (config : StatusServerConfig) (hop : Str) (after : List Str) (a : Address) : Prop where
  address : ip (strip hop) = some a
  untrusted : ¬ config.Trusted a
  proxies : ∀ part ∈ after, ∃ b, ip (strip part) = some b ∧ config.Trusted b

/-- A chain has one such hop. -/
theorem ClientHop.unique {before after before' after' : List Str} {hop hop' : Str} {a' : Address}
    (h : config.ClientHop hop after a) (h' : config.ClientHop hop' after' a')
    (heq : before ++ hop :: after = before' ++ hop' :: after') : a = a' := by
  have hafter : ∀ {part : Str} {parts : List Str} {b b' : Address} {hop : Str}, config.ClientHop hop parts b →
      part ∈ parts → ip (strip part) = some b' → config.Trusted b' := by
    intro part parts b b' hop hhop hpart hb'
    obtain ⟨b'', hb'', htrusted⟩ := hhop.proxies part hpart
    rw [hb'] at hb''
    cases hb''
    exact htrusted
  rcases List.append_eq_append_iff.1 heq with ⟨as, -, has⟩ | ⟨bs, -, hbs⟩
  · cases as with
    | nil =>
      obtain ⟨rfl, -⟩ := List.cons.inj has
      exact Option.some.inj (h.address.symm.trans h'.address)
    | cons x as =>
      obtain ⟨-, rfl⟩ := List.cons.inj has
      exact absurd (hafter h (List.mem_append_right as List.mem_cons_self) h'.address) h'.untrusted
  · cases bs with
    | nil =>
      obtain ⟨rfl, -⟩ := List.cons.inj hbs
      exact Option.some.inj (h.address.symm.trans h'.address)
    | cons x bs =>
      obtain ⟨-, rfl⟩ := List.cons.inj hbs
      exact absurd (hafter h' (List.mem_append_right bs List.mem_cons_self) h.address) h.untrusted

end StatusServerConfig

/-- The parts of `X-Forwarded-For`. -/
def hops (headers : Headers) : List Str := ((headers "X-Forwarded-For".toList).getD []).splitOn ','

/-! ## Addresses -/

theorem unmapped_unmapped (a : Address) : unmapped (unmapped a) = unmapped a := by
  match a with
  | .v4 n => rfl
  | .v6 n scope =>
    by_cases h : n.val >>> 32 = 0xffff <;> simp [unmapped, h]

/-- **A printed client address** is read as the same address. -/
theorem ip_print {value : Str} {a : Address} (h : ip value = some a) : ip a.print = some a := by
  obtain ⟨b, -, rfl⟩ := Option.map_eq_some_iff.1 h
  rw [ip, parse_print, Option.map_some, unmapped_unmapped]

theorem inNetworks_iff {address : Str} {a : Address} (ha : ip address = some a) : ∀ {networks : List Str},
    (∀ network ∈ networks, (Ip.parseNetwork network).isSome = true) →
    (inNetworks address networks = true ↔ ∃ network ∈ networks, ∃ n, Ip.parseNetwork network = some n ∧ n.contains a = true)
  | [], _ => by simp [inNetworks]
  | network :: networks, hok => by
    obtain ⟨hnetwork, hok⟩ := List.forall_mem_cons.1 hok
    obtain ⟨n, hn⟩ := Option.isSome_iff_exists.1 hnetwork
    have ih := inNetworks_iff ha hok
    rw [inNetworks, ha, hn]
    dsimp only
    rw [Bool.or_eq_true, ih]
    simp [hn]

theorem inNetworks_print (config : StatusServerConfig) {value : Str} {a : Address} (h : ip value = some a) :
    inNetworks a.print config.trustedProxies = true ↔ config.Trusted a :=
  inNetworks_iff (ip_print h) config.proxiesOk

/-! ## The client behind a proxy -/

section Chain
variable {config : StatusServerConfig} {peer raw : Str} {address : Address}

theorem exists_of_mapM_eq_append {α β : Type} {f : α → Option β} {y : β} {ys : List β} : ∀ {l : List α} {xs : List β},
    l.mapM f = some (xs ++ y :: ys) → ∃ before x after, l = before ++ x :: after ∧ f x = some y ∧ after.mapM f = some ys
  | [], [], h => by cases h
  | [], _ :: _, h => by cases h
  | x :: l, xs, h => by
    rw [List.mapM_cons] at h
    obtain ⟨z, hz, h⟩ := Option.bind_eq_some_iff.1 h
    obtain ⟨zs, hzs, h⟩ := Option.bind_eq_some_iff.1 h
    have hcons : z :: zs = xs ++ y :: ys := Option.some.inj h
    cases xs with
    | nil =>
      obtain ⟨rfl, rfl⟩ := List.cons.inj hcons
      exact ⟨[], x, l, rfl, hz, hzs⟩
    | cons w xs =>
      obtain ⟨-, rfl⟩ := List.cons.inj hcons
      obtain ⟨before, x', after, rfl, hx', hafter⟩ := exists_of_mapM_eq_append hzs
      exact ⟨x :: before, x', after, rfl, hx', hafter⟩

theorem exists_mem_of_mapM {α β : Type} {f : α → Option β} : ∀ {l : List α} {ys : List β}, l.mapM f = some ys →
    (∀ x ∈ l, ∃ y ∈ ys, f x = some y) ∧ ∀ y ∈ ys, ∃ x ∈ l, f x = some y
  | [], ys, h => by
    cases h
    simp
  | x :: l, ys, h => by
    rw [List.mapM_cons] at h
    obtain ⟨z, hz, h⟩ := Option.bind_eq_some_iff.1 h
    obtain ⟨zs, hzs, h⟩ := Option.bind_eq_some_iff.1 h
    cases h
    obtain ⟨hl, hys⟩ := exists_mem_of_mapM hzs
    constructor
    · rintro x' (_ | ⟨_, hx'⟩)
      · exact ⟨z, List.mem_cons_self, hz⟩
      · obtain ⟨y, hy, hxy⟩ := hl x' hx'
        exact ⟨y, List.mem_cons_of_mem _ hy, hxy⟩
    · rintro y (_ | ⟨_, hy⟩)
      · exact ⟨x, List.mem_cons_self, hz⟩
      · obtain ⟨x', hx', hxy⟩ := hys y hy
        exact ⟨x', List.mem_cons_of_mem _ hx', hxy⟩

theorem rdropWhile_append_of_pos {α : Type} {p : α → Bool} {t : List α} (ht : ∀ x ∈ t, p x = true) (l : List α) :
    (l ++ t).rdropWhile p = l.rdropWhile p := by
  unfold List.rdropWhile
  rw [List.reverse_append, List.dropWhile_append_of_pos fun x hx => ht x (List.mem_reverse.1 hx)]

/-- A hop of the chain is the text of an address. -/
theorem hop_eq_some (config : StatusServerConfig) {part text : Str} (h : (ip (strip part)).map Address.print = some text) :
    ∃ a, ip (strip part) = some a ∧ text = a.print ∧ (inNetworks text config.trustedProxies = true ↔ config.Trusted a) := by
  obtain ⟨a, ha, rfl⟩ := Option.map_eq_some_iff.1 h
  exact ⟨a, ha, rfl, inNetworks_print config ha⟩

/-- **A client is the rightmost untrusted hop.** -/
theorem exists_clientHop (hpeer : ip peer = some address) (htrusted : config.Trusted address) {c : Str}
    (h : forwardedClient config address.print raw = some c) :
    ∃ before hop after a, raw.splitOn ',' = before ++ hop :: after ∧ config.ClientHop hop after a ∧ c = a.print := by
  unfold forwardedClient at h
  split at h
  · cases h
  obtain ⟨chain, hchain, h⟩ := Option.bind_eq_some_iff.1 h
  obtain ⟨-, -, h⟩ := Option.bind_eq_some_iff.1 h
  have hproxy : inNetworks address.print config.trustedProxies = true := (inNetworks_print config hpeer).2 htrusted
  rw [rdropWhile_append_of_pos (by simpa using hproxy)] at h
  obtain ⟨xs, hxs⟩ := List.getLast?_eq_some_iff.1 h
  have hsplit : chain.rdropWhile (fun address => inNetworks address config.trustedProxies) ++
      chain.rtakeWhile (fun address => inNetworks address config.trustedProxies) = chain := List.rdropWhile_append_rtakeWhile
  have hlast : ¬ inNetworks c config.trustedProxies = true := by
    have hne : chain.rdropWhile (fun address => inNetworks address config.trustedProxies) ≠ [] := by
      rw [hxs]
      exact List.concat_ne_nil c xs
    have hnot := List.rdropWhile_last_not (fun address => inNetworks address config.trustedProxies) chain hne
    rw [List.getLast?_eq_some_getLast hne] at h
    rwa [Option.some.inj h] at hnot
  rw [hxs, List.append_assoc] at hsplit
  rw [← hsplit] at hchain
  obtain ⟨before, hop, after, hraw, hhop, hafter⟩ := exists_of_mapM_eq_append hchain
  obtain ⟨a, ha, rfl, hiff⟩ := hop_eq_some config hhop
  refine ⟨before, hop, after, a, hraw, ⟨ha, fun hcontra => hlast (hiff.2 hcontra), fun part hpart => ?_⟩, rfl⟩
  · obtain ⟨text, htext, hmem⟩ := (exists_mem_of_mapM hafter).1 part hpart
    obtain ⟨b, hb, rfl, hiff⟩ := hop_eq_some config hmem
    have hproxy : inNetworks b.print config.trustedProxies = true :=
      List.mem_rtakeWhile_imp (p := fun address => inNetworks address config.trustedProxies) htext
    exact ⟨b, hb, hiff.1 hproxy⟩

/-- **What stands to the left of the client's hop** does not change it. -/
theorem forwardedClient_of_clientHop (hpeer : ip peer = some address) (htrusted : config.Trusted address)
    {before after : List Str}
    {hop : Str} {a : Address} (hraw : raw.splitOn ',' = before ++ hop :: after) (hhop : config.ClientHop hop after a) :
    forwardedClient config address.print raw = none ∨ forwardedClient config address.print raw = some a.print := by
  cases hclient : forwardedClient config address.print raw with
  | none => exact .inl rfl
  | some c =>
    obtain ⟨before', hop', after', a', hraw', hhop', rfl⟩ := exists_clientHop hpeer htrusted hclient
    rw [hraw] at hraw'
    rw [hhop.unique hhop' hraw']
    exact .inr rfl

end Chain

section Context
variable {lower : Str → Str} {netlocOk : Str → Bool} {peer : Str} {headers : Headers} {tls : Bool} {config : StatusServerConfig}
  {context : ClientContext}

/-- What the context is made of. -/
theorem clientContext_eq (h : clientContext lower netlocOk peer headers tls config = .ok context) :
    ∃ address, ip peer = some address ∧
      (¬ config.Trusted address → context.secure = tls ∧
        context.clientIp = if forwarded headers && isLoopback address then none else some address.print) ∧
      (config.Trusted address → context.clientIp =
        forwardedClient config address.print ((headers "X-Forwarded-For".toList).getD [])) ∧
      (context.localDirect = true → isLoopback address = true ∧ ¬ config.Trusted address ∧ forwarded headers = false) := by
  unfold clientContext at h
  cases hpeer : ip peer with
  | none =>
    rw [hpeer] at h
    cases h
  | some address =>
    have hiff := inNetworks_print config hpeer
    rw [hpeer] at h
    dsimp only at h
    rw [ip_print hpeer, Option.any_some] at h
    refine ⟨address, rfl, ?_⟩
    obtain ⟨secure, hsecure, h⟩ := bind_eq_ok.1 h
    obtain ⟨-, -, h⟩ := bind_eq_ok.1 h
    cases h
    dsimp only
    cases htrusted : inNetworks address.print config.trustedProxies with
    | true =>
      have hnot : ¬ ¬ config.Trusted address := not_not.2 (hiff.1 htrusted)
      exact ⟨fun h => absurd h hnot, fun _ => rfl, fun h => by simp at h⟩
    | false =>
      rw [htrusted] at hsecure
      cases hsecure
      have hnot : ¬ config.Trusted address := fun h => by
        rw [hiff.2 h] at htrusted
        cases htrusted
      refine ⟨fun _ => ⟨rfl, rfl⟩, fun h => absurd h hnot, fun h => ?_⟩
      simp only [Bool.and_eq_true, Bool.not_eq_true'] at h
      exact ⟨h.1.1, hnot, h.1.2⟩

/-- **Forwarded headers cannot choose the client.** -/
theorem clientContext_ok (h : clientContext lower netlocOk peer headers tls config = .ok context) :
    ∃ address, ip peer = some address ∧
      (¬ config.Trusted address → context.secure = tls ∧
        context.clientIp = if forwarded headers && isLoopback address then none else some address.print) ∧
      (config.Trusted address →
        (context.clientIp = none ∨ ∃ before hop after a, hops headers = before ++ hop :: after ∧
          config.ClientHop hop after a ∧ context.clientIp = some a.print) ∧
        ∀ headers' tls' context', clientContext lower netlocOk peer headers' tls' config = .ok context' →
          ∀ before before' hop after a, hops headers = before ++ hop :: after → hops headers' = before' ++ hop :: after →
            config.ClientHop hop after a →
            (context.clientIp = none ∨ context.clientIp = some a.print) ∧
              (context'.clientIp = none ∨ context'.clientIp = some a.print)) ∧
      (∀ c, context.clientIp = some c → ∃ a, ip c = some a ∧ c = a.print ∧ ¬ config.Trusted a) ∧
      (context.localDirect = true → isLoopback address = true ∧ ¬ config.Trusted address ∧ forwarded headers = false) := by
  obtain ⟨address, hpeer, huntrusted, htrusted, hlocal⟩ := clientContext_eq h
  refine ⟨address, hpeer, huntrusted, fun ht => ⟨?_, ?_⟩, fun c hc => ?_, hlocal⟩
  · cases hclient : context.clientIp with
    | none => exact .inl rfl
    | some c =>
      obtain ⟨before, hop, after, a, hraw, hhop, rfl⟩ := exists_clientHop hpeer ht ((htrusted ht).symm.trans hclient)
      exact .inr ⟨before, hop, after, a, hraw, hhop, rfl⟩
  · intro headers' tls' context' h' before before' hop after a hraw hraw' hhop
    obtain ⟨address', hpeer', -, htrusted', -⟩ := clientContext_eq h'
    rw [hpeer] at hpeer'
    cases hpeer'
    rw [htrusted ht, htrusted' ht]
    exact ⟨forwardedClient_of_clientHop hpeer ht hraw hhop, forwardedClient_of_clientHop hpeer ht hraw' hhop⟩
  · by_cases ht : config.Trusted address
    · obtain ⟨-, hop, after, a, -, hhop, rfl⟩ := exists_clientHop hpeer ht ((htrusted ht).symm.trans hc)
      exact ⟨a, ip_print hhop.address, rfl, hhop.untrusted⟩
    · rw [(huntrusted ht).2] at hc
      split at hc
      · cases hc
      · cases hc
        exact ⟨address, ip_print hpeer, rfl, ht⟩

/-- One network of proxies. -/
def behindProxies : StatusServerConfig := ⟨["10.0.0.0/8".toList], by decide +kernel⟩

/-- A client that names an address to the left of its own. -/
def spoofed : Headers := fun k =>
  if k = "Host".toList then some "local".toList
  else if k = "X-Forwarded-For".toList then some "127.0.0.1, 198.51.100.1, 10.1.0.3".toList
  else none

theorem clientContext_ok_spoofed : ∃ context,
    clientContext asciiLower (fun _ => true) "10.0.0.1".toList spoofed false behindProxies = .ok context ∧
      context.clientIp = some "198.51.100.1".toList ∧
      ∃ a, ip "198.51.100.1".toList = some a ∧ ¬ behindProxies.Trusted a := by
  have hcontext : clientContext asciiLower (fun _ => true) "10.0.0.1".toList spoofed false behindProxies =
      .ok ⟨some "198.51.100.1".toList, false, "local".toList, false⟩ := by decide +kernel
  obtain ⟨-, -, -, -, hclient, -⟩ := clientContext_ok hcontext
  obtain ⟨a, ha, -, hnot⟩ := hclient _ rfl
  exact ⟨_, hcontext, rfl, a, ha, hnot⟩

end Context

end RepoWatch
