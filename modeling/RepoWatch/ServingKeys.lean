import RepoWatch.Serving
/-!
# ServingKeys — when serving, purging and probing use one key

The key that `computeCacheKey` predicts for a package is compared with the key of its package location and with the key
of its purge location, for the requests of `warmUrl` and `purgeUrl`.  All three end in the file name; what a request
makes of the name is `Client.sent` for the raw target and the unquoted path for `$uri` and the captures.  A name with dot
segments comes out shorter, or under the key of another repository (`Client.not_prefix_of_dots`).
-/
namespace RepoWatch

open Lib

/-! ## What a request makes of a name -/

/-- The part of a name before `#`, up to its `?` and after it. -/
def pathPart (name : Str) : Str := (partition '?' (partition '#' name).1).1
def queryPart (name : Str) : Option Str := (partition '?' (partition '#' name).1).2

/-- What a mark and the text after it add to the text before. -/
def markText (mark : Char) : Option Str → Str
  | none => []
  | some text => mark :: text

@[simp] theorem markText_none (mark : Char) : markText mark none = [] := rfl
@[simp] theorem markText_some (mark : Char) (text : Str) : markText mark (some text) = mark :: text := rfl

section Client
variable (client : Client)

/-- What is sent of a path and the query of a name. -/
def Client.sentTarget (path name : Str) : Str :=
  Percent.quote client.pathSafe path ++ markText '?' ((queryPart name).map (Percent.quote client.querySafe))

/-- The end of the raw target. -/
def Client.sent (name : Str) : Str := client.sentTarget (pathPart name) name

def Client.sentArgs (name : Str) : Str := ((queryPart name).map (Percent.quote client.querySafe)).getD []

/-- The client sends the name as it is. -/
def Client.SendsUnchanged (name : Str) : Prop :=
  Percent.quote client.pathSafe (pathPart name) = pathPart name ∧
    ∀ query, queryPart name = some query → Percent.quote client.querySafe query = query

/-- The path has no escapes and every `%` of it is quoted. -/
def Client.PathUnchanged (path : Str) : Prop :=
  Percent.hasEscape path = false ∧ ('%' ∈ path → client.pathSafe '%' = false)

/-- The path is read unchanged, and there is a query only where the location passes it on, nonempty and sent as it is. -/
def Client.ReadUnchanged (type : RepoType) (name : Str) : Prop :=
  client.PathUnchanged (pathPart name) ∧ ∀ query, queryPart name = some query →
    type = .nix ∧ query ≠ [] ∧ Percent.quote client.querySafe query = query

end Client

/-- The client accepts the name and sends all of it: nothing is cut off, and no segment is dropped. -/
def Sendable (name : Str) : Prop :=
  (∀ c ∈ name, isControl c = false) ∧ '#' ∉ name ∧ DotSegments.hasDot (pathPart name) = false

theorem sendable_iff {name : Str} (hcontrol : ∀ c ∈ name, isControl c = false)
    (hdots : DotSegments.hasDot (pathPart name) = false) : Sendable name ↔ '#' ∉ name :=
  ⟨fun h => h.2.1, fun hno => ⟨hcontrol, hno, hdots⟩⟩

theorem partition_eq (c : Char) (s : Str) : s = (partition c s).1 ++ markText c (partition c s).2 := by
  conv => lhs; rw [(partition_spec c s).2]
  cases (partition c s).2 <;> rfl

/-- A name is its path, its query and what `#` cuts off. -/
theorem name_split (name : Str) :
    name = pathPart name ++ (markText '?' (queryPart name) ++ markText '#' (partition '#' name).2) := by
  conv => lhs; rw [partition_eq '#' name, partition_eq '?' (partition '#' name).1]
  rw [List.append_assoc]
  rfl

theorem name_eq {name : Str} (h : '#' ∉ name) : name = pathPart name ++ markText '?' (queryPart name) := by
  conv => lhs; rw [name_split name, partition_of_not_mem _ _ h]
  simp

/-- A name that is all path has no query and loses nothing. -/
theorem pathPart_length (name : Str) : (pathPart name).length ≤ name.length ∧
    ((pathPart name).length = name.length → '#' ∉ name ∧ queryPart name = none) := by
  have hlen := congrArg List.length (name_split name)
  rw [List.length_append, List.length_append] at hlen
  refine ⟨by omega, fun he => ?_⟩
  have hquery : queryPart name = none := by
    cases hq : queryPart name with
    | none => rfl
    | some t => simp [hq] at hlen; omega
  have hcut : (partition '#' name).2 = none := by
    cases hc : (partition '#' name).2 with
    | none => rfl
    | some t => simp [hc] at hlen; omega
  have hname := partition_eq '#' name
  rw [hcut, markText_none, List.append_nil] at hname
  exact ⟨hname ▸ (partition_spec '#' name).1, hquery⟩

theorem pathPart_subset (name : Str) : ∀ c ∈ pathPart name, c ∈ name := fun c hc => by
  rw [name_split name]
  exact List.mem_append_left _ hc

section Client
variable (client : Client)

theorem Client.question_not_mem (path : Str) : '?' ∉ Percent.quote client.pathSafe path := by
  intro hm
  rcases Percent.mem_quote client.quotesPath hm with ⟨-, h⟩ | h | h
  · rw [client.reserved.2.1] at h
    cases h
  · cases h
  · cases h

theorem Client.hash_not_mem_path (path : Str) : '#' ∉ Percent.quote client.pathSafe path := by
  intro hm
  rcases Percent.mem_quote client.quotesPath hm with ⟨-, h⟩ | h | h
  · rw [client.reserved.1] at h
    cases h
  · cases h
  · cases h

theorem Client.hash_not_mem_query (query : Str) : '#' ∉ Percent.quote client.querySafe query := by
  intro hm
  rcases Percent.mem_quote client.quotesQuery hm with ⟨-, h⟩ | h | h
  · rw [client.reserved.2.2] at h
    cases h
  · cases h
  · cases h

theorem Client.hash_not_mem_target (path name : Str) : '#' ∉ client.sentTarget path name := by
  unfold Client.sentTarget
  rw [List.mem_append, not_or]
  refine ⟨client.hash_not_mem_path path, fun hm => ?_⟩
  cases hq : queryPart name with
  | none => simp [hq] at hm
  | some q =>
    rw [hq, Option.map_some, markText_some] at hm
    rcases List.mem_cons.1 hm with h | h
    · cases h
    · exact client.hash_not_mem_query q h

/-- The path that is sent has no `?`, so nginx cuts the target where the client put it together. -/
theorem Client.partition_target (path name : Str) : partition '?' (client.sentTarget path name) =
    (Percent.quote client.pathSafe path, (queryPart name).map (Percent.quote client.querySafe)) := by
  unfold Client.sentTarget
  cases hq : (queryPart name).map (Percent.quote client.querySafe) with
  | none => rw [markText_none, List.append_nil, partition_of_not_mem _ _ (client.question_not_mem path)]
  | some q => exact partition_append (client.question_not_mem path) q

variable {client}

theorem Client.quote_plain {pre : Str} (hpre : ∀ c ∈ pre, isUriChar c = true) (path : Str) :
    Percent.quote client.pathSafe (pre ++ path) = pre ++ Percent.quote client.pathSafe path :=
  Percent.quote_append_of_safe (fun c hc => client.plain c (hpre c hc)) path

theorem decodePath_append {pre : Str} (hpre : ∀ c ∈ pre, isUriChar c = true) (path : Str) :
    decodePath (pre ++ path) = (decodePath path).map (pre ++ ·) := by
  have hpercent : '%' ∉ pre := fun hm => absurd (hpre _ hm) (by decide)
  have hnul : '\x00' ∉ pre := fun hm => absurd (hpre _ hm) (by decide)
  unfold decodePath
  rw [Percent.unquote_append hpercent]
  cases Percent.unquote path with
  | none => rfl
  | some decoded =>
    by_cases hm : '\x00' ∈ decoded <;> simp [Option.filter, hm, hnul]

/-- What arrives of a path is no longer than the path. -/
structure Client.Arrives (client : Client) (path d : Str) : Prop where
  le : d.length ≤ path.length
  lt : Percent.hasEscape path = true → d.length < path.length
  eq : Percent.hasEscape path = false → d = path ∧ ('%' ∈ path → client.pathSafe '%' = false)

theorem Client.arrives {path d : Str} (hbytes : ∀ c ∈ path, c.toNat < 256)
    (h : decodePath (Percent.quote client.pathSafe path) = some d) : client.Arrives path d := by
  obtain ⟨hd, -⟩ := Option.filter_eq_some_iff.1 h
  obtain ⟨hle, hlt⟩ := Percent.length_le_of_unquote client.quotesPath hd
  exact ⟨hle, hlt, fun hescape => (Percent.unquote_quote_iff hbytes hescape).1 hd⟩

theorem Client.PathUnchanged.decodePath {path : Str} (h : client.PathUnchanged path) (hbytes : ∀ c ∈ path, c.toNat < 256)
    (hcontrol : ∀ c ∈ path, isControl c = false) : decodePath (Percent.quote client.pathSafe path) = some path := by
  refine Option.filter_eq_some_iff.2 ⟨(Percent.unquote_quote_iff hbytes h.1).2 ⟨rfl, h.2⟩, ?_⟩
  exact decide_eq_true fun hm => absurd (hcontrol _ hm) (by decide)

variable {pre filename : Str} (hpre : ∀ c ∈ pre, isUriChar c = true)
  (hname : ∀ c ∈ utf8 filename, isControl c = false)
include hpre hname

/-- **The request** for a name under a plain prefix. -/
theorem Client.request_eq (config : Config) : client.request config (config.cacheBaseUrl ++ (pre ++ filename)) =
    if client.maxUrl < (config.cacheBaseUrl ++ (pre ++ filename)).length then none
    else (decodePath (Percent.quote client.pathSafe (sentPath (pre ++ pathPart (utf8 filename))))).map fun path =>
      ⟨client.sentTarget (sentPath (pre ++ pathPart (utf8 filename))) (utf8 filename), path,
        client.sentArgs (utf8 filename)⟩ := by
  have hnot : '?' ∉ pre ∧ '#' ∉ pre :=
    ⟨fun hm => absurd (hpre _ hm) (by decide), fun hm => absurd (hpre _ hm) (by decide)⟩
  have hcontrol : (pre ++ utf8 filename).any isControl = false := by
    rw [List.any_eq_false]
    intro c hc
    rcases List.mem_append.1 hc with hc | hc
    · simp [(plainChar_of_uriChar (hpre c hc)).noControl]
    · simp [hname c hc]
  have htarget : client.target (pre ++ utf8 filename) =
      some (client.sentTarget (sentPath (pre ++ pathPart (utf8 filename))) (utf8 filename)) := by
    unfold Client.target Client.sentTarget
    rw [if_neg (by simp [hcontrol]), partition_append_left hnot.2, partition_append_left hnot.1]
    unfold pathPart queryPart
    cases (partition '?' (partition '#' (utf8 filename)).1).2 with
    | none => simp
    | some q => simp
  have hutf8 : utf8 (pre ++ filename) = pre ++ utf8 filename := by
    rw [utf8_append, utf8_of_ascii fun c hc => (plainChar_of_uriChar (hpre c hc)).ascii]
  unfold Client.request
  rw [List.drop_left, hutf8, htarget, Option.bind_some, HttpRequest.parse, client.partition_target]
  rfl

/-- A name without dot segments is sent under its prefix. -/
theorem Client.request_plain {config : Config} (hne : pre ≠ [])
    (hlength : (config.cacheBaseUrl ++ (pre ++ filename)).length ≤ client.maxUrl)
    (hdots : DotSegments.hasDot (pre ++ pathPart (utf8 filename)) = false) :
    client.request config (config.cacheBaseUrl ++ (pre ++ filename)) =
      (decodePath (Percent.quote client.pathSafe (pathPart (utf8 filename)))).map fun d =>
        ⟨pre ++ client.sent (utf8 filename), pre ++ d, client.sentArgs (utf8 filename)⟩ := by
  have hsent : sentPath (pre ++ pathPart (utf8 filename)) = pre ++ pathPart (utf8 filename) := by
    rw [sentPath, DotSegments.resolve_of_not_hasDot hdots, if_neg (by simp [hne])]
  rw [client.request_eq hpre hname, if_neg (Nat.not_lt.2 hlength), hsent, Client.sentTarget, Client.quote_plain hpre,
    decodePath_append hpre, Option.map_map, List.append_assoc]
  rfl

end Client

/-! ## When the parts of a name survive -/

/-- **Sent as it is**: the raw target ends in the name. -/
theorem Client.sent_eq_iff (client : Client) (name : Str) :
    client.sent name = name ↔ '#' ∉ name ∧ client.SendsUnchanged name := by
  constructor
  · intro h
    have hno : '#' ∉ name := h ▸ client.hash_not_mem_target (pathPart name) name
    have hparts := client.partition_target (pathPart name) name
    have hname : partition '?' name = (pathPart name, queryPart name) := by
      unfold pathPart queryPart
      rw [partition_of_not_mem _ _ hno]
    rw [show client.sentTarget (pathPart name) name = name from h, hname, Prod.mk.injEq] at hparts
    refine ⟨hno, hparts.1.symm, fun query hq => ?_⟩
    rw [hq, Option.map_some, Option.some.injEq] at hparts
    exact hparts.2.symm
  · rintro ⟨hno, hpath, hquery⟩
    have hq : (queryPart name).map (Percent.quote client.querySafe) = queryPart name := by
      cases hq : queryPart name with
      | none => rfl
      | some q => rw [Option.map_some, hquery q hq]
    unfold Client.sent Client.sentTarget
    rw [hpath, hq]
    exact (name_eq hno).symm

theorem append_cons_inj {c : Char} {a b x y : Str} (h : a ++ c :: x = b ++ c :: y) (hb : c ∉ b)
    (hle : a.length ≤ b.length) : a = b ∧ x = y := by
  rcases List.append_eq_append_iff.1 h with ⟨t, hbt, hx⟩ | ⟨t, hat, hy⟩
  · cases t with
    | nil => simp_all
    | cons z t =>
      obtain rfl : c = z := by simpa using (List.cons_eq_cons.1 hx).1
      exact absurd (hbt ▸ List.mem_append_right a List.mem_cons_self) hb
  · have ht : t = [] := by
      have := congrArg List.length hat
      rw [List.length_append] at this
      exact List.length_eq_zero_iff.1 (by omega)
    subst ht
    simp_all

/-- **Read back**: a capture of the decoded path with the arguments is the name only where the name is read unchanged. -/
theorem Client.readUnchanged_of_eq (client : Client) {type : RepoType} {name slashes d c : Str}
    (hslashes : ∀ x ∈ slashes, x = '/') (harrives : client.Arrives (pathPart name) d)
    (hc : c.length ≤ (slashes ++ d).length) (req : HttpRequest) (hargs : req.args = client.sentArgs name)
    (h : c ++ (if type = .nix then req.query else []) = slashes ++ name) :
    '#' ∉ name ∧ client.ReadUnchanged type name := by
  have hle := harrives.le
  have hescape : (pathPart name).length ≤ d.length → client.PathUnchanged (pathPart name) := fun hge => by
    have hno : Percent.hasEscape (pathPart name) = false := by
      by_contra hn
      have := harrives.lt (by simpa using hn)
      omega
    exact ⟨hno, (harrives.eq hno).2⟩
  rw [List.length_append] at hc
  obtain ⟨hpl, hpeq⟩ := pathPart_length name
  by_cases htail : (if type = .nix then req.query else []) = []
  · -- nothing follows the capture: it is the whole name
    rw [htail, List.append_nil] at h
    have hlen := congrArg List.length h
    rw [List.length_append] at hlen
    obtain ⟨hhash, hq⟩ := hpeq (by omega)
    exact ⟨hhash, hescape (by omega), fun q hq' => by (rw [hq] at hq'; cases hq')⟩
  · -- the arguments follow it: the first `?` of the name is where they begin
    have htype : type = .nix := by
      by_contra hn
      exact htail (if_neg hn)
    rw [if_pos htype] at h htail
    have hne : req.args ≠ [] := fun he => htail (by rw [HttpRequest.query, if_pos he])
    rw [HttpRequest.query, if_neg hne, hargs] at h
    rw [hargs] at hne
    obtain ⟨q, hq⟩ : ∃ q, queryPart name = some q := by
      cases hq : queryPart name with
      | none => simp [Client.sentArgs, hq] at hne
      | some q => exact ⟨q, rfl⟩
    have hsent : client.sentArgs name = Percent.quote client.querySafe q := by
      rw [Client.sentArgs, hq]
      rfl
    have hsplit := name_split name
    rw [hq, markText_some, List.cons_append] at hsplit
    have hquestion : '?' ∉ slashes ++ pathPart name := by
      rw [List.mem_append, not_or]
      exact ⟨fun hm => absurd (hslashes _ hm) (by decide), (partition_spec '?' (partition '#' name).1).1⟩
    rw [hsent] at h hne
    conv at h => rhs; rw [hsplit, ← List.append_assoc]
    obtain ⟨hcs, hqs⟩ := append_cons_inj h hquestion (by rw [List.length_append]; omega)
    -- what is sent has no `#`, so nothing was cut off
    have hcut : (partition '#' name).2 = none := by
      cases hc : (partition '#' name).2 with
      | none => rfl
      | some t =>
        rw [hc] at hqs
        exact absurd (hqs ▸ List.mem_append_right q List.mem_cons_self) (client.hash_not_mem_query q)
    rw [hcut, markText_none, List.append_nil] at hqs
    have hname := partition_eq '#' name
    rw [hcut, markText_none, List.append_nil] at hname
    have hlen := congrArg List.length hcs
    rw [List.length_append] at hlen
    refine ⟨hname ▸ (partition_spec '#' name).1, hescape (by omega), fun q' hq' => ?_⟩
    · rw [hq] at hq'
      cases hq'
      exact ⟨htype, fun he => hne (by rw [hqs, he]), hqs⟩

/-- A name that is read unchanged is the decoded path and the arguments. -/
theorem Client.ReadUnchanged.eq {client : Client} {type : RepoType} {name : Str}
    (h : client.ReadUnchanged type name) (hno : '#' ∉ name) (req : HttpRequest)
    (hargs : req.args = client.sentArgs name) :
    pathPart name ++ (if type = .nix then req.query else []) = name := by
  have hname := name_eq hno
  cases hq : queryPart name with
  | none =>
    rw [hq, markText_none, List.append_nil] at hname
    have hquery : req.query = [] := by
      rw [HttpRequest.query, hargs, Client.sentArgs, hq]
      rfl
    rw [hquery, ite_self, List.append_nil]
    exact hname.symm
  | some q =>
    obtain ⟨htype, hne, hsame⟩ := h.2 q hq
    have hsent : client.sentArgs name = q := by
      rw [Client.sentArgs, hq]
      exact hsame
    rw [if_pos htype, HttpRequest.query, hargs, hsent, if_neg hne]
    rw [hq, markText_some] at hname
    exact hname.symm

theorem captureRest_of_not_mem {s : Str} (h : '\n' ∉ s) : captureRest s = some s := by
  rw [captureRest, partition_of_not_mem _ _ h]

theorem captureRest_length {s c : Str} (h : captureRest s = some c) : c.length ≤ s.length := by
  have hlen := congrArg List.length (partition_eq '\n' s)
  rw [List.length_append] at hlen
  have hc : (partition '\n' s).1 = c := by
    unfold captureRest at h
    split at h
    · rename_i he
      cases h
      rw [he]
    · rename_i he
      cases h
      rw [he]
    · cases h
  rw [← hc]
  omega

theorem le_captureRest_length {s c : Str} (h : captureRest s = some c) : s.length ≤ c.length + 1 := by
  have hlen := congrArg List.length (partition_eq '\n' s)
  unfold captureRest at h
  split at h
  · rename_i he
    cases h
    rw [hlen, he]
    simp
  · rename_i he
    cases h
    rw [hlen, he]
    simp
  · cases h

/-- A text is captured whole exactly when it has no line break. -/
theorem captureRest_eq_self {s : Str} : captureRest s = some s ↔ '\n' ∉ s := by
  refine ⟨fun h => ?_, captureRest_of_not_mem⟩
  have hlen := congrArg List.length (partition_eq '\n' s)
  have hline := (partition_spec '\n' s).1
  unfold captureRest at h
  split at h
  · rename_i he
    rw [he] at hline
    rwa [Option.some.inj h] at hline
  · rename_i he
    rw [he, Option.some.inj h] at hlen
    simp at hlen
  · cases h

theorem mem_of_captureRest_eq_none {s : Str} (h : captureRest s = none) : '\n' ∈ s := by
  by_contra hn
  rw [captureRest_of_not_mem hn] at h
  cases h

/-! ## Dot segments -/

/-- Quoting makes no dot segments. -/
theorem Client.hasDot_quote (client : Client) {path : Str} (h : DotSegments.hasDot path = false) :
    DotSegments.hasDot (Percent.quote client.pathSafe path) = false := by
  have hslash : client.pathSafe '/' = true := client.plain '/' (by decide)
  have hparts : ∀ parts : List Str, Percent.quote client.pathSafe (['/'].intercalate parts) =
      ['/'].intercalate (parts.map (Percent.quote client.pathSafe)) := by
    intro parts
    induction parts with
    | nil => rfl
    | cons part parts ih =>
      cases parts with
      | nil => simp
      | cons next parts =>
        rw [List.intercalate_cons_cons, List.append_assoc, List.singleton_append,
          Percent.quote_append_cons hslash (by decide) (by decide), ih]
        simp
  have hpath : ['/'].intercalate (path.splitOn '/') = path := List.intercalate_splitOn '/'
  have hno : ∀ part ∈ (path.splitOn '/').map (Percent.quote client.pathSafe), '/' ∉ part := by
    intro part hpart hm
    obtain ⟨own, hown, rfl⟩ := List.mem_map.1 hpart
    rcases Percent.mem_quote client.quotesPath hm with ⟨hm, -⟩ | hm | hm
    · exact DotSegments.slash_not_mem path own hown hm
    · cases hm
    · cases hm
  rw [← hpath, hparts, DotSegments.hasDot_intercalate hno, List.any_map, List.any_eq_false]
  intro part hpart hdot
  have hpercent : '%' ∉ Percent.quote client.pathSafe part := fun hm => by
    rcases Bool.or_eq_true _ _ ▸ hdot with he | he <;> simp_all
  have hplain := List.any_eq_false.1 h part hpart
  rw [Function.comp_apply, Percent.quote_eq_self hpercent] at hdot
  exact hplain hdot

theorem hasDot_sentPath (path : Str) : DotSegments.hasDot (sentPath path) = false := by
  unfold sentPath
  split
  · rfl
  · exact DotSegments.hasDot_resolve path

theorem hasDot_slashes {slashes : Str} (h : ∀ c ∈ slashes, c = '/') (path : Str) :
    DotSegments.hasDot (slashes ++ path) = DotSegments.hasDot path := by
  induction slashes with
  | nil => rfl
  | cons c slashes ih =>
    obtain rfl := h c List.mem_cons_self
    rw [List.cons_append, DotSegments.hasDot_slash_cons, ih fun c hc => h c (List.mem_cons_of_mem _ hc)]

section Dots
variable {client : Client} {base basis basis' owner rest c path : Str}

/-- What arrives of a path below a base: the part of the base that is left, and no more than what is left behind it. -/
theorem Client.arrives_before {before after : Str} (hplain : ∀ c ∈ before, isUriChar c = true)
    (hresolve : DotSegments.resolve path = before ++ after) {d : Str}
    (hpath : decodePath (Percent.quote client.pathSafe (sentPath path)) = some d) :
    d = ['/'] ∨ ∃ rest, d = before ++ rest ∧ rest.length ≤ after.length := by
  unfold sentPath at hpath
  split at hpath
  · have hroot : ∀ c ∈ ['/'], isUriChar c = true := List.all_eq_true.1 (by decide)
    have hquote := client.quote_plain hroot []
    rw [List.append_nil, Percent.quote, List.append_nil] at hquote
    rw [hquote] at hpath
    exact .inl (Option.some.inj hpath).symm
  · rw [hresolve, Client.quote_plain hplain, decodePath_append hplain] at hpath
    obtain ⟨rest, hrest, rfl⟩ := Option.map_eq_some_iff.1 hpath
    obtain ⟨hrest, -⟩ := Option.filter_eq_some_iff.1 hrest
    exact .inr ⟨rest, rfl, (Percent.length_le_of_unquote client.quotesPath hrest).1⟩

/-- **Dot segments are lost**: no location that owns the path that arrives puts the name back behind its own prefix. -/
theorem Client.not_prefix_of_dots {segments : List Str} (habsolute : base.splitOn '/' = [] :: segments)
    (hplain : ∀ c ∈ base ++ ['/'], isUriChar c = true) (hbase : DotSegments.hasDot base = false)
    (hrest : DotSegments.hasDot rest = true)
    (hpath : decodePath (Percent.quote client.pathSafe (sentPath (base ++ '/' :: rest))) = some path)
    (howner : owner <+: path) (hlong : 1 < owner.length)
    (huniq : base ++ ['/'] <+: path ∨ owner <+: base ++ ['/'] → owner = base ++ ['/'])
    (hsame : owner = base ++ ['/'] → basis' = basis) (hc : owner.length + c.length ≤ path.length)
    (hslash : ['/'] <:+ basis) (hdots : DotSegments.hasDot basis' = false) : ¬ basis ++ rest <+: basis' ++ c := by
  intro hprefix
  obtain ⟨before, after, hresolve, hbefore, hlt, hleft⟩ := DotSegments.resolve_append habsolute hbase hrest
  rcases Client.arrives_before (fun c hm => hplain c (hbefore.subset hm)) hresolve hpath with rfl | ⟨d, rfl, hd⟩
  · have := howner.length_le
    simp only [List.length_singleton] at this
    omega
  have hlength : basis.length + rest.length ≤ basis'.length + c.length := by simpa using hprefix.length_le
  rw [List.length_append] at hc
  by_cases hown : owner <+: before
  · -- the owner is the base, and what is left behind it is too short
    have he := huniq (.inr (hown.trans hbefore))
    rw [hsame he] at hlength
    have := hown.length_le
    have := hbefore.length_le
    rw [he] at hc
    omega
  have hlonger : before.length < owner.length := by
    by_contra hle
    exact hown (List.prefix_of_prefix_length_le howner (List.prefix_append before d) (by omega))
  rcases hleft with he | rfl | ⟨pre, post, rfl, hpre, hpost⟩
  · exact hown ((huniq (.inl (he ▸ List.prefix_append before d))).trans he.symm ▸ List.prefix_refl before)
  · simp only [List.length_nil] at hd
    omega
  · -- another base would have to reach behind a `..`
    have hinside : basis ++ pre ++ "../".toList <+: basis' := by
      refine List.prefix_of_prefix_length_le ((List.prefix_append _ post).trans ?_) (List.prefix_append basis' c) ?_
      · simpa [List.append_assoc] using hprefix
      · simp only [List.length_append] at hlength ⊢
        omega
    obtain ⟨front, hfront⟩ : ∃ front, basis ++ pre = front ++ ['/'] := by
      rcases hpre with rfl | ⟨front, rfl⟩
      · obtain ⟨front, hfront⟩ := hslash
        exact ⟨front, by rw [List.append_nil, hfront]⟩
      · exact ⟨basis ++ front, by rw [List.append_assoc]⟩
    obtain ⟨tail, rfl⟩ := hinside
    have hdot : DotSegments.hasDot (front ++ '/' :: (['.', '.'] ++ '/' :: tail)) = true := by
      have hdots : DotSegments.hasDot ['.', '.'] = true := by decide
      rw [DotSegments.hasDot_append_cons, DotSegments.hasDot_append_cons, hdots, Bool.true_or, Bool.or_true]
    rw [hfront] at hdots
    simp only [List.append_assoc, List.singleton_append] at hdots
    exact absurd (hdot.symm.trans hdots) (by decide)

end Dots

/-- Two texts with one slash each to begin with agree in front of it and behind it. -/
theorem eq_of_append_slash {a b x y : Str} (ha : '/' ∉ a) (hb : '/' ∉ b) (h : a ++ '/' :: x = b ++ '/' :: y) :
    a = b ∧ x = y := by
  have hparts := congrArg (partition '/') h
  rw [partition_append ha, partition_append hb, Prod.mk.injEq, Option.some.injEq] at hparts
  exact hparts

/-- What stands in front of a query is the path. -/
theorem prefix_of_append_eq {front tail u query : Str} (h : u ++ query = front ++ tail)
    (hquery : query = [] ∨ ∃ rest, query = '?' :: rest) (hfront : '?' ∉ front) : front <+: u := by
  rcases List.append_eq_append_iff.1 h with ⟨a, hu, hq⟩ | ⟨a, hu, -⟩
  · cases a with
    | nil => exact hu ▸ (List.append_nil u).symm ▸ List.prefix_refl u
    | cons x a =>
      rcases hquery with rfl | ⟨rest, rfl⟩
      · cases hq
      · obtain rfl := (List.cons_eq_cons.1 hq).1
        exact absurd (hu ▸ List.mem_append_right u List.mem_cons_self) hfront
  · exact hu ▸ List.prefix_append front a

theorem HttpRequest.query_cases (req : HttpRequest) (type : RepoType) : (if type = .nix then req.query else []) = [] ∨
    ∃ rest, (if type = .nix then req.query else []) = '?' :: rest := by
  unfold HttpRequest.query
  split
  · split
    · exact .inl rfl
    · exact .inr ⟨_, rfl⟩
  · exact .inl rfl

theorem Route.rewritten_cases (route : Route) {loc uri : Str} (h : loc <+: uri) :
    (∃ c, route.rewritten loc uri = route.remote ++ c ∧ loc.length + c.length ≤ uri.length) ∨
      route.rewritten loc uri = uri ∧ '\n' ∈ uri := by
  obtain ⟨rest, rfl⟩ := h
  unfold Route.rewritten
  rw [List.drop_left]
  split
  · rename_i he
    exact .inl ⟨rest, by rw [he], by rw [List.length_append]⟩
  · split
    · rename_i c hc
      refine .inl ⟨c, rfl, ?_⟩
      have := captureRest_length hc
      rw [List.length_append]
      omega
    · rename_i hnone
      exact .inr ⟨rfl, List.mem_append_right _ (mem_of_captureRest_eq_none hnone)⟩

/-! ## The three keys -/

theorem slash_uriChar {slashes : Str} (h : ∀ c ∈ slashes, c = '/') : ∀ c ∈ slashes, isUriChar c = true :=
  fun c hc => h c hc ▸ by decide

theorem utf8_uriChars {s : Str} (h : ∀ c ∈ s, isUriChar c = true) : utf8 s = s :=
  utf8_of_ascii fun c hc => (plainChar_of_uriChar (h c hc)).ascii

/-- **The key of a bound key function**, in bytes. -/
theorem utf8_key {config : Config} {routes : Routes} (h : computeRoutes config = .ok routes) {repo : RepoConfig}
    (hr : repo ∈ config.repos) {route : Route} (hown : OwnRoute routes repo route) {slashes : Str}
    (hslashes : ∀ c ∈ slashes, c = '/')
    (hpath : ∀ filename, packagePath repo filename = repoLocal repo ++ (slashes ++ filename)) {k : BoundKey}
    (hk : CacheKeyBuilder.forRepo ⟨routes, config.nginx.enableDedup⟩ repo = .ok k) (filename : Str) :
    utf8 (k.key filename) = routes.keyPrefix ++ ("http".toList ++ (route.host ++
      ((if config.nginx.enableDedup then route.remote else repoLocal repo) ++ (slashes ++ utf8 filename)))) := by
  obtain ⟨k', r, hk', hfound, -, hkey⟩ := CacheKeyBuilder.forRepo_ok (b := ⟨routes, config.nginx.enableDedup⟩)
    (computeRoutes_accepted h) hr
  rw [hk] at hk'
  cases hk'
  rw [hown.found, Option.some.injEq] at hfound
  subst hfound
  have hkp : utf8 routes.keyPrefix = routes.keyPrefix := utf8_of_ascii fun c hc => (keyPrefix_plain h c hc).1
  have hhost : utf8 route.host = route.host := utf8_of_ascii fun c hc => (hown.hostPlain c hc).1
  have hhttp : utf8 "http".toList = "http".toList := rfl
  rw [hkey, CacheKeyBuilder.pathKey, hpath, List.drop_left, Option.getD_none]
  simp only [utf8_append, hkp, hhost, hhttp, List.append_assoc]
  by_cases hd : config.nginx.enableDedup = true
  · simp only [if_pos hd, utf8_append, utf8_uriChars hown.remotePlain, utf8_uriChars (slash_uriChar hslashes)]
  · simp only [if_neg hd, utf8_append, utf8_uriChars hown.locPlain, utf8_uriChars (slash_uriChar hslashes)]

/-- **The predicted key**, in bytes. -/
theorem computeCacheKey_eq {config : Config} {routes : Routes} (h : computeRoutes config = .ok routes)
    {repo : RepoConfig} (hr : repo ∈ config.repos) {route : Route} (hown : OwnRoute routes repo route) {slashes : Str}
    (hslashes : ∀ c ∈ slashes, c = '/')
    (hpath : ∀ filename, packagePath repo filename = repoLocal repo ++ (slashes ++ filename)) (filename : Str) :
    ∃ key, computeCacheKey config repo filename = .ok key ∧ utf8 key = routes.keyPrefix ++ ("http".toList ++ (route.host ++
      ((if config.nginx.enableDedup then route.remote else repoLocal repo) ++ (slashes ++ utf8 filename)))) := by
  have hnew : CacheKeyBuilder.new config = .ok ⟨routes, config.nginx.enableDedup⟩ := by
    unfold CacheKeyBuilder.new
    rw [h]
    rfl
  obtain ⟨k, -, hk, -⟩ := CacheKeyBuilder.forRepo_ok (b := ⟨routes, config.nginx.enableDedup⟩)
    (computeRoutes_accepted h) hr
  refine ⟨k.key filename, ?_, utf8_key h hr hown hslashes hpath hk filename⟩
  unfold computeCacheKey
  rw [hnew]
  refine bind_eq_ok.2 ⟨_, rfl, ?_⟩
  rw [hk]
  rfl

/-- The package location of a repository files the package under the predicted key. -/
def ServedUnder (client : Client) (config : Config) (routes : Routes) (repo : RepoConfig) (filename key : Str) : Prop :=
  ((client.request config (warmUrl config repo filename)).bind fun req => contentKey config routes req req.path) =
    some (utf8 key)

/-- Its purge location evicts that key. -/
def PurgedUnder (client : Client) (config : Config) (routes : Routes) (repo : RepoConfig) (filename key : Str) : Prop :=
  ((client.request config (purgeUrl config repo filename)).bind (purgeKey config routes)) = some (utf8 key)

/-- A name with a control character is not requested. -/
theorem Client.request_control (client : Client) (config : Config) (path : Str) {filename : Str}
    (h : ¬ ∀ c ∈ utf8 filename, isControl c = false) :
    client.request config (config.cacheBaseUrl ++ (path ++ filename)) = none := by
  push Not at h
  obtain ⟨c, hc, hcontrol⟩ := h
  have hany : (utf8 (path ++ filename)).any isControl = true :=
    List.any_eq_true.2 ⟨c, by rw [utf8_append]; exact List.mem_append_right _ hc, by simpa using hcontrol⟩
  unfold Client.request Client.target
  rw [List.drop_left, if_pos hany]
  exact ite_self none

theorem dollar_not_mem_keyPrefix {config : Config} {routes : Routes} (h : computeRoutes config = .ok routes) :
    '$' ∉ routes.keyPrefix := fun hm => (keyPrefix_plain h _ hm).2 rfl

theorem newline_not_mem {name : Str} (h : ∀ c ∈ name, isControl c = false) : '\n' ∉ name :=
  fun hm => absurd (h _ hm) (by decide)

/-- A path that is read unchanged arrives without a line break. -/
theorem Client.ReadUnchanged.newline_not_arrived {client : Client} {type : RepoType} {name slashes d : Str}
    (hread : client.ReadUnchanged type name) (hslashes : ∀ x ∈ slashes, x = '/')
    (hname : ∀ c ∈ name, isControl c = false) (harrives : client.Arrives (pathPart name) d) : '\n' ∉ slashes ++ d := by
  rw [List.mem_append, not_or, (harrives.eq hread.1.1).1]
  exact ⟨fun hm => absurd (hslashes _ hm) (by decide), fun hm => newline_not_mem hname (pathPart_subset _ _ hm)⟩

/-- **A capture and the arguments** are the name exactly where the name is read unchanged. -/
theorem Client.read_iff (client : Client) {type : RepoType} {name slashes d c : Str} (hslashes : ∀ x ∈ slashes, x = '/')
    (hname : ∀ c ∈ name, isControl c = false) (harrives : client.Arrives (pathPart name) d) {req : HttpRequest}
    (hargs : req.args = client.sentArgs name) (hc : captureRest (slashes ++ d) = some c) :
    c ++ (if type = .nix then req.query else []) = slashes ++ name ↔ '#' ∉ name ∧ client.ReadUnchanged type name := by
  refine ⟨client.readUnchanged_of_eq hslashes harrives (captureRest_length hc) req hargs, fun ⟨hno, hread⟩ => ?_⟩
  rw [captureRest_of_not_mem (hread.newline_not_arrived hslashes hname harrives), Option.some.injEq] at hc
  rw [← hc, (harrives.eq hread.1.1).1, List.append_assoc, hread.eq hno req hargs]

theorem slash_cons_of_isUri {value : Str} (h : isUri value = true) (rest : Str) : ∃ tail, value ++ rest = '/' :: tail := by
  obtain ⟨tail, rfl⟩ := head_of_isUri h
  exact ⟨tail ++ rest, rfl⟩

namespace OwnRoute
variable {client : Client} {config : Config} {routes : Routes} {repo repo' : RepoConfig} {route route' : Route}
  {slashes : Str} (hown : OwnRoute routes repo route)
include hown

theorem path_plain (hslashes : ∀ c ∈ slashes, c = '/') : ∀ c ∈ repoLocal repo ++ slashes, isUriChar c = true := fun c hc =>
  (List.mem_append.1 hc).elim (hown.locPlain c) (slash_uriChar hslashes c)

/-- The dot segments of a path under the local prefix are those of the name. -/
theorem hasDot_path (hslashes : ∀ c ∈ slashes, c = '/') (name : Str) :
    DotSegments.hasDot (repoLocal repo ++ slashes ++ name) = DotSegments.hasDot name := by
  obtain ⟨inner, hbase⟩ := hown.base
  have hdots := dots_of_isUri hown.loc
  rw [hbase, DotSegments.hasDot_append_cons, Bool.or_eq_false_iff] at hdots
  have hpath : repoLocal repo ++ slashes ++ name = '/' :: inner ++ '/' :: (slashes ++ name) := by
    rw [hbase]
    simp
  rw [hpath, DotSegments.hasDot_append_cons, hdots.1, Bool.false_or, hasDot_slashes hslashes]

/-- Keys that agree name the same file below their hosts. -/
theorem eq_of_key (hown' : OwnRoute routes repo' route') {p x y : Str} (hx : ∃ rest, x = '/' :: rest)
    (hy : ∃ rest, y = '/' :: rest)
    (h : p ++ ("http".toList ++ (route.host ++ x)) = p ++ ("http".toList ++ (route'.host ++ y))) : x = y := by
  obtain ⟨a, rfl⟩ := hx
  obtain ⟨b, rfl⟩ := hy
  rw [List.append_cancel_left_eq, List.append_cancel_left_eq] at h
  rw [(eq_of_append_slash hown.slash_not_mem_host hown'.slash_not_mem_host h).2]

theorem slash_cons_rewritten {uri : Str} (hpre : repoLocal repo <+: uri) (rest : Str) :
    ∃ tail, route.rewritten (repoLocal repo) uri ++ rest = '/' :: tail := by
  rcases route.rewritten_cases hpre with ⟨c, he, -⟩ | ⟨he, -⟩
  · rw [he, List.append_assoc]
    exact slash_cons_of_isUri hown.remote _
  · obtain ⟨after, rfl⟩ := hpre
    rw [he, List.append_assoc]
    exact slash_cons_of_isUri hown.loc _

theorem long : 1 < (repoLocal repo).length := by
  obtain ⟨inner, hbase⟩ := hown.base
  rw [hbase]
  simp

theorem route_eq (hown' : OwnRoute routes repo' route') (h : repoLocal repo' = repoLocal repo) : route' = route := by
  have := hown'.found
  rwa [h, hown.found, Option.some.injEq, eq_comm] at this

/-- A request for a name with dot segments, below the prefix of a package or of a purge location. -/
theorem not_prefix_of_dots (hacc : routes.Accepted config) (hown' : OwnRoute routes repo' route')
    (hslashes : ∀ c ∈ slashes, c = '/') {front name path c basis basis' : Str}
    (hfront : front = [] ∨ front = "/purge".toList) (hdots : DotSegments.hasDot name = true)
    (hpath : decodePath (Percent.quote client.pathSafe (sentPath (front ++ (repoLocal repo ++ slashes) ++ name))) = some path)
    (howner : front ++ repoLocal repo' <+: path) (hc : (front ++ repoLocal repo').length + c.length ≤ path.length)
    (hsame : repoLocal repo' = repoLocal repo → basis' = basis) (hslash : ['/'] <:+ basis)
    (hbasis : DotSegments.hasDot basis' = false) : ¬ basis ++ (slashes ++ name) <+: basis' ++ c := by
  obtain ⟨inner, hbase⟩ := hown.base
  have hloc : (front ++ '/' :: inner) ++ ['/'] = front ++ repoLocal repo := by rw [hbase, List.append_assoc]
  have hfrontPlain : ∀ c ∈ front, isUriChar c = true := by
    rcases hfront with rfl | rfl
    · exact fun c hc => absurd hc List.not_mem_nil
    · exact List.all_eq_true.1 (by decide)
  have hinner : DotSegments.hasDot inner = false := by
    have hdots := dots_of_isUri hown.loc
    rw [hbase, DotSegments.hasDot_append_cons, Bool.or_eq_false_iff, DotSegments.hasDot_slash_cons] at hdots
    exact hdots.1
  have hfrontDots : DotSegments.hasDot (front ++ '/' :: inner) = false := by
    rw [DotSegments.hasDot_append_cons, hinner, Bool.or_false]
    rcases hfront with rfl | rfl <;> rfl
  have hcons : ∀ text : Str, ('/' :: text).splitOn '/' = [] :: text.splitOn '/' := fun text => by
    rw [List.splitOn_cons_eq_if_modifyHead, if_pos (beq_self_eq_true '/')]
  obtain ⟨segments, habsolute⟩ : ∃ segments, (front ++ '/' :: inner).splitOn '/' = [] :: segments := by
    rcases hfront with rfl | rfl
    · exact ⟨_, hcons inner⟩
    · exact ⟨_, hcons _⟩
  have hsent : front ++ (repoLocal repo ++ slashes) ++ name = (front ++ '/' :: inner) ++ '/' :: (slashes ++ name) := by
    rw [hbase]
    simp
  rw [hsent] at hpath
  refine Client.not_prefix_of_dots habsolute ?_ hfrontDots ?_ hpath howner ?_ ?_ ?_ hc hslash hbasis
  · rw [hloc]
    exact fun c hc => (List.mem_append.1 hc).elim (hfrontPlain c) (hown.locPlain c)
  · rwa [hasDot_slashes hslashes]
  · rw [List.length_append]
    have := hown'.long
    omega
  · rw [hloc]
    obtain ⟨rest, rfl⟩ := howner
    rw [List.append_assoc]
    rintro (hpre | hpre)
    · exact congrArg (front ++ ·) (hacc.route_unique hown'.mem_keys hown.mem_keys (List.prefix_append _ _)
        ((List.prefix_append_right_inj front).1 hpre))
    · exact congrArg (front ++ ·) (hacc.route_unique hown'.mem_keys hown.mem_keys
        ((List.prefix_append_right_inj front).1 hpre) (List.prefix_refl _))
  · rw [hloc]
    exact fun he => hsame (List.append_cancel_left he)

theorem path_ne_nil (slashes : Str) : repoLocal repo ++ slashes ≠ [] := by
  obtain ⟨inner, hbase⟩ := hown.base
  rw [hbase]
  simp

theorem hasDot_purgePath (hslashes : ∀ c ∈ slashes, c = '/') (name : Str) :
    DotSegments.hasDot ("/purge".toList ++ (repoLocal repo ++ slashes) ++ name) = DotSegments.hasDot name := by
  have hloc := hown.hasDot_path hslashes name
  obtain ⟨inner, hbase⟩ := hown.base
  have hpurge : DotSegments.hasDot "/purge".toList = false := by decide
  have hpath : repoLocal repo ++ slashes ++ name = '/' :: (inner ++ '/' :: (slashes ++ name)) := by
    rw [hbase]
    simp
  rw [hpath, DotSegments.hasDot_slash_cons] at hloc
  rw [List.append_assoc, hpath, DotSegments.hasDot_append_cons, hpurge, Bool.false_or, hloc]

end OwnRoute

theorem purge_plain {pre : Str} (h : ∀ c ∈ pre, isUriChar c = true) : ∀ c ∈ "/purge".toList ++ pre, isUriChar c = true := by
  have hpurge : ∀ c ∈ "/purge".toList, isUriChar c = true := List.all_eq_true.1 (by decide)
  exact fun c hc => (List.mem_append.1 hc).elim (hpurge c) (h c)

theorem sentPath_slash_cons (path : Str) : ∃ rest, sentPath ('/' :: path) = '/' :: rest := by
  unfold sentPath
  split
  · exact ⟨[], rfl⟩
  · rename_i hne
    exact (DotSegments.resolve_slash_cons path).resolve_left hne

theorem Client.sentTarget_slash_cons (client : Client) {path rest : Str} (h : path = '/' :: rest) (name : Str) :
    ∃ tail, client.sentTarget path name = '/' :: tail := by
  unfold Client.sentTarget
  rw [h, Percent.quote_cons_of_safe (client.plain '/' (by decide))]
  exact ⟨_, rfl⟩

section Basis
variable {name slashes basis : Str} (hslashes : ∀ c ∈ slashes, c = '/') (hbasis : ∀ c ∈ basis, isUriChar c = true)
include hslashes hbasis

/-- A key that goes on with a query has the path of the name before it. -/
theorem prefix_of_name {u query : Str} (h : u ++ query = basis ++ (slashes ++ name))
    (hquery : query = [] ∨ ∃ rest, query = '?' :: rest) : basis ++ (slashes ++ pathPart name) <+: u := by
  rw [name_split name, ← List.append_assoc slashes, ← List.append_assoc basis] at h
  refine prefix_of_append_eq h hquery ?_
  rw [List.mem_append, List.mem_append, not_or, not_or]
  refine ⟨fun hm => absurd (hbasis _ hm) (by decide), fun hm => absurd (hslashes _ hm) (by decide), ?_⟩
  exact (partition_spec '?' (partition '#' name).1).1

theorem newline_not_mem_basis (hname : ∀ c ∈ name, isControl c = false) : '\n' ∉ basis ++ (slashes ++ name) := by
  rw [List.mem_append, List.mem_append, not_or, not_or]
  exact ⟨fun hm => absurd (hbasis _ hm) (by decide), fun hm => absurd (hslashes _ hm) (by decide), newline_not_mem hname⟩

end Basis

section Urls
variable {config : Config} {repo : RepoConfig} {slashes filename : Str}
  (hpath : ∀ filename, packagePath repo filename = repoLocal repo ++ (slashes ++ filename))
include hpath

theorem warmUrl_eq : warmUrl config repo filename = config.cacheBaseUrl ++ ((repoLocal repo ++ slashes) ++ filename) := by
  rw [warmUrl, hpath, List.append_assoc]

theorem purgeUrl_eq : purgeUrl config repo filename =
    config.cacheBaseUrl ++ ("/purge".toList ++ (repoLocal repo ++ slashes) ++ filename) := by
  rw [purgeUrl, hpath]
  simp only [List.append_assoc]

end Urls

section Agreement
variable {client : Client} {config : Config} {routes : Routes} {repo : RepoConfig} {route : Route} {slashes key : Str}
  (h : computeRoutes config = .ok routes) (hr : repo ∈ config.repos) (hown : OwnRoute routes repo route)
  (hslashes : ∀ c ∈ slashes, c = '/')
  (hpath : ∀ filename, packagePath repo filename = repoLocal repo ++ (slashes ++ filename)) {filename : Str}
  (hkey : utf8 key = routes.keyPrefix ++ ("http".toList ++ (route.host ++
    ((if config.nginx.enableDedup then route.remote else repoLocal repo) ++ (slashes ++ utf8 filename)))))

include h hown hslashes hpath hkey

/-- **Serving** a name with dot segments takes another key. -/
theorem not_servedUnder_of_dots (hcontrol : ∀ c ∈ utf8 filename, isControl c = false)
    (hdots : DotSegments.hasDot (pathPart (utf8 filename)) = true) : ¬ ServedUnder client config routes repo filename key := by
  intro hserved
  have hacc := computeRoutes_accepted h
  unfold ServedUnder at hserved
  rw [warmUrl_eq hpath, Client.request_eq (hown.path_plain hslashes) hcontrol] at hserved
  obtain ⟨req, hreq, hcontent⟩ := Option.bind_eq_some_iff.1 hserved
  split at hreq
  · cases hreq
  obtain ⟨path, harrived, rfl⟩ := Option.map_eq_some_iff.1 hreq
  obtain ⟨repo', route', hown', hpre, hkey'⟩ := exists_of_contentKey hacc (dollar_not_mem_keyPrefix h) hcontent
  rw [hkey] at hkey'
  unfold contentBasis at hkey'
  by_cases hd : config.nginx.enableDedup = true
  · rw [if_pos hd, if_pos hd] at hkey'
    have hbasis := hown.eq_of_key hown' (slash_cons_of_isUri hown.remote _) (hown'.slash_cons_rewritten hpre _) hkey'
    rcases route'.rewritten_cases hpre with ⟨c, he, hc⟩ | ⟨he, hline⟩
    · rw [he] at hbasis
      refine hown.not_prefix_of_dots hacc hown' hslashes (.inl rfl) hdots harrived hpre hc
        (fun hlocs => by rw [hown.route_eq hown' hlocs]) hown.slash (dots_of_isUri hown'.remote)
        (prefix_of_name hslashes hown.remotePlain hbasis.symm (HttpRequest.query_cases _ _))
    · -- the key has no line break
      refine newline_not_mem_basis hslashes hown.remotePlain hcontrol ?_
      rw [hbasis, he]
      exact List.mem_append_left _ hline
  · rw [if_neg hd, if_neg hd] at hkey'
    obtain ⟨rest, hrest⟩ : ∃ rest, sentPath (repoLocal repo ++ slashes ++ pathPart (utf8 filename)) = '/' :: rest := by
      obtain ⟨a, ha⟩ := head_of_isUri hown.loc
      rw [ha]
      exact sentPath_slash_cons _
    have hbasis := hown.eq_of_key hown' (slash_cons_of_isUri hown.loc _) (client.sentTarget_slash_cons hrest _) hkey'
    -- the raw target has no dot segments, and the name has
    have hno : '#' ∉ utf8 filename := fun hm => client.hash_not_mem_target _ _
      (hbasis ▸ List.mem_append_right _ (List.mem_append_right _ hm))
    have hquestion : '?' ∉ repoLocal repo ++ slashes := fun hm => absurd (hown.path_plain hslashes _ hm) (by decide)
    have hparts := congrArg (partition '?') hbasis
    rw [client.partition_target, ← List.append_assoc, partition_append_left hquestion, Prod.mk.injEq] at hparts
    have hpart : (partition '?' (utf8 filename)).1 = pathPart (utf8 filename) := by
      rw [pathPart, partition_of_not_mem _ _ hno]
    have hquoted := client.hasDot_quote (hasDot_sentPath (repoLocal repo ++ slashes ++ pathPart (utf8 filename)))
    rw [← hparts.1, hpart, hown.hasDot_path hslashes, hdots] at hquoted
    cases hquoted

/-- **Serving**: the package location agrees when the name is sent or, with redirects on, read unchanged. -/
theorem servedUnder_iff : ServedUnder client config routes repo filename key ↔ Sendable (utf8 filename) ∧
    (warmUrl config repo filename).length ≤ client.maxUrl ∧
    (if config.nginx.enableDedup then client.ReadUnchanged repo.type (utf8 filename)
      else client.SendsUnchanged (utf8 filename) ∧ (decodePath (pathPart (utf8 filename))).isSome = true) := by
  have hacc := computeRoutes_accepted h
  by_cases hctl : ∀ c ∈ utf8 filename, isControl c = false
  swap
  · unfold ServedUnder
    rw [warmUrl_eq hpath, client.request_control config _ hctl]
    exact iff_of_false (fun hn => by cases hn) fun hs => hctl hs.1.1
  by_cases hdots : DotSegments.hasDot (pathPart (utf8 filename)) = true
  · exact iff_of_false (not_servedUnder_of_dots h hown hslashes hpath hkey hctl hdots)
      fun hs => absurd (hdots.symm.trans hs.1.2.2) (by decide)
  rw [Bool.not_eq_true] at hdots
  have hplain := hown.path_plain hslashes
  unfold ServedUnder
  rw [warmUrl_eq hpath]
  by_cases hlength : (config.cacheBaseUrl ++ ((repoLocal repo ++ slashes) ++ filename)).length ≤ client.maxUrl
  swap
  · rw [Client.request_eq hplain hctl, if_pos (by omega)]
    exact iff_of_false (fun hn => by cases hn) fun hs => hlength hs.2.1
  rw [Client.request_plain hplain hctl (hown.path_ne_nil slashes) hlength (by rwa [hown.hasDot_path hslashes]),
    sendable_iff hctl hdots, and_iff_right hlength]
  have hbytes : ∀ c ∈ pathPart (utf8 filename), c.toNat < 256 := fun c hc => utf8_lt filename c (pathPart_subset _ c hc)
  have hcontrol : ∀ c ∈ pathPart (utf8 filename), isControl c = false := fun c hc => hctl c (pathPart_subset _ c hc)
  cases hdecode : decodePath (Percent.quote client.pathSafe (pathPart (utf8 filename))) with
  | none =>
    -- the request is refused
    refine iff_of_false (fun hn => by cases hn) ?_
    rintro ⟨-, hmode⟩
    split at hmode
    · rw [hmode.1.decodePath hbytes hcontrol] at hdecode
      cases hdecode
    · rw [hmode.1.1] at hdecode
      rw [hdecode] at hmode
      cases hmode.2
  | some d =>
    have harrives := Client.arrives hbytes hdecode
    rw [Option.map_some, Option.bind_some, contentKey_eq hacc (dollar_not_mem_keyPrefix h) hown.found hown.kind
      ((List.prefix_append _ _).trans (List.prefix_append _ _)), hkey, Option.some.injEq, List.append_cancel_left_eq,
      List.append_cancel_left_eq, List.append_cancel_left_eq]
    unfold contentBasis
    by_cases hd : config.nginx.enableDedup = true
    swap
    · -- the raw target is the basis
      rw [if_neg hd, if_neg hd, if_neg hd, List.append_assoc, List.append_cancel_left_eq, List.append_cancel_left_eq,
        client.sent_eq_iff]
      refine ⟨fun ⟨hno, hsent⟩ => ⟨hno, hsent, ?_⟩, fun ⟨hno, hsent, _⟩ => ⟨hno, hsent⟩⟩
      rw [← hsent.1, hdecode]
      rfl
    · -- the rewritten path and the arguments are the basis
      rw [if_pos hd, if_pos hd, if_pos hd]
      unfold Route.rewritten
      rw [List.append_assoc, List.drop_left]
      by_cases hloc : repoLocal repo = route.remote
      · rw [if_pos hloc, ← hloc, List.append_assoc, List.append_cancel_left_eq]
        constructor
        · exact client.readUnchanged_of_eq hslashes harrives (Nat.le_refl _) _ rfl
        · rintro ⟨hno, hread⟩
          rw [(harrives.eq hread.1.1).1, List.append_assoc, hread.eq hno _ rfl]
      · rw [if_neg hloc]
        cases hc : captureRest (slashes ++ d) with
        | some c =>
          dsimp only
          rw [List.append_assoc, List.append_cancel_left_eq]
          exact client.read_iff hslashes hctl harrives rfl hc
        | none =>
          -- the rewrite does not apply: the decoded path has a line break, and the key has none
          have hline := mem_of_captureRest_eq_none hc
          refine iff_of_false (fun he => ?_) fun ⟨_, hread⟩ => hread.newline_not_arrived hslashes hctl harrives hline
          have hmem : '\n' ∈ route.remote ++ (slashes ++ utf8 filename) :=
            he ▸ List.mem_append_left _ (List.mem_append_right _ hline)
          exact newline_not_mem_basis hslashes hown.remotePlain hctl hmem

/-- **Purging** a name with dot segments takes another key. -/
theorem not_purgedUnder_of_dots (hpurge : config.nginx.enablePurge = true)
    (hcontrol : ∀ c ∈ utf8 filename, isControl c = false)
    (hdots : DotSegments.hasDot (pathPart (utf8 filename)) = true) : ¬ PurgedUnder client config routes repo filename key := by
  intro hpurged
  have hacc := computeRoutes_accepted h
  unfold PurgedUnder at hpurged
  rw [purgeUrl_eq hpath, Client.request_eq (purge_plain (hown.path_plain hslashes)) hcontrol] at hpurged
  obtain ⟨req, hreq, hevicted⟩ := Option.bind_eq_some_iff.1 hpurged
  split at hreq
  · cases hreq
  obtain ⟨path, harrived, rfl⟩ := Option.map_eq_some_iff.1 hreq
  obtain ⟨repo', route', rest, c, hown', hreqPath, hc, hkey'⟩ :=
    exists_of_purgeKey hacc (dollar_not_mem_keyPrefix h) hpurge hevicted
  dsimp only at hreqPath
  rw [hkey] at hkey'
  have huri : isUri (if config.nginx.enableDedup then route'.remote else repoLocal repo') = true := by
    split
    · exact hown'.remote
    · exact hown'.loc
  have hown_uri : isUri (if config.nginx.enableDedup then route.remote else repoLocal repo) = true := by
    split
    · exact hown.remote
    · exact hown.loc
  have hslash : ['/'] <:+ (if config.nginx.enableDedup then route.remote else repoLocal repo) := by
    split
    · exact hown.slash
    · exact List.suffix_append ..
  have hbasis := hown.eq_of_key hown' (slash_cons_of_isUri hown_uri _) (slash_cons_of_isUri huri _) hkey'
  rw [← List.append_assoc (if config.nginx.enableDedup then route'.remote else repoLocal repo')] at hbasis
  have hlength : ("/purge".toList ++ repoLocal repo').length + c.length ≤ path.length := by
    have := captureRest_length hc
    rw [hreqPath, purgePath]
    simp only [List.length_append]
    omega
  refine hown.not_prefix_of_dots hacc hown' hslashes (.inr rfl) hdots harrived ?_ hlength ?_ hslash (dots_of_isUri huri)
    (prefix_of_name hslashes (mem_of_isUri hown_uri) hbasis.symm (HttpRequest.query_cases _ _))
  · rw [hreqPath, purgePath, ← List.append_assoc]
    exact List.prefix_append _ _
  · intro hlocs
    rw [hown.route_eq hown' hlocs, hlocs]

/-- **Purging**: the purge location agrees when the name is read unchanged. -/
theorem purgedUnder_iff (hpurge : config.nginx.enablePurge = true) : PurgedUnder client config routes repo filename key ↔
    Sendable (utf8 filename) ∧ (purgeUrl config repo filename).length ≤ client.maxUrl ∧
      client.ReadUnchanged repo.type (utf8 filename) := by
  have hacc := computeRoutes_accepted h
  by_cases hctl : ∀ c ∈ utf8 filename, isControl c = false
  swap
  · unfold PurgedUnder
    rw [purgeUrl_eq hpath, client.request_control config _ hctl]
    exact iff_of_false (fun hn => by cases hn) fun hs => hctl hs.1.1
  by_cases hdots : DotSegments.hasDot (pathPart (utf8 filename)) = true
  · exact iff_of_false (not_purgedUnder_of_dots h hown hslashes hpath hkey hpurge hctl hdots)
      fun hs => absurd (hdots.symm.trans hs.1.2.2) (by decide)
  rw [Bool.not_eq_true] at hdots
  have hplain := purge_plain (hown.path_plain hslashes)
  unfold PurgedUnder
  rw [purgeUrl_eq hpath]
  by_cases hlength : (config.cacheBaseUrl ++ ("/purge".toList ++ (repoLocal repo ++ slashes) ++ filename)).length ≤
      client.maxUrl
  swap
  · rw [Client.request_eq hplain hctl, if_pos (by omega)]
    exact iff_of_false (fun hn => by cases hn) fun hs => hlength hs.2.1
  rw [Client.request_plain hplain hctl (by simp) hlength (by rwa [hown.hasDot_purgePath hslashes]),
    sendable_iff hctl hdots, and_iff_right hlength]
  have hbytes : ∀ c ∈ pathPart (utf8 filename), c.toNat < 256 := fun c hc => utf8_lt filename c (pathPart_subset _ c hc)
  have hcontrol : ∀ c ∈ pathPart (utf8 filename), isControl c = false := fun c hc => hctl c (pathPart_subset _ c hc)
  cases hdecode : decodePath (Percent.quote client.pathSafe (pathPart (utf8 filename))) with
  | none =>
    refine iff_of_false (fun hn => by cases hn) fun ⟨_, hread⟩ => ?_
    rw [hread.1.decodePath hbytes hcontrol] at hdecode
    cases hdecode
  | some d =>
    have harrives := Client.arrives hbytes hdecode
    have hpurgePath : "/purge".toList ++ (repoLocal repo ++ slashes) ++ d =
        purgePath (repoLocal repo ++ (slashes ++ d)) := by
      simp only [purgePath, List.append_assoc]
    rw [Option.map_some, Option.bind_some,
      purgeKey_eq hacc (dollar_not_mem_keyPrefix h) hpurge hown hpurgePath, hkey]
    cases hc : captureRest (slashes ++ d) with
    | none =>
      have hline := mem_of_captureRest_eq_none hc
      exact iff_of_false (fun hn => by cases hn) fun ⟨_, hread⟩ => hread.newline_not_arrived hslashes hctl harrives hline
    | some c =>
      rw [Option.map_some, Option.some.injEq, List.append_cancel_left_eq, List.append_cancel_left_eq,
        List.append_cancel_left_eq, List.append_cancel_left_eq]
      exact client.read_iff hslashes hctl harrives rfl hc

end Agreement

/-- The key that is predicted is the key that serving uses, and the key that purging evicts where purging is on. -/
def KeysAgree (client : Client) (config : Config) (routes : Routes) (repo : RepoConfig) (filename : Str) : Prop :=
  ∃ key, computeCacheKey config repo filename = .ok key ∧ ServedUnder client config routes repo filename key ∧
    (config.nginx.enablePurge = true → PurgedUnder client config routes repo filename key)

/-- **When the three keys agree**: exactly for the names that requests carry through unchanged. -/
theorem keysAgree_iff (client : Client) (config : Config) (routes : Routes) (h : computeRoutes config = .ok routes)
    (repo : RepoConfig) (hr : repo ∈ config.repos) (filename : Str) :
    KeysAgree client config routes repo filename ↔ Sendable (utf8 filename) ∧
      (warmUrl config repo filename).length ≤ client.maxUrl ∧
      (if config.nginx.enableDedup then client.ReadUnchanged repo.type (utf8 filename)
        else client.SendsUnchanged (utf8 filename) ∧ (decodePath (pathPart (utf8 filename))).isSome = true) ∧
      (config.nginx.enablePurge = true → (purgeUrl config repo filename).length ≤ client.maxUrl ∧
        client.ReadUnchanged repo.type (utf8 filename)) := by
  obtain ⟨route, hown⟩ := (computeRoutes_accepted h).ownRoute hr
  obtain ⟨slashes, hslashes, hpath⟩ := packagePath_split repo
  obtain ⟨key, hok, hkey⟩ := computeCacheKey_eq h hr hown hslashes hpath filename
  have hserve : ServedUnder client config routes repo filename key ↔ _ := servedUnder_iff h hown hslashes hpath hkey
  have hpurged : config.nginx.enablePurge = true → (PurgedUnder client config routes repo filename key ↔ _) :=
    purgedUnder_iff h hown hslashes hpath hkey
  unfold KeysAgree
  rw [hok]
  constructor
  · rintro ⟨key', hk, hs, hp⟩
    cases hk
    obtain ⟨hsend, hlen, hmode⟩ := hserve.1 hs
    exact ⟨hsend, hlen, hmode, fun hon => ((hpurged hon).1 (hp hon)).2⟩
  · rintro ⟨hsend, hlen, hmode, hread⟩
    exact ⟨key, rfl, hserve.2 ⟨hsend, hlen, hmode⟩, fun hon => (hpurged hon).2 ⟨hsend, hread hon⟩⟩

theorem hexDigit_alphanum {c : Char} (h : (Percent.hexVal c).isSome = true) : c.isAlphanum = true := by
  have hascii : c.toNat < 128 := by
    unfold Percent.hexVal at h
    have h9 : '9'.toNat = 57 := rfl
    have hF : 'F'.toNat = 70 := rfl
    have hf : 'f'.toNat = 102 := rfl
    split at h
    · rename_i hc
      have : c.toNat ≤ '9'.toNat := hc.2
      omega
    split at h
    · rename_i hc
      have : c.toNat ≤ 'F'.toNat := hc.2
      omega
    split at h
    · rename_i hc
      have : c.toNat ≤ 'f'.toNat := hc.2
      omega
    · cases h
  exact forall_ascii (P := fun c => (Percent.hexVal c).isSome = true → c.isAlphanum = true) (by decide) hascii h

/-- The printable characters of ASCII without these. -/
def printableBut (except : Str) (c : Char) : Bool :=
  decide (0x20 < c.toNat) && decide (c.toNat < 0x7F) && !except.contains c

theorem printableBut_of_uriChar {except : Str} (h : except.all (fun c => !isUriChar c) = true) {c : Char}
    (hc : isUriChar c = true) : printableBut except c = true := by
  have hascii := (plainChar_of_uriChar hc).ascii
  have hrange := forall_ascii (P := fun c => isUriChar c = true → 0x20 < c.toNat ∧ c.toNat < 0x7F) (by decide) hascii hc
  have hnot : c ∉ except := fun hm => by
    have hno := List.all_eq_true.1 h c hm
    rw [hc] at hno
    cases hno
  simp [printableBut, hrange, hnot]

theorem uriChar_of_hexDigit {c : Char} (h : (Percent.hexVal c).isSome = true) : isUriChar c = true := by
  simp [isUriChar, hexDigit_alphanum h]

/-- The client that quotes by the sets of the URL standard, in which `%` is safe. -/
def httpxClient : Client where
  pathSafe := printableBut "\x22#<>?`\x7b\x7d".toList
  querySafe := printableBut "\x22#<>".toList
  maxUrl := 65536
  quotesPath := .mk fun _ hc => printableBut_of_uriChar (by decide) (uriChar_of_hexDigit hc)
  quotesQuery := .mk fun _ hc => printableBut_of_uriChar (by decide) (uriChar_of_hexDigit hc)
  plain _ := printableBut_of_uriChar (by decide)
  reserved := by decide

def debianRepo : RepoConfig := aptRepo "debian" "http://h/debian"

def debianConfig : Config where
  checkInterval := 3600
  cacheBaseUrl := "http://127.0.0.1:8080".toList
  repos := [debianRepo]
  nginx := { enableDedup := true, enablePurge := true }
  idsNodup := by decide
  versionOk := by decide

theorem keysAgree_iff_plain : ∃ routes, computeRoutes debianConfig = .ok routes ∧
    KeysAgree httpxClient debianConfig routes debianRepo "pool/main/a/a~rc1+b.deb".toList := by
  have hok : (computeRoutes debianConfig).isOk = true := by decide +kernel
  have hquery : queryPart (utf8 "pool/main/a/a~rc1+b.deb".toList) = none := by decide
  have hcontrol : (utf8 "pool/main/a/a~rc1+b.deb".toList).all (fun c => !isControl c) = true := by decide
  have hread : httpxClient.ReadUnchanged debianRepo.type (utf8 "pool/main/a/a~rc1+b.deb".toList) :=
    ⟨⟨by decide, by decide⟩, fun q hq => by (rw [hquery] at hq; cases hq)⟩
  have hsend : Sendable (utf8 "pool/main/a/a~rc1+b.deb".toList) :=
    ⟨fun c hc => by simpa using List.all_eq_true.1 hcontrol c hc, by decide, by decide⟩
  cases h : computeRoutes debianConfig with
  | error e => simp [h, Except.isOk, Except.toBool] at hok
  | ok routes =>
    exact ⟨routes, rfl, (keysAgree_iff httpxClient debianConfig routes h debianRepo (by simp [debianConfig])
      "pool/main/a/a~rc1+b.deb".toList).2 ⟨hsend, by decide +kernel, hread, fun _ => ⟨by decide +kernel, hread⟩⟩⟩

/-- A name with an escape: nginx files the package under the decoded name. -/
theorem keysAgree_escape : ∃ routes, computeRoutes debianConfig = .ok routes ∧
    computeCacheKey debianConfig debianRepo "pool/main/a/a%2Bb.deb".toList =
      .ok "httph/debian/pool/main/a/a%2Bb.deb".toList ∧
    ((httpxClient.request debianConfig (warmUrl debianConfig debianRepo "pool/main/a/a%2Bb.deb".toList)).bind
      fun req => contentKey debianConfig routes req req.path) = some "httph/debian/pool/main/a/a+b.deb".toList ∧
    ¬ KeysAgree httpxClient debianConfig routes debianRepo "pool/main/a/a%2Bb.deb".toList := by
  have hkey : computeCacheKey debianConfig debianRepo "pool/main/a/a%2Bb.deb".toList =
      .ok "httph/debian/pool/main/a/a%2Bb.deb".toList := by decide +kernel
  have hserved : (computeRoutes debianConfig).toOption.bind (fun routes =>
      (httpxClient.request debianConfig (warmUrl debianConfig debianRepo "pool/main/a/a%2Bb.deb".toList)).bind
        fun req => contentKey debianConfig routes req req.path) =
      some "httph/debian/pool/main/a/a+b.deb".toList := by decide +kernel
  cases h : computeRoutes debianConfig with
  | error e =>
    rw [h, Except.toOption, Option.bind_none] at hserved
    exact absurd hserved.symm (Option.some_ne_none _)
  | ok routes =>
    rw [h] at hserved
    refine ⟨routes, rfl, hkey, hserved, ?_⟩
    rintro ⟨key, hk, hs, -⟩
    rw [hkey] at hk
    cases hk
    exact absurd (hserved.symm.trans hs) (by decide)

end RepoWatch
