import RepoWatch.Lib.Loop
import RepoWatch.Lib.Percent
import RepoWatch.Lib.Utf8
import RepoWatch.Routing
/-!
# PathIndex — the packages behind a request path

A catalog is indexed by the paths that its packages are requested under.  Ordinary paths are stored as they are written and
the others as the URL library reads them, below the prefix of the repository or apart from it; a lookup finds every entry
once (`get_packagePathIndex`).  Requests are matched as the library reads them, so the index answers like a comparison of
all paths exactly when the library leaves the ordinary ones as they are (`matchAll_iff`).
-/
namespace RepoWatch

open Lib

/-! ## Reading a request path -/

def isAscii (c : Char) : Bool := decide (c.toNat < 128)

/-- `unquote_to_bytes` on a run of ASCII characters. -/
def unquoteToBytes : Str → List UInt8
  | '%' :: a :: b :: s =>
    match Percent.hexVal a, Percent.hexVal b with
    | some x, some y => UInt8.ofNat (16 * x + y) :: unquoteToBytes s
    | _, _ => UInt8.ofNat '%'.toNat :: unquoteToBytes (a :: b :: s)
  | c :: s => UInt8.ofNat c.toNat :: unquoteToBytes s
  | [] => []

/-- `urllib.parse.unquote`: the runs of ASCII characters are decoded, the others stay. -/
def unquote (s : Str) : Str :=
  if '%' ∉ s then s
  else (s.splitBy fun a b => isAscii a == isAscii b).flatMap fun run =>
    if run.all isAscii then Utf8.decodeReplace (unquoteToBytes run) else run

theorem unquote_of_not_mem {s : Str} (h : '%' ∉ s) : unquote s = s := if_pos h

/-- `unquote(urlsplit(url).path)`; `urlsplit` raises on a netloc that is not `netlocOk`. -/
def routePath (netlocOk : Str → Bool) (url : Str) : Option Str :=
  if netlocOk (urlsplit url).netloc then some (unquote (urlsplit url).path) else none

/-! ## The index -/

/-- `PackagePathIndex`: paths below the prefix are stored without it, the others apart. -/
structure PackagePathIndex where
  urlPrefix : Str
  relative : Dict Str (List Str)
  absolute : Dict Str (List Str)
  apart : ∀ path ∈ absolute.keys, startsWith path urlPrefix = false

/-- `target[name] = target.get(name, ()) + (key,)`. -/
def appendKey (target : Dict Str (List Str)) (name key : Str) : Dict Str (List Str) :=
  target.set name ((target.lookup name).getD [] ++ [key])

theorem lookup_appendKey (target : Dict Str (List Str)) (name key other : Str) : (appendKey target name key).lookup other =
    if other = name then some ((target.lookup name).getD [] ++ [key]) else target.lookup other := Dict.lookup_set _ _ _ _

theorem mem_keys_appendKey {target : Dict Str (List Str)} {name key other : Str} (h : other ∈ (appendKey target name key).keys) :
    other = name ∨ other ∈ target.keys := by
  by_contra hnot
  obtain ⟨hne, hmem⟩ := not_or.1 hnot
  refine absurd h (Dict.lookup_eq_none_iff.1 ?_)
  rw [lookup_appendKey, if_neg hne, Dict.lookup_eq_none_iff.2 hmem]

namespace PackagePathIndex

def new (urlPrefix : Str) : PackagePathIndex := ⟨urlPrefix, .empty, .empty, fun _ h => (nomatch h)⟩

variable (index : PackagePathIndex)

/-- `get`. -/
def get (path : Str) : Option (List Str) :=
  if startsWith path index.urlPrefix then index.relative.lookup (path.drop index.urlPrefix.length)
  else index.absolute.lookup path

/-- `__iter__`. -/
def iter : List Str := index.relative.keys.map (index.urlPrefix ++ ·) ++ index.absolute.keys

/-- `__len__`. -/
def len : Nat := index.relative.rows.length + index.absolute.rows.length

/-- An entry of the map of the ordinary paths. -/
def addRelative (name key : Str) : PackagePathIndex := { index with relative := appendKey index.relative name key }

/-- An entry under the path that the URL library reads. -/
def addPath (path key : Str) : PackagePathIndex :=
  if h : startsWith path index.urlPrefix then index.addRelative (path.drop index.urlPrefix.length) key
  else
    { index with
      absolute := appendKey index.absolute path key
      apart := fun other hother => by
        rcases mem_keys_appendKey hother with rfl | hother
        · exact Bool.eq_false_iff.2 h
        · exact index.apart other hother }

end PackagePathIndex

/-- `%?#\t\r\n`. -/
def isSpecial (c : Char) : Bool := ['%', '?', '#', '\t', '\r', '\n'].contains c

/-- Where the URL library is not asked. -/
def isOrdinary (urlPrefix filename : Str) : Bool :=
  !startsWith urlPrefix ['/', '/'] && !urlPrefix.any isSpecial &&
    !(decide (urlPrefix = ['/']) && startsWith filename ['/']) && !filename.any isSpecial

/-- The loop over the catalog. -/
def indexRows (netlocOk : Str → Bool) : List (Str × Str) → PackagePathIndex → Option PackagePathIndex
  | [], index => some index
  | (key, filename) :: rows, index =>
    if filename = [] then indexRows netlocOk rows index
    else if isOrdinary index.urlPrefix filename then indexRows netlocOk rows (index.addRelative filename key)
    else (routePath netlocOk (index.urlPrefix ++ filename)).bind fun path => indexRows netlocOk rows (index.addPath path key)

/-- `package_path_index`. -/
def packagePathIndex (netlocOk : Str → Bool) (repo : RepoConfig) (packages : Dict Str Str) : Option PackagePathIndex :=
  indexRows netlocOk packages.rows (.new (packagePrefix repo ++ ['/']))

/-- The indexes that `refresh_package_indexes` keeps, one for each configured repository. -/
def pathIndexes (netlocOk : Str → Bool) (config : Config) (catalog : Str → Dict Str Str) :
    Option (List (Str × PackagePathIndex)) :=
  config.repos.mapM fun repo => (packagePathIndex netlocOk repo (catalog repo.id)).map fun index => (repo.id, index)

/-- `match_all_package_keys`. -/
def matchAllPackageKeys (netlocOk : Str → Bool) (path : Str) (byPath : List (Str × PackagePathIndex)) :
    Option (List (Str × Str)) :=
  (routePath netlocOk path).map fun path =>
    byPath.flatMap fun entry => ((entry.2.get path).getD []).map fun key => (entry.1, key)

/-! ## What an index holds -/

namespace PackagePathIndex
variable {index : PackagePathIndex} {path key : Str}

theorem drop_of_startsWith {path urlPrefix : Str} (h : startsWith path urlPrefix = true) :
    urlPrefix ++ path.drop urlPrefix.length = path := by
  obtain ⟨rest, rfl⟩ := startsWith_iff.1 h
  rw [List.drop_left]

theorem startsWith_append (urlPrefix name : Str) : startsWith (urlPrefix ++ name) urlPrefix = true :=
  startsWith_iff.2 (List.prefix_append urlPrefix name)

/-- **An ordinary entry** is one under the path as it is written. -/
theorem addRelative_eq (index : PackagePathIndex) (name key : Str) :
    index.addRelative name key = index.addPath (index.urlPrefix ++ name) key := by
  rw [addPath, dif_pos (startsWith_append _ _), List.drop_left]

theorem urlPrefix_addPath : (index.addPath path key).urlPrefix = index.urlPrefix := by
  unfold addPath
  split <;> rfl

theorem get_of_startsWith (h : startsWith path index.urlPrefix = true) :
    index.get path = index.relative.lookup (path.drop index.urlPrefix.length) := if_pos h

theorem get_of_not_startsWith (h : startsWith path index.urlPrefix = false) : index.get path = index.absolute.lookup path :=
  if_neg (Bool.eq_false_iff.1 h)

theorem get_addPath (other : Str) : (index.addPath path key).get other =
    if other = path then some ((index.get path).getD [] ++ [key]) else index.get other := by
  cases hpath : startsWith path index.urlPrefix with
  | true =>
    have hadd : index.addPath path key = index.addRelative (path.drop index.urlPrefix.length) key := dif_pos hpath
    rw [hadd, get_of_startsWith hpath]
    cases hother : startsWith other index.urlPrefix with
    | true =>
      have hdrop : other.drop index.urlPrefix.length = path.drop index.urlPrefix.length ↔ other = path := by
        refine ⟨fun heq => ?_, fun heq => by rw [heq]⟩
        rw [← drop_of_startsWith hother, ← drop_of_startsWith hpath, heq]
      have hget : (index.addRelative (path.drop index.urlPrefix.length) key).get other =
        (index.addRelative (path.drop index.urlPrefix.length) key).relative.lookup (other.drop index.urlPrefix.length) :=
        get_of_startsWith hother
      rw [hget, get_of_startsWith hother, addRelative, lookup_appendKey]
      simp only [hdrop]
    | false =>
      have hne : other ≠ path := fun heq => by rw [heq, hpath] at hother; cases hother
      rw [if_neg hne, get_of_not_startsWith hother]
      exact get_of_not_startsWith hother
  | false =>
    have hnot : ¬ startsWith path index.urlPrefix = true := Bool.eq_false_iff.1 hpath
    have hrelative : (index.addPath path key).relative = index.relative := by rw [addPath, dif_neg hnot]
    have habsolute : (index.addPath path key).absolute = appendKey index.absolute path key := by rw [addPath, dif_neg hnot]
    rw [get_of_not_startsWith hpath]
    unfold get
    rw [urlPrefix_addPath, hrelative, habsolute]
    cases hother : startsWith other index.urlPrefix with
    | true =>
      have hne : other ≠ path := fun heq => by rw [heq, hpath] at hother; cases hother
      rw [if_pos rfl, if_pos rfl, if_neg hne]
    | false => exact lookup_appendKey _ _ _ _

/-- A path that is found is one that is iterated. -/
theorem mem_iter_iff : path ∈ index.iter ↔ (index.get path).isSome = true := by
  have hsome : ∀ (map : Dict Str (List Str)) (name : Str), name ∈ map.keys ↔ (map.lookup name).isSome = true := fun map name => by
    rw [← not_iff_not, ← Dict.lookup_eq_none_iff, Option.not_isSome_iff_eq_none]
  unfold iter
  rw [List.mem_append, List.mem_map]
  cases hpath : startsWith path index.urlPrefix with
  | true =>
    rw [get_of_startsWith hpath, ← hsome]
    constructor
    · rintro (⟨name, hname, rfl⟩ | habsolute)
      · rwa [List.drop_left]
      · rw [index.apart path habsolute] at hpath
        cases hpath
    · exact fun hname => .inl ⟨_, hname, drop_of_startsWith hpath⟩
  | false =>
    rw [get_of_not_startsWith hpath, ← hsome]
    refine ⟨?_, .inr⟩
    rintro (⟨name, -, rfl⟩ | habsolute)
    · rw [startsWith_append] at hpath
      cases hpath
    · exact habsolute

/-- **No path is in both maps**, and none is iterated twice. -/
theorem nodup_iter (index : PackagePathIndex) : index.iter.Nodup := by
  refine List.nodup_append.2 ⟨?_, index.absolute.keysNodup, ?_⟩
  · exact index.relative.keysNodup.map (List.append_right_injective index.urlPrefix)
  · rintro _ hrelative path habsolute rfl
    obtain ⟨name, -, rfl⟩ := List.mem_map.1 hrelative
    have hapart := index.apart _ habsolute
    rw [startsWith_append] at hapart
    cases hapart

theorem length_iter (index : PackagePathIndex) : index.iter.length = index.len := by
  unfold iter len Dict.keys
  rw [List.length_append, List.length_map, List.length_map, List.length_map]

end PackagePathIndex

/-- The path that an entry is stored under. -/
def storedPath (netlocOk : Str → Bool) (urlPrefix filename : Str) : Option Str :=
  if isOrdinary urlPrefix filename then some (urlPrefix ++ filename) else routePath netlocOk (urlPrefix ++ filename)

/-- The keys of a catalog whose path is the one asked for, in catalog order. -/
def keysAt (pathOf : Str → Option Str) (rows : List (Str × Str)) (path : Str) : List Str :=
  (rows.filter fun row => decide (row.2 ≠ [] ∧ pathOf row.2 = some path)).map Prod.fst

/-- **An index finds each entry under its stored path**, in catalog order. -/
theorem getD_indexRows {netlocOk : Str → Bool} : ∀ {rows : List (Str × Str)} {index index' : PackagePathIndex},
    indexRows netlocOk rows index = some index' → index'.urlPrefix = index.urlPrefix ∧
      ∀ path, (index'.get path).getD [] = (index.get path).getD [] ++ keysAt (storedPath netlocOk index.urlPrefix) rows path
  | [], index, index', h => by
    cases h
    exact ⟨rfl, fun path => (List.append_nil _).symm⟩
  | (key, filename) :: rows, index, index', h => by
    unfold indexRows at h
    by_cases hempty : filename = []
    · rw [if_pos hempty] at h
      obtain ⟨hbase, hget⟩ := getD_indexRows h
      refine ⟨hbase, fun path => ?_⟩
      rw [hget, keysAt, keysAt, List.filter_cons_of_neg (by simp [hempty])]
    · rw [if_neg hempty] at h
      have hstep : ∃ path, storedPath netlocOk index.urlPrefix filename = some path ∧
          indexRows netlocOk rows (index.addPath path key) = some index' := by
        unfold storedPath
        by_cases hordinary : isOrdinary index.urlPrefix filename = true
        · rw [if_pos hordinary, PackagePathIndex.addRelative_eq] at h
          exact ⟨_, if_pos hordinary, h⟩
        · rw [if_neg hordinary] at h
          obtain ⟨path, hpath, h⟩ := Option.bind_eq_some_iff.1 h
          exact ⟨path, (if_neg hordinary).trans hpath, h⟩
      obtain ⟨stored, hstored, h⟩ := hstep
      obtain ⟨hbase, hget⟩ := getD_indexRows h
      rw [PackagePathIndex.urlPrefix_addPath] at hbase hget
      refine ⟨hbase, fun path => ?_⟩
      rw [hget, PackagePathIndex.get_addPath, keysAt, keysAt]
      by_cases hpath : path = stored
      · rw [if_pos hpath, List.filter_cons_of_pos (by simp [hempty, hstored, hpath]), List.map_cons, Option.getD_some,
          List.append_assoc, hpath]
        rfl
      · rw [if_neg hpath, List.filter_cons_of_neg (by simp [hempty, hstored, Ne.symm hpath])]

theorem getD_packagePathIndex {netlocOk : Str → Bool} {repo : RepoConfig} {packages : Dict Str Str} {index : PackagePathIndex}
    (h : packagePathIndex netlocOk repo packages = some index) (path : Str) :
    (index.get path).getD [] = keysAt (storedPath netlocOk (packagePrefix repo ++ ['/'])) packages.rows path := by
  rw [(getD_indexRows h).2 path, PackagePathIndex.get]
  split <;> rfl

/-! ## Ordinary paths -/

section Ordinary
variable {netlocOk : Str → Bool} {urlPrefix filename path scheme url : Str}

theorem urlsplit_plain (hclean : cleanUrl url = url) (hscheme : splitScheme url = (scheme, path))
    (hslashes : startsWith path ['/', '/'] = false) (hspecial : ∀ c ∈ path, isSpecial c = false) :
    urlsplit url = ⟨scheme, [], path, [], []⟩ := by
  have hnetloc : splitNetloc path = ([], path) := by
    unfold splitNetloc
    split
    · rename_i rest
      exact absurd (startsWith_iff.2 ⟨rest, rfl⟩) (Bool.eq_false_iff.1 hslashes)
    · rfl
  have hhash : '#' ∉ path := fun h => absurd (hspecial _ h) (by decide)
  have hquery : '?' ∉ path := fun h => absurd (hspecial _ h) (by decide)
  simp only [urlsplit, hclean, hscheme, hnetloc, partition_of_not_mem _ _ hhash, partition_of_not_mem _ _ hquery]
  rfl

theorem cleanUrl_plain {c : Char} (hc : 0x20 < c.toNat) (hspecial : ∀ d ∈ c :: path, isSpecial d = false) :
    cleanUrl (c :: path) = c :: path := by
  unfold cleanUrl
  rw [List.dropWhile_cons_of_neg (by simpa using hc)]
  refine List.filter_eq_self.2 fun d hd => ?_
  cases hmem : ['\t', '\r', '\n'].contains d with
  | false => rfl
  | true =>
    have hrest : d ∈ ['%', '?', '#', '\t', '\r', '\n'] :=
      List.mem_append_right ['%', '?', '#'] (List.contains_iff_mem.1 hmem)
    have hspecial' : isSpecial d = true := List.contains_iff_mem.2 hrest
    rw [hspecial d hd] at hspecial'
    cases hspecial'

theorem isOrdinary_path (h : isOrdinary (urlPrefix ++ ['/']) filename = true) :
    startsWith (urlPrefix ++ ['/'] ++ filename) ['/', '/'] = false ∧
      ∀ c ∈ urlPrefix ++ ['/'] ++ filename, isSpecial c = false := by
  simp only [isOrdinary, Bool.and_eq_true, Bool.not_eq_true', Bool.and_eq_false_iff, decide_eq_false_iff_not] at h
  obtain ⟨⟨⟨hslashes, hbase⟩, hroot⟩, hname⟩ := h
  constructor
  · refine Bool.eq_false_iff.2 fun hstart => ?_
    obtain ⟨rest, hrest⟩ := startsWith_iff.1 hstart
    match urlPrefix with
    | [] =>
      obtain ⟨-, hfilename⟩ := List.cons.inj hrest
      rcases hroot with hroot | hroot
      · exact hroot rfl
      · exact Bool.eq_false_iff.1 hroot (startsWith_iff.2 ⟨rest, hfilename⟩)
    | [c] =>
      obtain ⟨rfl, -⟩ := List.cons.inj hrest
      exact Bool.eq_false_iff.1 hslashes rfl
    | c :: d :: urlPrefix =>
      obtain ⟨rfl, htail⟩ := List.cons.inj hrest
      obtain ⟨rfl, -⟩ := List.cons.inj htail
      exact Bool.eq_false_iff.1 hslashes (startsWith_iff.2 ⟨urlPrefix ++ ['/'], rfl⟩)
  · intro c hc
    rcases List.mem_append.1 hc with hc | hc
    · exact Bool.eq_false_iff.2 fun hspecial => Bool.eq_false_iff.1 hbase (List.any_eq_true.2 ⟨c, hc, hspecial⟩)
    · exact Bool.eq_false_iff.2 fun hspecial => Bool.eq_false_iff.1 hname (List.any_eq_true.2 ⟨c, hc, hspecial⟩)

theorem unquote_plain (hspecial : ∀ c ∈ path, isSpecial c = false) : unquote path = path :=
  unquote_of_not_mem fun h => absurd (hspecial _ h) (by decide)

/-- An ordinary path is what the URL with a scheme before it asks for. -/
theorem routePath_http (hempty : netlocOk [] = true) (hslashes : startsWith path ['/', '/'] = false)
    (hspecial : ∀ c ∈ path, isSpecial c = false) : routePath netlocOk ("http:".toList ++ path) = some path := by
  have hall : ∀ c ∈ "http:".toList ++ path, isSpecial c = false := fun c hc => by
    have hscheme : ("http:".toList.all fun c => !isSpecial c) = true := by decide
    rcases List.mem_append.1 hc with hc | hc
    · simpa using List.all_eq_true.1 hscheme c hc
    · exact hspecial c hc
  have hclean : cleanUrl ("http:".toList ++ path) = "http:".toList ++ path := cleanUrl_plain (by decide) hall
  have hpartition : partition ':' ("http:".toList ++ path) = ("http".toList, some path) :=
    partition_append (a := "http".toList) (by decide) path
  have hscheme : splitScheme ("http:".toList ++ path) = ("http".toList, path) := by
    unfold splitScheme
    rw [hpartition]
    rfl
  rw [routePath, urlsplit_plain hclean hscheme hslashes hspecial, if_pos hempty, unquote_plain hspecial]

/-- **An ordinary path from the root** is left as it is. -/
theorem routePath_rooted (hempty : netlocOk [] = true) (hroot : startsWith path ['/'] = true)
    (hslashes : startsWith path ['/', '/'] = false) (hspecial : ∀ c ∈ path, isSpecial c = false) :
    routePath netlocOk path = some path := by
  obtain ⟨rest, hrest⟩ := startsWith_iff.1 hroot
  obtain rfl : path = '/' :: rest := hrest.symm
  have hscheme : splitScheme ('/' :: rest) = ([], '/' :: rest) := by
    unfold splitScheme
    split
    · rename_i hfirst _
      cases hfirst
      rfl
    · rfl
  rw [routePath, urlsplit_plain (cleanUrl_plain (by decide) hspecial) hscheme hslashes hspecial, if_pos hempty,
    unquote_plain hspecial]

end Ordinary

/-! ## Matching -/

/-- The keys of every repository whose path is the one asked for. -/
def naiveMatches (netlocOk : Str → Bool) (config : Config) (catalog : Str → Dict Str Str) (path : Str) : List (Str × Str) :=
  config.repos.flatMap fun repo =>
    (keysAt (fun filename => routePath netlocOk (packagePath repo filename)) (catalog repo.id).rows path).map fun key =>
      (repo.id, key)

/-- An index is consistent: its maps hold different paths, and what it iterates is what it finds. -/
structure PackagePathIndex.Consistent (index : PackagePathIndex) : Prop where
  disjoint : (index.relative.keys.map (index.urlPrefix ++ ·)).Disjoint index.absolute.keys
  nodup : index.iter.Nodup
  length : index.iter.length = index.len
  found : ∀ path, path ∈ index.iter ↔ (index.get path).isSome = true

theorem PackagePathIndex.consistent (index : PackagePathIndex) : index.Consistent where
  disjoint := fun _ hrelative habsolute => (List.nodup_append.1 (nodup_iter index)).2.2 _ hrelative _ habsolute rfl
  nodup := nodup_iter index
  length := length_iter index
  found _ := mem_iter_iff

section Match
variable {netlocOk : Str → Bool} {config : Config} {catalog : Str → Dict Str Str} {byPath : List (Str × PackagePathIndex)}

theorem flatMap_pathIndexes {path : Str} : ∀ {repos : List RepoConfig} {byPath : List (Str × PackagePathIndex)},
    (repos.mapM fun repo => (packagePathIndex netlocOk repo (catalog repo.id)).map fun index => (repo.id, index)) = some byPath →
    (byPath.flatMap fun entry => ((entry.2.get path).getD []).map fun key => (entry.1, key)) = repos.flatMap fun repo =>
      (keysAt (storedPath netlocOk (packagePrefix repo ++ ['/'])) (catalog repo.id).rows path).map fun key => (repo.id, key)
  | [], byPath, h => by
    cases h
    rfl
  | repo :: repos, byPath, h => by
    rw [List.mapM_cons] at h
    obtain ⟨entry, hentry, h⟩ := Option.bind_eq_some_iff.1 h
    obtain ⟨rest, hrest, h⟩ := Option.bind_eq_some_iff.1 h
    cases h
    obtain ⟨index, hindex, rfl⟩ := Option.map_eq_some_iff.1 hentry
    rw [List.flatMap_cons, List.flatMap_cons, flatMap_pathIndexes hrest, getD_packagePathIndex hindex]

theorem matchAll_eq (h : pathIndexes netlocOk config catalog = some byPath) (request : Str) :
    matchAllPackageKeys netlocOk request byPath = (routePath netlocOk request).map fun path => config.repos.flatMap fun repo =>
      (keysAt (storedPath netlocOk (packagePrefix repo ++ ['/'])) (catalog repo.id).rows path).map fun key => (repo.id, key) := by
  unfold matchAllPackageKeys
  congr 1
  funext path
  exact flatMap_pathIndexes h

theorem mem_keysAt {pathOf : Str → Option Str} {rows : List (Str × Str)} {path key : Str} :
    key ∈ keysAt pathOf rows path ↔ ∃ filename, (key, filename) ∈ rows ∧ filename ≠ [] ∧ pathOf filename = some path := by
  unfold keysAt
  rw [List.mem_map]
  constructor
  · rintro ⟨⟨key, filename⟩, hmem, rfl⟩
    obtain ⟨hrow, hpath⟩ := List.mem_filter.1 hmem
    exact ⟨filename, hrow, of_decide_eq_true hpath⟩
  · rintro ⟨filename, hrow, hpath⟩
    exact ⟨(key, filename), List.mem_filter.2 ⟨hrow, decide_eq_true hpath⟩, rfl⟩

/-- **Requests are matched as by comparing every path** exactly when the URL library leaves the ordinary paths as they are. -/
theorem matchAll_iff (hempty : netlocOk [] = true) (h : pathIndexes netlocOk config catalog = some byPath) :
    ((∀ request, matchAllPackageKeys netlocOk request byPath =
        (routePath netlocOk request).map (naiveMatches netlocOk config catalog)) ∧
      ∀ entry ∈ byPath, entry.2.Consistent) ↔
    ∀ repo ∈ config.repos, ∀ row ∈ (catalog repo.id).rows, row.2 ≠ [] → isOrdinary (packagePrefix repo ++ ['/']) row.2 = true →
      routePath netlocOk (packagePath repo row.2) = some (packagePath repo row.2) := by
  constructor
  · rintro ⟨hmatch, -⟩ repo hrepo ⟨key, filename⟩ hrow hname hordinary
    obtain ⟨hslashes, hspecial⟩ := isOrdinary_path hordinary
    -- the request that names the path behind a scheme is answered from the index
    have hroute := routePath_http hempty hslashes hspecial
    have hequal := hmatch ("http:".toList ++ packagePath repo filename)
    rw [matchAll_eq h, show routePath netlocOk ("http:".toList ++ packagePath repo filename) =
      some (packagePath repo filename) from hroute] at hequal
    have hstored : (repo.id, key) ∈ naiveMatches netlocOk config catalog (packagePath repo filename) := by
      rw [← Option.some.inj hequal]
      refine List.mem_flatMap.2 ⟨repo, hrepo, List.mem_map.2 ⟨key, ?_, rfl⟩⟩
      exact mem_keysAt.2 ⟨filename, hrow, hname, if_pos hordinary⟩
    obtain ⟨repo', hrepo', hkey⟩ := List.mem_flatMap.1 hstored
    obtain ⟨key', hkey', heq⟩ := List.mem_map.1 hkey
    obtain ⟨hid, rfl⟩ := Prod.mk.inj heq
    obtain rfl : repo' = repo := List.inj_on_of_nodup_map config.idsNodup hrepo' hrepo hid
    obtain ⟨filename', hrow', -, hroute'⟩ := mem_keysAt.1 hkey'
    have hsame : (key', filename') = (key', filename) := List.inj_on_of_nodup_map (catalog repo'.id).keysNodup hrow' hrow rfl
    rwa [(Prod.mk.inj hsame).2] at hroute'
  · intro hplain
    refine ⟨fun request => ?_, fun entry _ => entry.2.consistent⟩
    rw [matchAll_eq h]
    congr 1
    funext path
    refine List.flatMap_congr fun repo hrepo => ?_
    have hkeys : keysAt (storedPath netlocOk (packagePrefix repo ++ ['/'])) (catalog repo.id).rows path =
        keysAt (fun filename => routePath netlocOk (packagePath repo filename)) (catalog repo.id).rows path := by
      unfold keysAt
      congr 1
      refine List.filter_congr fun row hrow => decide_eq_decide.2 (and_congr_right fun hname => ?_)
      unfold storedPath
      split
      · rename_i hordinary
        have hroute := hplain repo hrepo row hrow hname hordinary
        dsimp only
        rw [hroute]
        exact Iff.rfl
      · exact Iff.rfl
    rw [hkeys]

end Match
/-- One repository that lists one package. -/
def oneRepo (upstream : String) : Config where
  checkInterval := 0
  cacheBaseUrl := []
  repos := [aptRepo "r" upstream]
  nginx := {}
  idsNodup := by simp
  versionOk := rfl

def onePackage (_ : Str) : Dict Str Str := .ofPairs [("k".toList, "pool/x".toList)]

theorem matchAll_rooted : ∃ byPath, pathIndexes (fun _ => true) (oneRepo "http://h/u") onePackage = some byPath ∧
    matchAllPackageKeys (fun _ => true) "/u/pool/x".toList byPath = some [("r".toList, "k".toList)] := by
  have hsome : (pathIndexes (fun _ => true) (oneRepo "http://h/u") onePackage).isSome = true := by decide +kernel
  obtain ⟨byPath, h⟩ := Option.isSome_iff_exists.1 hsome
  have hplain : ∀ repo ∈ (oneRepo "http://h/u").repos, ∀ row ∈ (onePackage repo.id).rows,
      row.2 ≠ [] → isOrdinary (packagePrefix repo ++ ['/']) row.2 = true →
      routePath (fun _ => true) (packagePath repo row.2) = some (packagePath repo row.2) := by
    intro repo hrepo row _ _ hordinary
    obtain ⟨hslashes, hspecial⟩ := isOrdinary_path hordinary
    have hroot : startsWith (packagePrefix repo ++ ['/'] ++ row.2) ['/'] = true := by
      have hbase : packagePrefix (aptRepo "r" "http://h/u") = "/u".toList := by decide +kernel
      rw [List.mem_singleton.1 hrepo, hbase]
      exact startsWith_iff.2 ⟨_, rfl⟩
    exact routePath_rooted rfl hroot hslashes hspecial
  obtain ⟨hmatch, -⟩ := (matchAll_iff rfl h).2 hplain
  exact ⟨byPath, h, (hmatch "/u/pool/x".toList).trans (by decide +kernel)⟩

/-- An upstream whose path is a URL: requests for its package are not found. -/
theorem url_as_prefix_unmatched : ¬ ∀ byPath, pathIndexes (fun _ => true) (oneRepo "apt:http://h/u") onePackage = some byPath →
    (∀ request, matchAllPackageKeys (fun _ => true) request byPath =
      (routePath (fun _ => true) request).map (naiveMatches (fun _ => true) (oneRepo "apt:http://h/u") onePackage)) ∧
    ∀ entry ∈ byPath, entry.2.Consistent := by
  intro h
  have hfound : ((pathIndexes (fun _ => true) (oneRepo "apt:http://h/u") onePackage).bind
      (matchAllPackageKeys (fun _ => true) "/u/pool/x".toList)) = some [] := by decide +kernel
  have hnaive : (routePath (fun _ => true) "/u/pool/x".toList).map
      (naiveMatches (fun _ => true) (oneRepo "apt:http://h/u") onePackage) = some [("r".toList, "k".toList)] := by decide +kernel
  obtain ⟨byPath, hpaths, hfound⟩ := Option.bind_eq_some_iff.1 hfound
  rw [(h byPath hpaths).1, hnaive] at hfound
  exact absurd hfound (by decide)

end RepoWatch
