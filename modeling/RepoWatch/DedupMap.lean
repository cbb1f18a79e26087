import Mathlib.Data.List.Forall2
import RepoWatch.Lib.Conf
import RepoWatch.Dedup
/-!
# DedupMap — the redirects as nginx reads them

`renderDedup` writes the accepted pairs as the body of a `map` block.  Whatever the file names of the catalog are, nginx
reads back one literal entry for each pair (`mapBody_renderDedup`), but it takes a `$` in a target for a variable.
-/
namespace RepoWatch

open Lib

/-- `_map_literal`. -/
def mapLiteral (value : Str) : Str :=
  let value := value.flatMap fun c => if c = '\\' then ['\\', '\\'] else [c]
  '"' :: value.flatMap (fun c => if c = '"' then ['\\', '"'] else [c]) ++ ['"']

/-- `'\n'.join(lines) + '\n'`. -/
def joinLines (lines : List Str) : Str := ['\n'].intercalate lines ++ ['\n']

def generatedHeader : Str := "# Generated by repowatch; edit YAML parameters, not this file.".toList

/-- A line of the map. -/
def mapLine (p : Str × Str) : Str := mapLiteral p.1 ++ " ".toList ++ mapLiteral p.2 ++ ";".toList

/-- `nginx.render.render_dedup`. -/
def renderDedup (_config : Config) (pairs : List (Str × Str)) : Str := joinLines (generatedHeader :: pairs.map mapLine)

theorem mapLiteral_eq (s : Str) : mapLiteral s = '"' :: Conf.escape s ++ ['"'] := by
  unfold mapLiteral Conf.escape
  dsimp only
  rw [List.flatMap_assoc]
  congr 3
  funext c
  by_cases hb : c = '\\'
  · simp [hb]
  by_cases hq : c = '"'
  · simp [hq]
  simp [hb, hq]

theorem joinLines_cons (a : Str) : ∀ l : List Str, joinLines (a :: l) = a ++ ['\n'] ++ l.flatMap (· ++ ['\n'])
  | [] => by simp [joinLines, List.intercalate]
  | b :: l => by
    have ih := joinLines_cons b l
    unfold joinLines at ih ⊢
    rw [List.intercalate_cons_cons, List.append_assoc, ih]
    simp

/-! ## Reading the map back -/

theorem run_generatedHeader : Conf.Reader.run {} (generatedHeader ++ ['\n']) = some {} := by decide

/-- **A line is one directive** of its two texts. -/
theorem run_mapLine (items : List Conf.Item) (p : Str × Str) :
    Conf.Reader.run ⟨.gap, [], items⟩ (mapLine p ++ ['\n']) = some ⟨.gap, [], items ++ [.directive [p.1, p.2]]⟩ := by
  have hsplit : mapLine p ++ ['\n'] =
      ('"' :: Conf.escape p.1 ++ ['"']) ++ ([' '] ++ (('"' :: Conf.escape p.2 ++ ['"']) ++ [';', '\n'])) := by
    unfold mapLine
    rw [mapLiteral_eq, mapLiteral_eq]
    simp
  have hblank : Conf.Reader.run ⟨.closed, [p.1], items⟩ [' '] = some ⟨.gap, [p.1], items⟩ := rfl
  have hend : Conf.Reader.run ⟨.closed, [p.1, p.2], items⟩ [';', '\n'] =
      some ⟨.gap, [], items ++ [.directive [p.1, p.2]]⟩ := rfl
  rw [hsplit, Conf.Reader.run_append, Conf.Reader.quoted_run, Option.bind_some, Conf.Reader.run_append, List.nil_append,
    hblank, Option.bind_some, Conf.Reader.run_append, Conf.Reader.quoted_run, Option.bind_some, List.singleton_append,
    hend]

theorem run_mapLines : ∀ (pairs : List (Str × Str)) (items : List Conf.Item),
    Conf.Reader.run ⟨.gap, [], items⟩ (pairs.flatMap fun p => mapLine p ++ ['\n']) =
      some ⟨.gap, [], items ++ pairs.map fun p => .directive [p.1, p.2]⟩
  | [], items => by simp [Conf.Reader.run]
  | p :: pairs, items => by
    rw [List.flatMap_cons, Conf.Reader.run_append, run_mapLine, Option.bind_some, run_mapLines pairs]
    simp

theorem read_renderDedup (config : Config) (pairs : List (Str × Str)) :
    Conf.read (renderDedup config pairs) = some (pairs.map fun p => .directive [p.1, p.2]) := by
  unfold Conf.read renderDedup
  rw [joinLines_cons, Conf.Reader.run_append, run_generatedHeader, Option.bind_some, List.flatMap_map, run_mapLines]
  rfl

/-- The directive of a path is a literal entry: it is none of the words that `map` reserves. -/
theorem mapItem_path {key : Str} (h : key.head? = some '/') (value : Str) :
    Conf.mapItem [key, value] = some (.literal key value) := by
  cases key with
  | nil => cases h
  | cons c key =>
    obtain rfl : c = '/' := by simpa using h
    rfl

/-- **Exactly the pairs**: whatever their names, each pair is one literal entry, and there is nothing else. -/
theorem mapBody_renderDedup (config : Config) {pairs : List (Str × Str)} (h : ∀ p ∈ pairs, p.1.head? = some '/') :
    Conf.mapBody (renderDedup config pairs) = some (pairs.map fun p => .literal p.1 p.2) := by
  unfold Conf.mapBody
  rw [read_renderDedup, Option.bind_some]
  induction pairs with
  | nil => rfl
  | cons p pairs ih =>
    rw [List.map_cons, List.mapM_cons, ih fun q hq => h q (List.mem_cons_of_mem _ hq)]
    have hp : Conf.mapEntry (.directive [p.1, p.2]) = some (.literal p.1 p.2) :=
      mapItem_path (h p List.mem_cons_self) p.2
    rw [hp]
    rfl

/-! ## What the entries mean -/

/-- The entry sends the source path, in every request, to exactly the target path. -/
def Redirects (entry : Conf.MapItem) (p : Str × Str) : Prop :=
  ∃ value, entry = .literal p.1 value ∧ ∀ vars, Conf.evalValue vars value = some p.2

/-- The text, as the body of a map, has one entry for each pair, and each redirects its source to its target. -/
def MeansPairs (text : Str) (pairs : List (Str × Str)) : Prop :=
  ∃ entries, Conf.mapBody text = some entries ∧ List.Forall₂ Redirects entries pairs

/-- **When the map means the pairs**: exactly when no target has a `$`, which nginx takes for a variable. -/
theorem renderDedup_means (config : Config) (pairs : List (Str × Str)) (h : ∀ p ∈ pairs, p.1.head? = some '/') :
    MeansPairs (renderDedup config pairs) pairs ↔ ∀ p ∈ pairs, '$' ∉ p.2 := by
  unfold MeansPairs
  rw [mapBody_renderDedup config h]
  simp only [Option.some.injEq, exists_eq_left', List.forall₂_map_left_iff, List.forall₂_same]
  refine forall₂_congr fun p _ => ⟨fun hp => ?_, fun hp => ?_⟩
  · obtain ⟨value, he, hv⟩ := hp
    cases he
    exact Conf.not_mem_of_evalValue hv
  · exact ⟨p.2, rfl, fun vars => Conf.evalValue_of_not_mem vars hp⟩

theorem renderDedup_means_plain :
    MeansPairs (renderDedup twinConfig [("/rpm/b/q;\"\n.rpm".toList, "/rpm/a/p\\.rpm".toList)])
      [("/rpm/b/q;\"\n.rpm".toList, "/rpm/a/p\\.rpm".toList)] ↔
      ∀ p ∈ [("/rpm/b/q;\"\n.rpm".toList, "/rpm/a/p\\.rpm".toList)], '$' ∉ p.2 :=
  renderDedup_means twinConfig [("/rpm/b/q;\"\n.rpm".toList, "/rpm/a/p\\.rpm".toList)] (by decide)

def dollarDb : Database :=
  { twinDb with
    repoPackages := Table.empty.upsertAll
      [⟨"b".toList, "q-1".toList, none, "q.rpm".toList, some "f0".toList⟩,
       ⟨"a".toList, "p-1".toList, none, "p$uri.rpm".toList, some "f0".toList⟩] }

/-- The pair of `dollarDb` is accepted, and its entry does not redirect to its target. -/
theorem renderDedup_dollar :
    acceptedPairs asciiLower twinConfig dollarDb dollarDb.findDuplicateFiles =
      [("/rpm/b/q.rpm".toList, "/rpm/a/p$uri.rpm".toList)] ∧
    ¬ MeansPairs (renderDedup twinConfig [("/rpm/b/q.rpm".toList, "/rpm/a/p$uri.rpm".toList)])
      [("/rpm/b/q.rpm".toList, "/rpm/a/p$uri.rpm".toList)] := by
  refine ⟨by decide, ?_⟩
  rintro ⟨entries, hbody, hall⟩
  rw [mapBody_renderDedup twinConfig (by decide), Option.some.injEq] at hbody
  subst hbody
  rw [List.map_cons, List.forall₂_cons] at hall
  obtain ⟨⟨value, he, hv⟩, -⟩ := hall
  cases he
  -- in a request of the source, `$uri` is the source path
  have := hv ⟨fun name => if name = "uri".toList then some "/rpm/b/q.rpm".toList else none, fun _ => []⟩
  exact absurd this (by decide)

end RepoWatch
