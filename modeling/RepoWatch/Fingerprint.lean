import RepoWatch.Lib.Dumps
import RepoWatch.Lib.Ranking
import RepoWatch.Lib.Utf8
import RepoWatch.Routing
/-!
# Fingerprint — what `catalog_identity` binds a catalog to

The identity is the digest of ten fields as `json.dumps` writes them, so two repositories with one identity agree in all ten
(`sameCatalog_of_identity`).  With the id these are all the fields that a template and the local prefixes read, so their
packages have the same local paths (`SameCatalog.packagePath_eq`).
-/
namespace RepoWatch

open Lib

/-! ## The identity -/

def optionDatum (s : Option Str) : Dumps.Datum :=
  match s with
  | none => .null
  | some s => .text s

/-- The fields of `catalog_identity`; the variables are sorted as `sort_keys` does at every level. -/
def catalogFields (repo : RepoFields) : List (Str × Dumps.Datum) :=
  [("type".toList, .text repo.type.name), ("upstream".toList, .text repo.upstream), ("arch".toList, .text repo.arch),
   ("repo_name".toList, optionDatum repo.repoName), ("distribution".toList, optionDatum repo.distribution),
   ("component".toList, optionDatum repo.component), ("url_template".toList, optionDatum repo.urlTemplate),
   ("url_variables".toList, .dict (Ranking.ranked Prod.fst (Dict.ofPairs repo.urlVariables).rows)),
   ("nix_source".toList, optionDatum repo.nixSource), ("nix_attributes".toList, .list repo.nixAttributes)]

/-- `RepoConfig.catalog_identity`. -/
def catalogIdentity (sha256 : Bytes → Str) (repo : RepoFields) : Str :=
  sha256 (Utf8.utf8Bytes (Dumps.dumps (Ranking.ranked Prod.fst (catalogFields repo))))

/-- Entries of one repository id that agree in the fields of `catalog_identity`. -/
structure SameCatalog (a b : RepoFields) : Prop where
  id : a.id = b.id
  type : a.type = b.type
  upstream : a.upstream = b.upstream
  arch : a.arch = b.arch
  repoName : a.repoName = b.repoName
  distribution : a.distribution = b.distribution
  component : a.component = b.component
  urlTemplate : a.urlTemplate = b.urlTemplate
  urlVariables : ∀ k, (Dict.ofPairs a.urlVariables).lookup k = (Dict.ofPairs b.urlVariables).lookup k
  nixSource : a.nixSource = b.nixSource
  nixAttributes : a.nixAttributes = b.nixAttributes

theorem optionDatum_injective : Function.Injective optionDatum := by
  intro s t h
  cases s <;> cases t <;> cases h <;> rfl

theorem typeName_injective : Function.Injective RepoType.name := by
  intro s t h
  cases s <;> cases t <;> first | rfl | exact absurd h (by decide)

/-- Dictionaries whose items are sorted into one list answer alike. -/
theorem lookup_of_ranked {d d' : Dict Str Str} (h : Ranking.ranked Prod.fst d.rows = Ranking.ranked Prod.fst d'.rows) (k : Str) :
    d.lookup k = d'.lookup k := by
  have hperm : d.rows.Perm d'.rows := by
    refine (Ranking.perm_ranked Prod.fst d.rows).symm.trans ?_
    rw [h]
    exact Ranking.perm_ranked Prod.fst d'.rows
  refine Option.ext fun v => ?_
  rw [Dict.lookup_eq_some_iff, Dict.lookup_eq_some_iff, hperm.mem_iff]

theorem keys_catalogFields (repo : RepoFields) : (catalogFields repo).map Prod.fst =
    ["type", "upstream", "arch", "repo_name", "distribution", "component", "url_template", "url_variables", "nix_source",
      "nix_attributes"].map String.toList := rfl

theorem nodup_catalogFields (repo : RepoFields) : ((catalogFields repo).map Prod.fst).Nodup := by
  rw [keys_catalogFields]
  decide

/-- **One identity, one catalog.** -/
theorem sameCatalog_of_identity {sha256 : Bytes → Str} (hsha256 : Function.Injective sha256) {a b : RepoFields}
    (hid : a.id = b.id)
    (h : catalogIdentity sha256 a = catalogIdentity sha256 b) : SameCatalog a b := by
  have hutf8 : Function.Injective Utf8.utf8Bytes := fun s t hst => by
    have hs := Utf8.decodeReplace_utf8Bytes s
    rw [hst, Utf8.decodeReplace_utf8Bytes] at hs
    exact hs.symm
  have hranked := Dumps.dumps_injective (hutf8 (hsha256 h))
  have hperm : (catalogFields a).Perm (catalogFields b) := by
    refine (Ranking.perm_ranked Prod.fst (catalogFields a)).symm.trans ?_
    rw [hranked]
    exact Ranking.perm_ranked Prod.fst (catalogFields b)
  have hfield : ∀ {k x y}, (k, x) ∈ catalogFields a → (k, y) ∈ catalogFields b → x = y := fun hx hy =>
    (Prod.mk.inj (List.inj_on_of_nodup_map (nodup_catalogFields b) (hperm.mem_iff.1 hx) hy rfl)).2
  refine ⟨hid, typeName_injective ?_, ?_, ?_, optionDatum_injective ?_, optionDatum_injective ?_, optionDatum_injective ?_,
    optionDatum_injective ?_, lookup_of_ranked ?_, optionDatum_injective ?_, ?_⟩
  · exact Dumps.Datum.text.inj (hfield (show ("type".toList, _) ∈ _ by simp [catalogFields]) (by simp [catalogFields]))
  · exact Dumps.Datum.text.inj (hfield (show ("upstream".toList, _) ∈ _ by simp [catalogFields]) (by simp [catalogFields]))
  · exact Dumps.Datum.text.inj (hfield (show ("arch".toList, _) ∈ _ by simp [catalogFields]) (by simp [catalogFields]))
  · exact hfield (show ("repo_name".toList, _) ∈ _ by simp [catalogFields]) (by simp [catalogFields])
  · exact hfield (show ("distribution".toList, _) ∈ _ by simp [catalogFields]) (by simp [catalogFields])
  · exact hfield (show ("component".toList, _) ∈ _ by simp [catalogFields]) (by simp [catalogFields])
  · exact hfield (show ("url_template".toList, _) ∈ _ by simp [catalogFields]) (by simp [catalogFields])
  · exact Dumps.Datum.dict.inj (hfield (show ("url_variables".toList, _) ∈ _ by simp [catalogFields]) (by simp [catalogFields]))
  · exact hfield (show ("nix_source".toList, _) ∈ _ by simp [catalogFields]) (by simp [catalogFields])
  · exact Dumps.Datum.list.inj (hfield (show ("nix_attributes".toList, _) ∈ _ by simp [catalogFields]) (by simp [catalogFields]))

/-! ## Local paths -/

section
variable {a b : RepoFields}

theorem SameCatalog.standard_eq (h : SameCatalog a b) : a.standard = b.standard := by
  unfold RepoFields.standard
  rw [h.id, h.type, h.repoName, h.arch, h.distribution, h.component]

theorem find?_urlVariables (repo : RepoFields) (name : Str) :
    (repo.urlVariables.reverse.map fun p => (p.1, some p.2)).find? (fun p => p.1 == name) =
      ((Dict.ofPairs repo.urlVariables).lookup name).map fun v => (name, some v) := by
  have hlookup := Dict.lookup_ofPairs_filterMap Prod.fst (fun p => some p.2) repo.urlVariables name
  have hpairs : repo.urlVariables.filterMap (fun p => some (p.1, p.2)) = repo.urlVariables := List.filterMap_some
  simp only [Option.map_some, Option.isSome_some, Bool.and_true, hpairs] at hlookup
  have hkey : ((fun p => p.1 == name) ∘ fun p : Str × Str => (p.1, some p.2)) = fun p => decide (p.1 = name) :=
    funext fun p => beq_eq_decide p.1 name
  rw [hlookup, List.find?_map, hkey]
  cases hfind : repo.urlVariables.reverse.find? fun p => decide (p.1 = name) with
  | none => rfl
  | some p =>
    obtain rfl : p.1 = name := by simpa using List.find?_some hfind
    rfl

theorem SameCatalog.fieldValue_eq (h : SameCatalog a b) (name : Str) (conversion : Option Char) (spec : Str) :
    fieldValue a name conversion spec = fieldValue b name conversion spec := by
  unfold fieldValue
  simp only [List.find?_append, find?_urlVariables, h.urlVariables, h.standard_eq]

theorem SameCatalog.expandPieces_eq (h : SameCatalog a b) : ∀ pieces, expandPieces a pieces = expandPieces b pieces
  | [] => rfl
  | .literal c :: pieces => by rw [expandPieces, expandPieces, h.expandPieces_eq pieces]
  | .field name conversion spec :: pieces => by
    rw [expandPieces, expandPieces, h.fieldValue_eq, h.expandPieces_eq pieces]

/-- **A template expands alike** where it expands. -/
theorem SameCatalog.expand_eq (h : SameCatalog a b) {path path' : Option Str} (ha : expand a = .ok path)
    (hb : expand b = .ok path') : path = path' := by
  unfold expand at ha hb
  obtain ⟨-, -, ha⟩ := bind_eq_ok.1 ha
  obtain ⟨-, -, hb⟩ := bind_eq_ok.1 hb
  rw [h.urlTemplate] at ha
  cases htemplate : b.urlTemplate with
  | none =>
    rw [htemplate] at ha hb
    dsimp only at ha hb
    split at ha
    · cases ha
    · split at hb
      · cases hb
      · cases ha
        cases hb
        rfl
  | some template =>
    rw [htemplate] at ha hb
    dsimp only at ha hb
    rw [h.expandPieces_eq] at ha
    rw [ha] at hb
    cases hb
    rfl

end

theorem RepoConfig.expand_custom (repo : RepoConfig) : expand repo.toRepoFields = .ok repo.custom := by
  unfold RepoConfig.custom
  split
  · assumption
  · rename_i h
    exact absurd repo.expands (by simp [h, Except.isOk, Except.toBool])

section
variable {a b : RepoConfig}

theorem SameCatalog.custom_eq (h : SameCatalog a.toRepoFields b.toRepoFields) : a.custom = b.custom :=
  h.expand_eq a.expand_custom b.expand_custom

theorem SameCatalog.packagePrefix_eq (h : SameCatalog a.toRepoFields b.toRepoFields) : packagePrefix a = packagePrefix b := by
  unfold packagePrefix repoPrefix aptRpmPrefix aptPrefix
  rw [h.custom_eq, h.type, h.id, h.upstream, h.arch, h.repoName, h.component]

/-- **The local path of every file** is the same. -/
theorem SameCatalog.packagePath_eq (h : SameCatalog a.toRepoFields b.toRepoFields) (filename : Str) :
    packagePath a filename = packagePath b filename := by
  rw [packagePath, h.packagePrefix_eq, packagePath]

end

end RepoWatch
