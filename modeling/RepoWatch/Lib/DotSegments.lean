import Mathlib.Data.List.Induction
/-!
# Lib.DotSegments — paths and their dot segments

A path is a text of parts with slashes in between.  `resolve` drops the parts `.` and takes back one part for each `..`, as a
client does before it sends a path.  A path without such parts is its own resolution (`resolve_of_not_hasDot`).  One behind
a base either stays below the base and gets shorter, or leaves it, and then what is left is from behind the `..` that left
it (`resolve_append`).
-/
namespace Lib.DotSegments

variable {base rest path : List Char} {kept parts : List (List Char)}

def isDot (part : List Char) : Bool := part == ['.'] || part == ['.', '.']

def hasDot (path : List Char) : Bool := (path.splitOn '/').any isDot

/-- The parts that are kept, and one more; the part in front of the first slash is never taken back. -/
def push (kept : List (List Char)) (part : List Char) : List (List Char) :=
  if part = ['.'] then kept
  else if part = ['.', '.'] then (if kept = [] ∨ kept = [[]] then kept else kept.dropLast)
  else kept ++ [part]

def resolve (path : List Char) : List Char := ['/'].intercalate ((path.splitOn '/').foldl push [])

theorem hasDot_append_cons (a b : List Char) : hasDot (a ++ '/' :: b) = (hasDot a || hasDot b) := by
  unfold hasDot
  rw [List.splitOn_append_cons_self, List.any_append]

theorem hasDot_slash_cons (path : List Char) : hasDot ('/' :: path) = hasDot path := hasDot_append_cons [] path

/-- The parts of a path are made of its characters, without the slashes. -/
theorem mem_part {part : List Char} {c : Char} (hpart : part ∈ path.splitOn '/') (hc : c ∈ part) : c ∈ path ∧ c ≠ '/' := by
  induction path generalizing part with
  | nil => simp_all
  | cons d path ih =>
    rw [List.splitOn_cons_eq_if_modifyHead] at hpart
    split at hpart
    · rcases List.mem_cons.1 hpart with rfl | hpart
      · cases hc
      · exact ⟨List.mem_cons_of_mem _ (ih hpart hc).1, (ih hpart hc).2⟩
    · rename_i hd
      cases hparts : path.splitOn '/' with
      | nil => exact absurd hparts (List.splitOn_ne_nil _ _)
      | cons first parts =>
        rw [hparts] at ih hpart
        rcases List.mem_cons.1 hpart with rfl | hpart
        · rcases List.mem_cons.1 hc with rfl | hc
          · exact ⟨List.mem_cons_self, fun he => hd (beq_iff_eq.2 he)⟩
          · have hfirst := ih List.mem_cons_self hc
            exact ⟨List.mem_cons_of_mem _ hfirst.1, hfirst.2⟩
        · have hother := ih (List.mem_cons_of_mem _ hpart) hc
          exact ⟨List.mem_cons_of_mem _ hother.1, hother.2⟩

theorem slash_not_mem (path : List Char) (part : List Char) (hpart : part ∈ path.splitOn '/') : '/' ∉ part := fun hc =>
  (mem_part hpart hc).2 rfl

/-- A path without a dot has no dot segments. -/
theorem hasDot_of_not_mem (h : '.' ∉ path) : hasDot path = false := by
  refine List.any_eq_false.2 fun part hpart hdot => h (mem_part hpart ?_).1
  rcases Bool.or_eq_true _ _ ▸ hdot with he | he
  · exact beq_iff_eq.1 he ▸ List.mem_cons_self
  · exact beq_iff_eq.1 he ▸ List.mem_cons_self

/-- The parts of a path that is put together from parts. -/
theorem hasDot_intercalate (h : ∀ part ∈ parts, '/' ∉ part) : hasDot (['/'].intercalate parts) = parts.any isDot := by
  unfold hasDot
  by_cases hne : parts = []
  · subst hne
    rfl
  · rw [List.splitOn_intercalate '/' h hne]

theorem push_of_not_isDot {part : List Char} (h : isDot part = false) : push kept part = kept ++ [part] := by
  unfold isDot at h
  rw [Bool.or_eq_false_iff, beq_eq_false_iff_ne, beq_eq_false_iff_ne] at h
  rw [push, if_neg h.1, if_neg h.2]

theorem foldl_push_of_not_isDot : ∀ {parts : List (List Char)}, parts.any isDot = false → ∀ kept,
    parts.foldl push kept = kept ++ parts
  | [], _, kept => (List.append_nil kept).symm
  | part :: parts, h, kept => by
    rw [List.any_cons, Bool.or_eq_false_iff] at h
    rw [List.foldl_cons, push_of_not_isDot h.1, foldl_push_of_not_isDot h.2, List.append_assoc]
    rfl

theorem resolve_of_not_hasDot (h : hasDot path = false) : resolve path = path := by
  rw [resolve, foldl_push_of_not_isDot h, List.nil_append, List.intercalate_splitOn]

theorem mem_push {part p : List Char} (h : p ∈ push kept part) : p ∈ kept ∨ p = part ∧ isDot part = false := by
  unfold push at h
  split at h
  · exact .inl h
  split at h
  · split at h
    · exact .inl h
    · exact .inl (List.dropLast_subset kept h)
  · rename_i hdot hdots
    rcases List.mem_append.1 h with h | h
    · exact .inl h
    · exact .inr ⟨List.mem_singleton.1 h, by simp [isDot, hdot, hdots]⟩

theorem mem_foldl_push {p : List Char} : ∀ {parts kept : List (List Char)}, p ∈ parts.foldl push kept →
    p ∈ kept ∨ p ∈ parts ∧ isDot p = false
  | [], _, h => .inl h
  | part :: parts, kept, h => by
    rcases mem_foldl_push (show p ∈ parts.foldl push (push kept part) from h) with h | ⟨hp, hdot⟩
    · rcases mem_push h with h | ⟨rfl, hdot⟩
      · exact .inl h
      · exact .inr ⟨List.mem_cons_self, hdot⟩
    · exact .inr ⟨List.mem_cons_of_mem _ hp, hdot⟩

/-- **What is resolved has no dot segments.** -/
theorem hasDot_resolve (path : List Char) : hasDot (resolve path) = false := by
  have hkept : ∀ p ∈ (path.splitOn '/').foldl push [], p ∈ path.splitOn '/' ∧ isDot p = false := fun p hp =>
    (mem_foldl_push hp).resolve_left List.not_mem_nil
  rw [resolve, hasDot_intercalate fun p hp => slash_not_mem path p (hkept p hp).1, List.any_eq_false]
  exact fun p hp => by rw [(hkept p hp).2]; exact Bool.false_ne_true

/-! ## Below a base -/

/-- Parts with a slash in front of each. -/
def joined (parts : List (List Char)) : List Char := parts.flatMap fun part => '/' :: part

theorem joined_append (parts parts' : List (List Char)) : joined (parts ++ parts') = joined parts ++ joined parts' :=
  List.flatMap_append

theorem intercalate_cons (first : List Char) : ∀ parts : List (List Char),
    ['/'].intercalate (first :: parts) = first ++ joined parts
  | [] => by simp [joined]
  | part :: parts => by
    rw [List.intercalate_cons_cons, intercalate_cons part parts]
    simp [joined]

theorem resolve_absolute {parts : List (List Char)} (h : path.splitOn '/' = [] :: parts) :
    resolve path = ['/'].intercalate (parts.foldl push [[]]) := by
  rw [resolve, h, List.foldl_cons]
  rfl

/-- What is kept after some parts behind a base: parts of the base from its start, and a rest.  When a part of the base was
taken back, it was by a `..` with no less behind it than the rest. -/
structure Resolved (base parts out : List (List Char)) : Prop where
  split : ∃ n rest, out = [] :: (base.take n ++ rest) ∧ (joined rest).length ≤ (joined parts).length ∧
    (parts.any isDot = true → (joined rest).length < (joined parts).length) ∧
    (base.length ≤ n ∨ ∃ before after, parts = before ++ ['.', '.'] :: after ∧
      (joined rest).length ≤ (joined after).length)

theorem length_joined_snoc (parts : List (List Char)) (part : List Char) :
    (joined (parts ++ [part])).length = (joined parts).length + part.length + 1 := by
  rw [joined_append, List.length_append]
  simp [joined]
  omega

theorem Resolved.push {base parts out : List (List Char)} (h : Resolved base parts out) (part : List Char) :
    Resolved base (parts ++ [part]) (push out part) := by
  obtain ⟨n, rest, rfl, hle, hlt, hleft⟩ := h
  have hlonger := length_joined_snoc parts part
  -- what stays behind the base is no longer than before
  have hkeep : ∀ rest', (joined rest').length ≤ (joined rest).length →
      Resolved base (parts ++ [part]) ([] :: (base.take n ++ rest')) := by
    intro rest' hrest'
    refine ⟨n, rest', rfl, by omega, fun _ => by omega, hleft.imp_right ?_⟩
    rintro ⟨before, after, rfl, hafter⟩
    refine ⟨before, after ++ [part], by simp, ?_⟩
    rw [length_joined_snoc]
    omega
  unfold DotSegments.push
  split
  · exact hkeep rest (Nat.le_refl _)
  split
  · rename_i hdots
    subst hdots
    split
    · exact hkeep rest (Nat.le_refl _)
    rename_i hsome
    rcases List.eq_nil_or_concat rest with rfl | ⟨rest, last, rfl⟩
    · -- a part of the base is taken back
      rw [List.append_nil] at hsome ⊢
      have hne : base.take n ≠ [] := fun he => hsome (.inr (by rw [he]))
      refine ⟨(base.take n).length - 1, [], ?_, by simp [joined], fun _ => ?_, .inr ⟨parts, [], rfl, Nat.le_refl _⟩⟩
      · rw [List.dropLast_cons_of_ne_nil hne, List.dropLast_eq_take, List.append_nil, List.take_take, Nat.min_eq_left]
        have := List.length_take_le n base
        omega
      · rw [hlonger]
        simp [joined]
    · -- a part behind the base is taken back
      rw [List.concat_eq_append, List.dropLast_cons_of_ne_nil (by simp), ← List.append_assoc, List.dropLast_concat]
      refine hkeep rest ?_
      rw [List.concat_eq_append, length_joined_snoc]
      omega
  · rename_i hdot hdots
    have hplain : isDot part = false := by simp [isDot, hdot, hdots]
    refine ⟨n, rest ++ [part], by simp, ?_, fun hany => ?_, hleft.imp_right ?_⟩
    · rw [length_joined_snoc, hlonger]
      omega
    · rw [List.any_append, List.any_cons, hplain, List.any_nil, Bool.or_false, Bool.or_false] at hany
      rw [length_joined_snoc, hlonger]
      have := hlt hany
      omega
    · rintro ⟨before, after, rfl, hafter⟩
      refine ⟨before, after ++ [part], by simp, ?_⟩
      rw [length_joined_snoc, length_joined_snoc]
      omega

theorem resolved_foldl (base parts : List (List Char)) : Resolved base parts (parts.foldl DotSegments.push ([] :: base)) := by
  induction parts using List.reverseRecOn with
  | nil => exact ⟨base.length, [], by simp, Nat.le_refl _, by simp, .inl (Nat.le_refl _)⟩
  | append_singleton parts part ih =>
    rw [List.foldl_append]
    exact ih.push part

/-- An absolute path stays one, unless nothing of it is left. -/
theorem resolve_slash_cons (path : List Char) : resolve ('/' :: path) = [] ∨ ∃ rest, resolve ('/' :: path) = '/' :: rest := by
  have hparts : ('/' :: path).splitOn '/' = [] :: path.splitOn '/' := by
    rw [List.splitOn_cons_eq_if_modifyHead, if_pos (beq_self_eq_true '/')]
  obtain ⟨n, rest, hout, -⟩ := resolved_foldl [] (path.splitOn '/')
  rw [resolve_absolute hparts, hout, List.take_nil, List.nil_append, intercalate_cons, List.nil_append]
  cases rest with
  | nil => exact .inl rfl
  | cons part rest => exact .inr ⟨part ++ joined rest, rfl⟩

/-- The parts that are left of a base are a prefix of it, up to a slash. -/
theorem joined_take_prefix (base : List (List Char)) (n : Nat) : joined (base.take n) ++ ['/'] <+: joined base ++ ['/'] := by
  conv => rhs; rw [← List.take_append_drop n base, joined_append]
  rw [List.append_assoc, List.prefix_append_right_inj]
  cases base.drop n with
  | nil => simp [joined]
  | cons part parts => exact ⟨part ++ joined parts ++ ['/'], by simp [joined]⟩

theorem length_joined_cons (first : List Char) (parts : List (List Char)) :
    (joined (first :: parts)).length = (first ++ joined parts).length + 1 := by
  simp [joined]

theorem length_joined_splitOn (path : List Char) : (joined (path.splitOn '/')).length = path.length + 1 := by
  have hsplit : ['/'].intercalate (path.splitOn '/') = path := List.intercalate_splitOn '/'
  conv => rhs; rw [← hsplit]
  cases hparts : path.splitOn '/' with
  | nil => exact absurd hparts (List.splitOn_ne_nil _ _)
  | cons first parts => rw [intercalate_cons, length_joined_cons]

/-- A path with a part `..` and parts behind it, split there. -/
theorem split_dots {before after : List (List Char)} {next : List Char}
    (h : path.splitOn '/' = before ++ ['.', '.'] :: next :: after) : ∃ pre post, path = pre ++ "../".toList ++ post ∧
      (pre = [] ∨ ['/'] <:+ pre) ∧ (joined (next :: after)).length = post.length + 1 := by
  have hpath : path = ['/'].intercalate (before ++ ['.', '.'] :: next :: after) := by rw [← h, List.intercalate_splitOn]
  have hpost := length_joined_cons next after
  cases before with
  | nil =>
    refine ⟨[], next ++ joined after, ?_, .inl rfl, hpost⟩
    rw [hpath, List.nil_append, intercalate_cons]
    rfl
  | cons first before =>
    refine ⟨first ++ joined before ++ ['/'], next ++ joined after, ?_, .inr (List.suffix_append _ _), hpost⟩
    rw [hpath, List.cons_append, intercalate_cons, joined_append]
    simp [joined]

/-- **Below a base**: what is resolved is a prefix of the base and a rest.  It is the whole base with a shorter rest, or the
rest is no longer than what stands behind some `..`. -/
theorem resolve_append {parts : List (List Char)} (habsolute : base.splitOn '/' = [] :: parts) (hbase : hasDot base = false)
    (hrest : hasDot rest = true) : ∃ before after, resolve (base ++ '/' :: rest) = before ++ after ∧
      before <+: base ++ ['/'] ∧ after.length < rest.length ∧
      (before = base ++ ['/'] ∨ after = [] ∨ ∃ pre post, rest = pre ++ "../".toList ++ post ∧
        (pre = [] ∨ ['/'] <:+ pre) ∧ after.length ≤ post.length) := by
  have hplain : parts.any isDot = false := by
    have := hbase
    rw [hasDot, habsolute, List.any_cons, Bool.or_eq_false_iff] at this
    exact this.2
  have hparts : (base ++ '/' :: rest).splitOn '/' = [] :: (parts ++ rest.splitOn '/') := by
    rw [List.splitOn_append_cons_self, habsolute, List.cons_append]
  have hjoined : base = joined parts := by
    have hsplit : ['/'].intercalate (base.splitOn '/') = base := List.intercalate_splitOn '/'
    rw [habsolute, intercalate_cons, List.nil_append] at hsplit
    exact hsplit.symm
  have hlength := length_joined_splitOn rest
  obtain ⟨n, left, hout, -, hlt, hwhere⟩ := resolved_foldl parts (rest.splitOn '/')
  have hshorter := hlt hrest
  rw [resolve_absolute hparts, List.foldl_append, foldl_push_of_not_isDot hplain]
  change ∃ before after, ['/'].intercalate ((rest.splitOn '/').foldl DotSegments.push ([] :: parts)) = before ++ after ∧ _
  rw [hout, intercalate_cons, List.nil_append, joined_append]
  have hprefix := joined_take_prefix parts n
  rw [← hjoined] at hprefix
  cases left with
  | nil =>
    refine ⟨joined (parts.take n), [], by simp [joined], (List.prefix_append _ _).trans hprefix, ?_, .inr (.inl rfl)⟩
    refine List.length_pos_iff.2 fun he => ?_
    rw [he] at hrest
    cases hrest
  | cons first others =>
    have hleft := length_joined_cons first others
    refine ⟨joined (parts.take n) ++ ['/'], first ++ joined others, by simp [joined], hprefix, by omega, ?_⟩
    rcases hwhere with hall | ⟨before, after, hsplit, hafter⟩
    · rw [List.take_of_length_le hall, ← hjoined]
      exact .inl rfl
    · cases after with
      | nil => simp [joined] at hafter
      | cons next more =>
        obtain ⟨pre, post, hrest, hpre, hpost⟩ := split_dots hsplit
        exact .inr (.inr ⟨pre, post, hrest, hpre, by omega⟩)

end Lib.DotSegments
