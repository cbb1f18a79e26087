import Mathlib.Data.List.Basic
import Mathlib.Data.List.Infix
/-!
# Lib.Lines — a text of lines, and the first place of a pattern in it

`terminated sep ls` is the text of the lines `ls`, each ended by `sep`.  A pattern without a separator lies within one line
(`exists_line`), and the first empty line is the first place of two separators (`find_sep_sep`).
-/
namespace Lib

/-- A slice, and what follows it. -/
theorem extract_append_drop {α : Type} {i j : Nat} (h : i ≤ j) (l : List α) : l.extract i j ++ l.drop j = l.drop i := by
  have hj : l.drop j = (l.drop i).drop (j - i) := by rw [List.drop_drop, Nat.add_sub_of_le h]
  rw [List.extract_eq_take_drop, hj, List.take_append_drop]

section Find
variable {α : Type} [DecidableEq α] {sub t : List α} {n : Nat}

/-- The first place of `sub`. -/
def find (sub : List α) : List α → Option Nat
  | [] => if sub = [] then some 0 else none
  | c :: s => if sub.isPrefixOf (c :: s) then some 0 else (find sub s).map (· + 1)

theorem find_zero (h : sub <+: t) : find sub t = some 0 := by
  cases t with
  | nil => rw [find, if_pos (List.prefix_nil.1 h)]
  | cons c s => rw [find, if_pos <| List.isPrefixOf_iff_prefix.2 h]

theorem find_cons {c : α} (h : ¬ sub <+: c :: s) : find sub (c :: s) = (find sub s).map (· + 1) := by
  rw [find, if_neg fun hp => h <| List.isPrefixOf_iff_prefix.1 hp]

theorem prefix_of_find : ∀ {t : List α} {n : Nat}, find sub t = some n → sub <+: t.drop n
  | [], n, h => by
    unfold find at h
    split at h
    · rename_i hsub
      rw [hsub]
      exact List.nil_prefix
    · cases h
  | c :: s, n, h => by
    by_cases hp : sub <+: c :: s
    · rw [find_zero hp] at h
      cases h
      exact hp
    · rw [find_cons hp] at h
      obtain ⟨m, hm, rfl⟩ := Option.map_eq_some_iff.1 h
      have hrest : sub <+: s.drop m := prefix_of_find hm
      exact hrest

theorem find_le : ∀ {t : List α} {n : Nat}, n ≤ t.length → sub <+: t.drop n → ∃ m, find sub t = some m ∧ m ≤ n
  | t, 0, _, h => ⟨0, find_zero h, le_rfl⟩
  | c :: s, n + 1, hn, h => by
    by_cases hp : sub <+: c :: s
    · exact ⟨0, find_zero hp, Nat.zero_le _⟩
    · obtain ⟨m, hm, hle⟩ := find_le (Nat.le_of_succ_le_succ hn) h
      exact ⟨m + 1, by rw [find_cons hp, hm]; rfl, Nat.succ_le_succ hle⟩

theorem find_eq_none : find sub t = none ↔ ∀ n, ¬ sub <+: t.drop n := by
  constructor
  · intro h n hn
    rcases Nat.le_total n t.length with hle | hle
    · obtain ⟨m, hm, -⟩ := find_le hle hn
      rw [h] at hm
      cases hm
    · rw [List.drop_eq_nil_of_le hle, ← List.drop_length (l := t)] at hn
      obtain ⟨m, hm, -⟩ := find_le le_rfl hn
      rw [h] at hm
      cases hm
  · intro h
    refine Option.eq_none_iff_forall_ne_some.2 fun n hn => h n (prefix_of_find hn)

theorem not_prefix_of_lt_find {k : Nat} (h : find sub t = some n) (hk : k < n) : ¬ sub <+: t.drop k := by
  intro hp
  rcases Nat.le_total k t.length with hle | hle
  · obtain ⟨m, hm, hmk⟩ := find_le hle hp
    rw [h] at hm
    cases hm
    omega
  · rw [List.drop_eq_nil_of_le hle] at hp
    rw [List.prefix_nil.1 hp, find_zero List.nil_prefix] at h
    cases h
    omega

/-- The first place is the one that no earlier place is. -/
theorem find_eq_some_iff : find sub t = some n ↔ sub <+: t.drop n ∧ ∀ k < n, ¬ sub <+: t.drop k := by
  constructor
  · exact fun h => ⟨prefix_of_find h, fun k hk => not_prefix_of_lt_find h hk⟩
  · rintro ⟨h, hfirst⟩
    obtain ⟨m, hm⟩ := Option.ne_none_iff_exists'.1 fun hnone => find_eq_none.1 hnone n h
    rcases Nat.lt_trichotomy m n with hlt | rfl | hlt
    · exact absurd (prefix_of_find hm) (hfirst m hlt)
    · exact hm
    · exact absurd h (not_prefix_of_lt_find hm hlt)

omit [DecidableEq α] in
theorem infix_iff_drop : sub <:+: t ↔ ∃ n, sub <+: t.drop n := by
  constructor
  · rintro ⟨as, bs, rfl⟩
    refine ⟨as.length, ?_⟩
    rw [List.append_assoc, List.drop_left]
    exact List.prefix_append sub bs
  · rintro ⟨n, hn⟩
    exact hn.isInfix.trans (List.drop_suffix n t).isInfix

/-- What is found in the start of a text is found in the text. -/
theorem find_of_find_take {k : Nat} (h : find sub (t.take k) = some n) : find sub t = some n := by
  obtain ⟨hn, hfirst⟩ := find_eq_some_iff.1 h
  rw [List.drop_take] at hn
  have hlength := hn.length_le
  rw [List.length_take] at hlength
  refine find_eq_some_iff.2 ⟨hn.trans (List.take_prefix _ _), fun j hj hp => hfirst j hj ?_⟩
  rw [List.drop_take]
  exact List.prefix_take_iff.2 ⟨hp, by omega⟩

/-- What is not found in the start of a text begins at no place where it would end there. -/
theorem not_prefix_of_find_take {j k : Nat} (h : find sub (t.take k) = none) (hj : j + sub.length ≤ k) : ¬ sub <+: t.drop j := by
  intro hp
  refine find_eq_none.1 h j ?_
  rw [List.drop_take]
  exact List.prefix_take_iff.2 ⟨hp, by omega⟩

/-- Places before which nothing begins can be skipped. -/
theorem find_drop {k : Nat} (h : ∀ j < k, ¬ sub <+: t.drop j) : find sub t = (find sub (t.drop k)).map (k + ·) := by
  have hbefore : ∀ n, sub <+: t.drop n → ∃ m, n = k + m ∧ sub <+: (t.drop k).drop m := by
    intro n hn
    have hle : k ≤ n := Nat.le_of_not_lt fun hlt => h n hlt hn
    refine ⟨n - k, (Nat.add_sub_of_le hle).symm, ?_⟩
    rwa [List.drop_drop, Nat.add_sub_of_le hle]
  cases hfind : find sub (t.drop k) with
  | none =>
    refine find_eq_none.2 fun n hn => ?_
    obtain ⟨m, -, hm⟩ := hbefore n hn
    exact find_eq_none.1 hfind m hm
  | some m =>
    obtain ⟨hm, hfirst⟩ := find_eq_some_iff.1 hfind
    rw [List.drop_drop] at hm
    refine find_eq_some_iff.2 ⟨hm, fun n hn hp => ?_⟩
    obtain ⟨j, rfl, hj⟩ := hbefore n hp
    exact hfirst j (Nat.lt_of_add_lt_add_left hn) hj

/-- The first place of an element is what follows a text without it. -/
theorem idxOf?_append {a : α} {l : List α} (h : a ∉ l) (rest : List α) : (l ++ a :: rest).idxOf? a = some l.length := by
  induction l with
  | nil => rw [List.nil_append, List.idxOf?_cons, beq_self_eq_true]; rfl
  | cons x l ih =>
    obtain ⟨hx, hl⟩ := List.ne_and_not_mem_of_not_mem_cons h
    rw [List.cons_append, List.idxOf?_cons, beq_eq_false_iff_ne.2 (Ne.symm hx), ih hl]
    rfl

theorem cut_of_idxOf? {a : α} : ∀ {l : List α} {n : Nat}, l.idxOf? a = some n →
    ∃ rest, l = l.take n ++ a :: rest ∧ a ∉ l.take n
  | x :: l, n, h => by
    rw [List.idxOf?_cons] at h
    by_cases hx : x = a
    · rw [if_pos (beq_iff_eq.2 hx)] at h
      cases h
      exact ⟨l, by rw [hx]; rfl, List.not_mem_nil⟩
    · rw [if_neg (by simpa using hx)] at h
      obtain ⟨m, hm, rfl⟩ := Option.map_eq_some_iff.1 h
      obtain ⟨rest, hl, hnot⟩ := cut_of_idxOf? hm
      refine ⟨rest, congrArg (List.cons x) hl, ?_⟩
      rw [List.take_succ_cons]
      exact List.not_mem_cons_of_ne_of_not_mem (Ne.symm hx) hnot

theorem getElem?_of_idxOf? {a : α} {l : List α} (h : l.idxOf? a = some n) : l[n]? = some a := by
  obtain ⟨hn, hbeq, -⟩ := List.findIdx?_eq_some_iff_getElem.1 h
  rw [List.getElem?_eq_getElem hn, eq_of_beq hbeq]

end Find

/-! ## Lines -/

section Terminated
variable {α : Type} {sub : List α} {sep : α}

/-- The text of the lines, each ended by `sep`. -/
def terminated (sep : α) (ls : List (List α)) : List α := ls.flatMap (· ++ [sep])

theorem terminated_append (ls ms : List (List α)) : terminated sep (ls ++ ms) = terminated sep ls ++ terminated sep ms :=
  List.flatMap_append

theorem terminated_cons (l : List α) (ls : List (List α)) : terminated sep (l :: ls) = l ++ sep :: terminated sep ls := by
  rw [terminated, List.flatMap_cons, List.append_assoc]
  rfl

theorem length_terminated_pos (l : List α) (ls : List (List α)) : 0 < (terminated sep (l :: ls)).length := by
  rw [terminated_cons, List.length_append, List.length_cons]
  omega

theorem exists_terminated_eq (sep : α) (l : List α) (ls : List (List α)) : ∃ x, terminated sep (l :: ls) = x ++ [sep] := by
  induction ls generalizing l with
  | nil => exact ⟨l, List.append_nil _⟩
  | cons m ls ih =>
    obtain ⟨x, hx⟩ := ih m
    exact ⟨l ++ sep :: x, by rw [terminated_cons, hx, List.append_assoc, List.cons_append]⟩

theorem prefix_of_not_mem : ∀ {sub a : List α} {b : List α}, sep ∉ sub → sub <+: a ++ sep :: b → sub <+: a
  | [], _, _, _, _ => List.nil_prefix
  | x :: sub, [], b, hsep, h => absurd (List.cons_prefix_cons.1 h).1 fun he => hsep (by rw [he]; exact List.mem_cons_self)
  | x :: sub, y :: a, b, hsep, h => by
    have hcons := List.cons_prefix_cons.1 h
    exact List.cons_prefix_cons.2 ⟨hcons.1, prefix_of_not_mem (fun hm => hsep (List.mem_cons_of_mem _ hm)) hcons.2⟩

/-- **A pattern without a separator lies within one line.** -/
theorem exists_line (hsep : sep ∉ sub) (rest : List α) : ∀ (ls : List (List α)) (k : Nat), k < (terminated sep ls).length →
    sub <+: (terminated sep ls ++ rest).drop k →
    ∃ p l q off, ls = p ++ l :: q ∧ k = (terminated sep p).length + off ∧ off ≤ l.length ∧ sub <+: l.drop off
  | [], k, hk, _ => absurd hk (Nat.not_lt_zero k)
  | l :: ls, k, hk, h => by
    rw [terminated_cons] at h hk
    rw [List.append_assoc] at h
    rcases Nat.lt_or_ge l.length k with hlt | hle
    · obtain ⟨j, rfl⟩ := Nat.exists_eq_add_of_lt hlt
      rw [Nat.add_assoc, List.drop_length_add_append, List.cons_append, List.drop_succ_cons] at h
      rw [List.length_append, List.length_cons] at hk
      obtain ⟨p, m, q, off, rfl, rfl, hoff, hm⟩ := exists_line hsep rest ls j (by omega) h
      refine ⟨l :: p, m, q, off, rfl, ?_, hoff, hm⟩
      rw [terminated_cons, List.length_append, List.length_cons]
      omega
    · rw [List.drop_append_of_le_length hle, List.cons_append] at h
      exact ⟨[], l, ls, k, rfl, (Nat.zero_add k).symm, hle, prefix_of_not_mem hsep h⟩

end Terminated

/-- **The first empty line** is the first place of two separators. -/
theorem find_sep_sep {α : Type} [DecidableEq α] {sep : α} (rest : List α) : ∀ (ls : List (List α)) (l : List α),
    sep ∉ l → (∀ m ∈ ls, m ≠ [] ∧ sep ∉ m) →
    find [sep, sep] (terminated sep (l :: ls) ++ sep :: rest) = some ((terminated sep (l :: ls)).length - 1)
  | ls, c :: l, hl, hls => by
    have hne : ¬ [sep, sep] <+: c :: (terminated sep (l :: ls) ++ sep :: rest) := fun h =>
      hl (by rw [(List.cons_prefix_cons.1 h).1]; exact List.mem_cons_self)
    have ih := find_sep_sep rest ls l (fun h => hl (List.mem_cons_of_mem _ h)) hls
    have hcons : terminated sep ((c :: l) :: ls) = c :: terminated sep (l :: ls) := rfl
    rw [hcons, List.cons_append, find_cons hne, ih, Option.map_some, List.length_cons]
    have hpos : 0 < (terminated sep (l :: ls)).length := length_terminated_pos l ls
    congr 1
    omega
  | [], [], _, _ => find_zero (by simp [terminated])
  | m :: ls, [], _, hls => by
    obtain ⟨⟨hm, hsep⟩, hls⟩ := List.forall_mem_cons.1 hls
    have hne : ¬ [sep, sep] <+: sep :: (terminated sep (m :: ls) ++ sep :: rest) := by
      intro h
      have h := (List.cons_prefix_cons.1 h).2
      cases m with
      | nil => exact hm rfl
      | cons c m => exact hsep (by rw [(List.cons_prefix_cons.1 h).1]; exact List.mem_cons_self)
    have ih := find_sep_sep rest ls m hsep hls
    have hcons : terminated sep ([] :: m :: ls) = sep :: terminated sep (m :: ls) := rfl
    rw [hcons, List.cons_append, find_cons hne, ih, Option.map_some, List.length_cons]
    have hpos : 0 < (terminated sep (m :: ls)).length := length_terminated_pos m ls
    congr 1
    omega
termination_by ls l => (ls.length, l.length)

end Lib
