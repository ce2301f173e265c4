import Mathlib.Tactic

/-!
The searches of the C++ library on lists: positions, with the length standing for "not found".
-/

namespace Search

variable {α : Type*} [DecidableEq α]

/-- The position of the first occurrence of `pat`. -/
def search (pat : List α) : List α → ℕ
  | [] => 0
  | a :: l => if pat.isPrefixOf (a :: l) then 0 else search pat l + 1

/-- Two different symbols in a row, not occurring in `u`, are found at its end. -/
lemma search_pair {c d : α} (hcd : c ≠ d) {u : List α} (hu : ¬ [c, d] <:+: u) (v : List α) :
    search [c, d] (u ++ c :: d :: v) = u.length := by
  induction u with
  | nil => simp [search, List.isPrefixOf]
  | cons a u ih =>
    have hu' : ¬ [c, d] <:+: u := fun h => hu (h.trans (List.suffix_cons a u).isInfix)
    have hpre : ¬ [c, d] <+: a :: (u ++ c :: d :: v) := by
      rintro ⟨w, hw⟩
      obtain ⟨rfl, htl⟩ := List.cons.inj hw
      rcases u with _ | ⟨b, u⟩
      · exact hcd (List.cons.inj htl).1.symm
      · obtain ⟨rfl, -⟩ := List.cons.inj htl
        exact hu ⟨[], u, rfl⟩
    rw [List.cons_append, search, if_neg (by rwa [List.isPrefixOf_iff_prefix]), ih hu']
    rfl

/-- A pattern that does not occur is not found. -/
lemma search_of_missing {pat l : List α} (h : ¬ pat <:+: l) : search pat l = l.length := by
  induction l with
  | nil => rfl
  | cons a l ih =>
    have hl : ¬ pat <:+: l := fun hi => h (hi.trans (List.suffix_cons a l).isInfix)
    have hpre : ¬ pat <+: a :: l := fun hp => h hp.isInfix
    rw [search, if_neg (by rwa [List.isPrefixOf_iff_prefix]), ih hl, List.length_cons]

omit [DecidableEq α] in
/-- The first occurrence of a pair. -/
lemma exists_first_pair {c d : α} {l : List α} (h : [c, d] <:+: l) :
    ∃ u v, ¬ [c, d] <:+: u ∧ l = u ++ c :: d :: v := by
  classical
  induction l with
  | nil => simp at h
  | cons a l ih =>
    by_cases hl : [c, d] <+: a :: l
    · obtain ⟨v, hv⟩ := hl
      exact ⟨[], v, by simp, hv.symm⟩
    · obtain ⟨u, v, hu, rfl⟩ := ih ((List.infix_cons_iff.mp h).resolve_left hl)
      refine ⟨a :: u, v, fun hi => ?_, rfl⟩
      rcases List.infix_cons_iff.mp hi with hp | hi
      · exact hl (hp.trans (List.prefix_append (a :: u) _))
      · exact hu hi

/-- There is one first occurrence. -/
lemma first_pair_inj {c d : α} (hcd : c ≠ d) {u u' v v' : List α} (hu : ¬ [c, d] <:+: u)
    (hu' : ¬ [c, d] <:+: u') (h : u ++ c :: d :: v = u' ++ c :: d :: v') : u = u' ∧ v = v' := by
  have hlen := search_pair hcd hu v
  rw [h, search_pair hcd hu' v'] at hlen
  obtain ⟨rfl, htl⟩ := List.append_inj h hlen.symm
  exact ⟨rfl, (List.cons.inj (List.cons.inj htl).2).2⟩

omit [DecidableEq α] in
/-- A pair cannot straddle a symbol that is neither of the two. -/
lemma pair_infix_split {c d x : α} (hc : x ≠ c) (hd : x ≠ d) {u v : List α}
    (h : [c, d] <:+: u ++ x :: v) : [c, d] <:+: u ∨ [c, d] <:+: v := by
  induction u with
  | nil =>
    rcases List.infix_cons_iff.mp h with h | h
    · exact absurd (List.cons_prefix_cons.mp h).1.symm hc
    · exact .inr h
  | cons a u ih =>
    rcases List.infix_cons_iff.mp h with h | h
    · obtain ⟨rfl, htl⟩ := List.cons_prefix_cons.mp h
      rcases u with _ | ⟨b, u⟩
      · exact absurd (List.cons_prefix_cons.mp htl).1.symm hd
      · obtain ⟨rfl, -⟩ := List.cons_prefix_cons.mp htl
        exact .inl ⟨[], u, rfl⟩
    · rcases ih h with h | h
      · exact .inl (h.trans (List.suffix_cons a u).isInfix)
      · exact .inr h

/-- A symbol that does not occur in `u` is found at its end. -/
lemma idxOf_append_cons {c : α} {u : List α} (hu : c ∉ u) (v : List α) :
    (u ++ c :: v).idxOf c = u.length := by
  rw [List.idxOf_append_of_notMem hu, List.idxOf_cons_self, Nat.add_zero]

omit [DecidableEq α] in
/-- A list is cut at the first of its `c` in one way. -/
lemma cut_inj {c : α} {u v x y : List α} (hu : c ∉ u) (hv : c ∉ v)
    (h : u ++ c :: x = v ++ c :: y) : u = v ∧ x = y := by
  induction u generalizing v with
  | nil =>
    cases v with
    | nil => exact ⟨rfl, (List.cons.inj h).2⟩
    | cons b v => exact absurd (List.cons.inj h).1 (List.ne_of_not_mem_cons hv)
  | cons a u ih =>
    cases v with
    | nil => exact absurd (List.cons.inj h).1.symm (List.ne_of_not_mem_cons hu)
    | cons b v =>
      obtain ⟨rfl, htl⟩ := List.cons.inj h
      obtain ⟨rfl, rfl⟩ :=
        ih (List.not_mem_of_not_mem_cons hu) (List.not_mem_of_not_mem_cons hv) htl
      exact ⟨rfl, rfl⟩

end Search
