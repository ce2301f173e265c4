import Mathlib.Tactic

/-!
Elements held in slots, each of them in one slot and once in it.
-/

namespace Slots

open Function

variable {ι α : Type*} {S S' : ι → List α} {i j : ι} {x y : α} {l : List α}

/-- `x` is in some slot. -/
def In (S : ι → List α) (x : α) : Prop := ∃ i, x ∈ S i

/-- No element is held twice. -/
structure Once (S : ι → List α) : Prop where
  unique : ∀ {i j x}, x ∈ S i → x ∈ S j → i = j
  nodup : ∀ i, (S i).Nodup

lemma once_empty : Once (fun _ : ι => ([] : List α)) := ⟨by simp, by simp⟩

lemma Once.sub (h : Once S) (hs : ∀ i, (S' i).Sublist (S i)) : Once S' :=
  ⟨fun hi hj => h.unique ((hs _).subset hi) ((hs _).subset hj), fun i => (hs i).nodup (h.nodup i)⟩

lemma In.sub (hs : ∀ i, (S' i).Sublist (S i)) (h : In S' x) : In S x :=
  let ⟨i, hi⟩ := h
  ⟨i, (hs i).subset hi⟩

variable [DecidableEq ι]

/-! ### Putting an element -/

/-- `x` put at the end of slot `i`. -/
def put (S : ι → List α) (i : ι) (x : α) : ι → List α := update S i (S i ++ [x])

lemma put_of_ne (h : j ≠ i) : put S i x j = S j := update_of_ne h ..

lemma mem_put_iff : y ∈ put S i x j ↔ y ∈ S j ∨ y = x ∧ j = i := by
  rcases eq_or_ne j i with rfl | hj
  · simp [put]
  · simp [put_of_ne hj, hj]

lemma in_put_iff : In (put S i x) y ↔ In S y ∨ y = x := by
  simp only [In, mem_put_iff, exists_or, exists_and_left, exists_eq, and_true]

lemma Once.put (h : Once S) (hx : ¬ In S x) : Once (put S i x) := by
  refine ⟨fun {j k y} hj hk => ?_, fun j => ?_⟩
  · rw [mem_put_iff] at hj hk
    rcases hj with hj | ⟨rfl, rfl⟩
    · rcases hk with hk | ⟨rfl, rfl⟩
      · exact h.unique hj hk
      · exact absurd ⟨j, hj⟩ hx
    · rcases hk with hk | ⟨-, rfl⟩
      · exact absurd ⟨k, hk⟩ hx
      · rfl
  · rcases eq_or_ne j i with rfl | hj
    · rw [Slots.put, update_self]
      exact (h.nodup j).append (List.nodup_singleton x) (by simpa using fun hm => hx ⟨j, hm⟩)
    · rw [put_of_ne hj]; exact h.nodup j

/-- A slot of which one element fewer is left. -/
lemma sub_update (hl : l.Sublist (S i)) (k : ι) : (update S i l k).Sublist (S k) := by
  rcases eq_or_ne k i with rfl | hk
  · rwa [update_self]
  · rw [update_of_ne hk]

/-! ### Removing an element -/

/-- `x` removed from slot `i`. -/
def remove [DecidableEq α] (S : ι → List α) (i : ι) (x : α) : ι → List α :=
  update S i ((S i).filter (· ≠ x))

lemma remove_sub [DecidableEq α] (k : ι) : (remove S i x k).Sublist (S k) :=
  sub_update List.filter_sublist k

lemma mem_remove_iff [DecidableEq α] : y ∈ remove S i x j ↔ y ∈ S j ∧ (j = i → y ≠ x) := by
  rcases eq_or_ne j i with rfl | hj
  · simp [remove]
  · simp [remove, hj]

/-- The others stay. -/
lemma in_remove [DecidableEq α] (hy : y ≠ x) (h : In S y) : In (remove S i x) y :=
  let ⟨j, hj⟩ := h
  ⟨j, mem_remove_iff.mpr ⟨hj, fun _ => hy⟩⟩

/-! ### Going through a slot -/

lemma mem_update_iff : y ∈ update S i l j ↔ y ∈ l ∧ j = i ∨ y ∈ S j ∧ j ≠ i := by
  rcases eq_or_ne j i with rfl | hj
  · simp
  · simp [hj]

/-- The first of the elements that slot `i` still holds is taken. -/
lemma in_take_iff : In (update S i (x :: l)) y ↔ y = x ∨ In (update S i l) y := by
  constructor
  · rintro ⟨j, hj⟩
    rcases mem_update_iff.mp hj with ⟨hy, rfl⟩ | hj
    · rcases List.mem_cons.mp hy with rfl | hy
      · exact .inl rfl
      · exact .inr ⟨j, mem_update_iff.mpr (.inl ⟨hy, rfl⟩)⟩
    · exact .inr ⟨j, mem_update_iff.mpr (.inr hj)⟩
  · rintro (rfl | ⟨j, hj⟩)
    · exact ⟨i, by simp⟩
    · refine ⟨j, ?_⟩
      rcases mem_update_iff.mp hj with ⟨hy, rfl⟩ | hj
      · exact mem_update_iff.mpr (.inl ⟨List.mem_cons_of_mem _ hy, rfl⟩)
      · exact mem_update_iff.mpr (.inr hj)

lemma take_sub (k : ι) : (update S i l k).Sublist (update S i (x :: l) k) := by
  have := sub_update (S := update S i (x :: l)) (i := i) (l := l) (by simp) k
  rwa [update_idem] at this

lemma Once.take (h : Once (update S i (x :: l))) :
    Once (update S i l) ∧ ¬ In (update S i l) x := by
  refine ⟨h.sub take_sub, fun ⟨j, hj⟩ => ?_⟩
  have hx : x ∈ update S i (x :: l) i := by simp
  obtain rfl := h.unique ((take_sub j).subset hj) hx
  have := h.nodup j
  rw [update_self] at hj this
  exact (List.nodup_cons.mp this).1 hj

/-- To put an element elsewhere and to go through slot `i` do not meet. -/
lemma put_update (hj : j ≠ i) : put (update S i l) j x = update (put S j x) i l := by
  rw [put, put, update_of_ne hj, update_comm hj.symm]

end Slots
