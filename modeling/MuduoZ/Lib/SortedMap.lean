import Mathlib.Tactic

/-!
`std::map` as the list of its entries in iteration order.
-/

namespace SortedMap

variable {α β : Type*} [DecidableEq α] [LT α] [DecidableLT α]

/-- `m[k] = v`. -/
def set (k : α) (v : β) : List (α × β) → List (α × β)
  | [] => [(k, v)]
  | (a, b) :: m =>
    if k = a then (k, v) :: m
    else if k < a then (k, v) :: (a, b) :: m
    else (a, b) :: set k v m

omit [LT α] [DecidableLT α] in
/-- `m.find(k)`. -/
def get? (k : α) : List (α × β) → Option β
  | [] => none
  | (a, b) :: m => if k = a then some b else get? k m

omit [LT α] [DecidableLT α] in
/-- `m.erase(k)`. -/
def erase (k : α) (m : List (α × β)) : List (α × β) := m.filter (·.1 ≠ k)

lemma get?_set (k l : α) (v : β) (m : List (α × β)) :
    get? l (set k v m) = if l = k then some v else get? l m := by
  induction m with
  | nil => simp [set, get?]
  | cons e m ih =>
    obtain ⟨a, b⟩ := e
    unfold set
    by_cases hka : k = a
    · subst hka
      by_cases hl : l = k <;> simp [get?, hl]
    · by_cases hlt : k < a
      · by_cases hl : l = k <;> simp [get?, hka, hlt, hl]
      · have hl : get? l (set k v m) = if l = k then some v else get? l m := ih
        by_cases h : l = a <;> simp [get?, hka, hlt, hl, h, Ne.symm hka]

omit [LT α] [DecidableLT α] in
lemma get?_erase (k l : α) (m : List (α × β)) :
    get? l (erase k m) = if l = k then none else get? l m := by
  induction m with
  | nil => simp [erase, get?]
  | cons e m ih =>
    obtain ⟨a, b⟩ := e
    rw [erase] at ih
    by_cases hak : a = k
    · subst hak
      rw [erase, List.filter_cons_of_neg (by simp), ih, get?]
      by_cases hl : l = a <;> simp [hl]
    · rw [erase, List.filter_cons_of_pos (by simpa using hak), get?, ih, get?]
      by_cases hl : l = a <;> simp [hl, hak]

/-- A key that is new is inserted. -/
lemma mem_set_of_fresh {k : α} {v : β} {m : List (α × β)} (h : ∀ e ∈ m, e.1 ≠ k) (e : α × β) :
    e ∈ set k v m ↔ e = (k, v) ∨ e ∈ m := by
  induction m with
  | nil => simp [set]
  | cons f m ih =>
    obtain ⟨a, b⟩ := f
    have hka : k ≠ a := fun hk => h (a, b) (List.mem_cons_self ..) hk.symm
    have ih := ih fun e he => h e (List.mem_cons_of_mem _ he)
    unfold set
    rw [if_neg hka]
    split_ifs
    · simp
    · rw [List.mem_cons, ih, List.mem_cons]
      exact or_left_comm

end SortedMap
