import Mathlib.Tactic

/-!
A queue told by its history: everything put in at the end, and how much of it was taken off the
front.
-/

namespace Fifo

/-- No more was taken than was put in. -/
structure History (α : Type*) where
  put : List α
  taken : ℕ
  bound : taken ≤ put.length

inductive Op (α : Type*)
  | push (xs : List α)
  | pop (n : ℕ)
  | clear

variable {α : Type*}

namespace History

def empty : History α := ⟨[], 0, le_rfl⟩

/-- What is in the queue. -/
def content (h : History α) : List α := h.put.drop h.taken

def next (h : History α) : Op α → History α
  | .push xs => ⟨h.put ++ xs, h.taken, by simpa using h.bound.trans (Nat.le_add_right _ _)⟩
  | .pop n => ⟨h.put, min (h.taken + n) h.put.length, min_le_right _ _⟩
  | .clear => ⟨h.put, h.put.length, le_rfl⟩

variable (h : History α)

@[simp] lemma content_empty : (empty : History α).content = [] := rfl

@[simp] lemma content_push (xs : List α) : (h.next (.push xs)).content = h.content ++ xs :=
  List.drop_append_of_le_length h.bound

@[simp] lemma content_pop (n : ℕ) : (h.next (.pop n)).content = h.content.drop n := by
  change h.put.drop (min (h.taken + n) h.put.length) = (h.put.drop h.taken).drop n
  rw [List.drop_drop]
  rcases le_total (h.taken + n) h.put.length with hle | hge
  · rw [min_eq_left hle]
  · rw [min_eq_right hge, List.drop_length, List.drop_eq_nil_of_le hge]

@[simp] lemma content_clear : (h.next .clear).content = [] := List.drop_length ..

end History

/-- The history of a list of operations. -/
def history (ops : List (Op α)) : History α := ops.foldl History.next .empty

end Fifo
