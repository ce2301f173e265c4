import Mathlib.Tactic

/-!
Records laid one after the other into pieces.

A piece holds whole records. Pieces may be dropped, emptied ones added and records left out: the
records that are still there are in the order in which they came. Pieces that are written one after
the other make groups of whole records.
-/

namespace Records

variable {α : Type*} {pieces pieces' groups : List (List α)} {records : List (List α)}

/-- Every piece is a concatenation of records, and all of them together are some of the records
in their order. -/
def Whole (pieces records : List (List α)) : Prop :=
  ∃ parts : List (List (List α)), pieces = parts.map List.flatten ∧ parts.flatten.Sublist records

lemma whole_nil : Whole ([] : List (List α)) records := ⟨[], rfl, List.nil_sublist _⟩

lemma Whole.sublist (h : Whole pieces records) (hsub : pieces'.Sublist pieces) :
    Whole pieces' records := by
  obtain ⟨parts, rfl, hrec⟩ := h
  obtain ⟨parts', hparts, rfl⟩ := List.sublist_map_iff.mp hsub
  exact ⟨parts', rfl, hparts.flatten.trans hrec⟩

/-- A record that is left out. -/
lemma Whole.drop (h : Whole pieces records) (r : List α) : Whole pieces (records ++ [r]) := by
  obtain ⟨parts, hp, hrec⟩ := h
  exact ⟨parts, hp, hrec.trans (List.sublist_append_left _ _)⟩

/-- A piece with nothing in it yet. -/
lemma Whole.empty (h : Whole pieces records) : Whole (pieces ++ [[]]) records := by
  obtain ⟨parts, rfl, hrec⟩ := h
  refine ⟨parts ++ [[]], by simp, ?_⟩
  simpa using hrec

/-- A record goes to the end of the last piece. -/
lemma Whole.put {p : List α} (h : Whole (pieces ++ [p]) records) (r : List α) :
    Whole (pieces ++ [p ++ r]) (records ++ [r]) := by
  obtain ⟨parts, hp, hrec⟩ := h
  obtain ⟨init, last, rfl, rfl, hlast⟩ := List.append_eq_map_iff.mp hp
  obtain ⟨part, rfl, rfl⟩ := List.map_eq_singleton_iff.mp hlast
  refine ⟨init ++ [part ++ [r]], by simp, ?_⟩
  have := hrec.append (List.Sublist.refl [r])
  simpa using this

/-- The pieces together are whole records in their order. -/
lemma Whole.flatten (h : Whole pieces records) :
    ∃ rs : List (List α), rs.Sublist records ∧ pieces.flatten = rs.flatten := by
  obtain ⟨parts, rfl, hrec⟩ := h
  exact ⟨parts.flatten, hrec, List.flatten_flatten.symm⟩

/-- The groups hold the pieces, each some that follow each other. -/
def Grouped (groups pieces : List (List α)) : Prop :=
  ∃ parts : List (List (List α)), groups = parts.map List.flatten ∧ parts.flatten = pieces

lemma grouped_new : Grouped [[]] ([] : List (List α)) := ⟨[[]], rfl, rfl⟩

/-- A piece goes to the end of the last group. -/
lemma Grouped.put {g : List α} (h : Grouped (groups ++ [g]) pieces) (p : List α) :
    Grouped (groups ++ [g ++ p]) (pieces ++ [p]) := by
  obtain ⟨parts, hg, rfl⟩ := h
  obtain ⟨init, last, rfl, rfl, hlast⟩ := List.append_eq_map_iff.mp hg
  obtain ⟨part, rfl, rfl⟩ := List.map_eq_singleton_iff.mp hlast
  exact ⟨init ++ [part ++ [p]], by simp, by simp⟩

/-- A new group. -/
lemma Grouped.next (h : Grouped groups pieces) : Grouped (groups ++ [[]]) pieces := by
  obtain ⟨parts, rfl, rfl⟩ := h
  exact ⟨parts ++ [[]], by simp, by simp⟩

lemma Grouped.flatten (h : Grouped groups pieces) : groups.flatten = pieces.flatten := by
  obtain ⟨parts, rfl, rfl⟩ := h
  exact List.flatten_flatten.symm

/-- Groups of whole records are whole records. -/
lemma Grouped.whole (h : Grouped groups pieces) (hw : Whole pieces records) :
    Whole groups records := by
  obtain ⟨parts, rfl, rfl⟩ := h
  obtain ⟨recs, hp, hrec⟩ := hw
  have hgroup : ∃ recs' : List (List (List α)), parts.map List.flatten = recs'.map List.flatten ∧
      recs'.flatten = recs.flatten := by
    clear hrec
    induction parts generalizing recs with
    | nil =>
      obtain rfl := List.map_eq_nil_iff.mp hp.symm
      exact ⟨[], rfl, rfl⟩
    | cons part parts ih =>
      rw [List.flatten_cons] at hp
      obtain ⟨front, back, rfl, rfl, hback⟩ := List.append_eq_map_iff.mp hp
      obtain ⟨recs', hmap, hflat⟩ := ih back hback.symm
      refine ⟨front.flatten :: recs', ?_, by simp [hflat]⟩
      rw [List.map_cons, List.map_cons, hmap, List.flatten_flatten]
  obtain ⟨recs', hmap, hflat⟩ := hgroup
  exact ⟨recs', hmap, hflat ▸ hrec⟩

end Records
