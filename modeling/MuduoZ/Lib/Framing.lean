import Mathlib.Tactic

/-!
Records of a head and a body, one after the other, without the length of the body.

A head can be told from what follows it. A body cannot, unless something is kept out of it: where
every head begins with a marker, a stream of bodies free of the marker is decoded in one way.
-/

namespace Framing

variable {κ α : Type*} (head : κ → List α) (ok : κ → Prop)

def encode (p : κ × List α) : List α := head p.1 ++ p.2

def stream (ps : List (κ × List α)) : List α := ps.flatMap (encode head)

/-- A head can be split off the front in one way. -/
def PrefixFree : Prop :=
  ∀ k k' x y, ok k → ok k' → head k ++ x = head k' ++ y → k = k' ∧ x = y

/-- Every head begins with the marker, and no end of the marker is a beginning of it. -/
structure Marks (m : List α) : Prop where
  nonempty : m ≠ []
  starts : ∀ k, ok k → m <+: head k
  borderless : ∀ n, 0 < n → n < m.length → m.take n ≠ m.drop (m.length - n)

variable {head ok} {m : List α} {ps qs : List (κ × List α)}

@[simp] lemma stream_cons (p : κ × List α) (ps : List (κ × List α)) :
    stream head (p :: ps) = head p.1 ++ (p.2 ++ stream head ps) := by
  simp [stream, encode]

lemma Marks.prefix_head (hm : Marks head ok m) {k : κ} (hk : ok k) (x : List α) :
    m <+: head k ++ x :=
  (hm.starts k hk).trans (List.prefix_append _ _)

/-- A stream is empty or begins with the marker. -/
lemma Marks.stream_cases (hm : Marks head ok m) (hp : ∀ p ∈ ps, ok p.1) :
    ps = [] ∨ m <+: stream head ps := by
  cases ps with
  | nil => exact .inl rfl
  | cons p ps => exact .inr (by rw [stream_cons]; exact hm.prefix_head (hp p (by simp)) _)

lemma Marks.stream_eq_nil (hm : Marks head ok m) (hp : ∀ p ∈ ps, ok p.1) :
    stream head ps = [] ↔ ps = [] := by
  refine ⟨fun h => (hm.stream_cases hp).resolve_right fun hpre => ?_, fun h => by rw [h]; rfl⟩
  rw [h] at hpre
  exact hm.nonempty (List.prefix_nil.mp hpre)

/-- Where a marker begins with the end of a body, it is in the body or overlaps itself. -/
lemma Marks.cut (hm : Marks head ok m) {b z y : List α} (hb : ¬ m <:+: b ++ z)
    (hx : z ++ y = [] ∨ m <+: z ++ y) (hy : y = [] ∨ m <+: y) : z = [] := by
  by_contra hz
  have hpre : m <+: z ++ y :=
    hx.resolve_left fun h => hz (List.append_eq_nil_iff.mp h).1
  rcases le_or_gt m.length z.length with hle | hlt
  · have hmz : m <+: z := List.prefix_of_prefix_length_le hpre (List.prefix_append z y) hle
    exact hb (hmz.isInfix.trans (List.suffix_append b z).isInfix)
  · obtain ⟨w, rfl⟩ : z <+: m :=
      List.prefix_of_prefix_length_le (List.prefix_append z y) hpre hlt.le
    have hwy : w <+: y := List.prefix_append_right_inj z |>.mp hpre
    have hw : 0 < w.length := by simpa using hlt
    have hy' : z ++ w <+: y := hy.resolve_left fun h => by
      rw [h, List.prefix_nil] at hwy
      simp [hwy] at hw
    -- the rest of the marker is at its own front as well
    have hwm : w <+: z ++ w := List.prefix_of_prefix_length_le hwy hy' (by simp)
    refine hm.borderless w.length hw (by simpa using List.length_pos_iff.mpr hz) ?_
    rw [← List.prefix_iff_eq_take.mp hwm]
    simp

lemma Marks.body_unique (hm : Marks head ok m) {b b' x y : List α} (hb : ¬ m <:+: b)
    (hb' : ¬ m <:+: b') (hx : x = [] ∨ m <+: x) (hy : y = [] ∨ m <+: y)
    (h : b ++ x = b' ++ y) : b = b' ∧ x = y := by
  rcases List.append_eq_append_iff.mp h with ⟨z, rfl, rfl⟩ | ⟨z, rfl, rfl⟩
  · obtain rfl := hm.cut hb' hx hy
    simp
  · obtain rfl := hm.cut hb hy hx
    simp

/-- **Bodies free of the marker are decoded in one way.** -/
theorem stream_inj (hfree : PrefixFree head ok) (hm : Marks head ok m)
    (hp : ∀ p ∈ ps, ok p.1 ∧ ¬ m <:+: p.2) (hq : ∀ q ∈ qs, ok q.1 ∧ ¬ m <:+: q.2)
    (h : stream head ps = stream head qs) : ps = qs := by
  induction ps generalizing qs with
  | nil => exact ((hm.stream_eq_nil fun q hmem => (hq q hmem).1).mp h.symm).symm
  | cons p ps ih =>
    cases qs with
    | nil => exact absurd ((hm.stream_eq_nil fun q hmem => (hp q hmem).1).mp h) (by simp)
    | cons q qs =>
      obtain ⟨hp1, hps⟩ := List.forall_mem_cons.mp hp
      obtain ⟨hq1, hqs⟩ := List.forall_mem_cons.mp hq
      rw [stream_cons, stream_cons] at h
      obtain ⟨hk, h⟩ := hfree _ _ _ _ hp1.1 hq1.1 h
      have hstream : ∀ {rs : List (κ × List α)}, (∀ r ∈ rs, ok r.1 ∧ ¬ m <:+: r.2) →
          stream head rs = [] ∨ m <+: stream head rs := fun {rs} hr => by
        rcases hm.stream_cases (fun r hmem => (hr r hmem).1) with rfl | hpre
        exacts [.inl rfl, .inr hpre]
      obtain ⟨hb, h⟩ := hm.body_unique hp1.2 hq1.2 (hstream hps) (hstream hqs) h
      rw [ih hps hqs h, Prod.ext hk hb]

/-- **Without a marker kept out of the bodies**, a stream is decoded in one way only if it is
one record at most, with a body that does not end in a record. -/
theorem stream_unique_iff (hfree : PrefixFree head ok) (hm : Marks head ok m)
    (hp : ∀ p ∈ ps, ok p.1) :
    (∀ qs, (∀ q ∈ qs, ok q.1) → stream head qs = stream head ps → qs = ps) ↔
      ps.length ≤ 1 ∧ ∀ p ∈ ps, ∀ q, ok q.1 → ¬ encode head q <:+ p.2 := by
  constructor
  · intro h
    rcases ps with _ | ⟨p, _ | ⟨q, ps⟩⟩
    · simp
    · refine ⟨le_rfl, fun p' hp' q hq => ?_⟩
      obtain rfl := List.mem_singleton.mp hp'
      rintro ⟨b, hb⟩
      -- the record at the end of the body, as a record of its own
      have hqs := h [(p'.1, b), q] (by simpa using ⟨hp p' (by simp), hq⟩)
        (by simp [stream, ← hb, encode])
      simp at hqs
    · have hqs := h [(p.1, p.2 ++ stream head (q :: ps))] (by simpa using hp p (by simp))
        (by simp [stream, encode])
      simp at hqs
  · rintro ⟨hlen, hend⟩ qs hq h
    rcases ps with _ | ⟨p, _ | ⟨p', ps⟩⟩
    · exact (hm.stream_eq_nil hq).mp h
    · rcases List.eq_nil_or_concat' qs with rfl | ⟨qs', l, rfl⟩
      · exact absurd ((hm.stream_eq_nil hp).mp h.symm) (by simp)
      · rcases qs' with _ | ⟨q, qs'⟩
        · obtain ⟨hk, hb⟩ := hfree l.1 p.1 (l.2 ++ []) (p.2 ++ []) (hq l (by simp))
            (hp p (by simp)) (by simpa [stream, encode] using h)
          simp only [List.append_nil] at hb
          rw [List.nil_append, Prod.ext hk hb]
        · -- the last of several records ends the body of the one
          rw [List.cons_append, stream_cons, stream_cons] at h
          obtain ⟨-, hb⟩ := hfree _ _ _ _ (hq q (by simp)) (hp p (by simp)) h
          have hsuf : encode head l <:+ p.2 := by
            refine ⟨q.2 ++ stream head qs', ?_⟩
            have hnil : stream head ([] : List (κ × List α)) = [] := rfl
            rw [hnil, List.append_nil] at hb
            rw [← hb]
            simp [stream]
          exact absurd hsuf (hend p (by simp) l (hq l (by simp)))
    · simp at hlen

end Framing
