import Mathlib.Data.List.ReduceOption
import Mathlib.Tactic

/-!
Runs of a step function that may fail, and what holds along them.

A run is a list of actions. A property holds along the run when it holds of every state the
run passes, and a condition is met by the run when it is met by every step the run takes.
-/

namespace Runs

variable {ε σ α : Type*} (step : σ → α → Except ε σ)

/-- The state a run ends in. -/
def exec : σ → List α → Except ε σ
  | s, [] => .ok s
  | s, a :: as => match step s a with
    | .ok t => exec t as
    | .error e => .error e

/-- The states of the run satisfy `P`, the first and the last included. -/
def Along (P : σ → Prop) (s : σ) (as : List α) : Prop :=
  ∀ pre post t, as = pre ++ post → exec step s pre = .ok t → P t

/-- The steps the run takes satisfy `ok`, a condition on the state before the step. -/
def Each (ok : σ → α → Prop) (s : σ) (as : List α) : Prop :=
  ∀ pre a post t u, as = pre ++ a :: post → exec step s pre = .ok t → step t a = .ok u → ok t a

/-- The actions of the run are asked for in states that satisfy `ok`, whether or not the step
then goes through. -/
def Asks (ok : σ → α → Prop) (s : σ) (as : List α) : Prop :=
  ∀ pre a post t, as = pre ++ a :: post → exec step s pre = .ok t → ok t a

/-- The run goes through, and its states satisfy `P`. -/
def Always (P : σ → Prop) (s : σ) (as : List α) : Prop :=
  ∀ pre post, as = pre ++ post → ∃ t, exec step s pre = .ok t ∧ P t

/-- From a state that satisfies `Q` on, every state of the run satisfies `P`. -/
def After (Q P : σ → Prop) (s : σ) (as : List α) : Prop :=
  ∀ pre post t, as = pre ++ post → exec step s pre = .ok t → Q t → Along step P t post

/-- How many steps of the run are of a kind. -/
def tally (p : σ → α → Prop) [∀ s a, Decidable (p s a)] : σ → List α → ℕ
  | _, [] => 0
  | s, a :: as => (if p s a then 1 else 0) + match step s a with
    | .ok t => tally p t as
    | .error _ => 0

@[simp] lemma exec_nil (s : σ) : exec step s [] = .ok s := rfl

lemma exec_cons_ok {s t : σ} {a : α} {as : List α} (h : step s a = .ok t) :
    exec step s (a :: as) = exec step t as := by
  simp [exec, h]

lemma exec_cons_iff {s t : σ} {a : α} {as : List α} :
    exec step s (a :: as) = .ok t ↔ ∃ u, step s a = .ok u ∧ exec step u as = .ok t := by
  cases h : step s a <;> simp [exec, h]

lemma exec_append_ok {s t : σ} {as bs : List α} (h : exec step s as = .ok t) :
    exec step s (as ++ bs) = exec step t bs := by
  induction as generalizing s with
  | nil => cases h; rfl
  | cons a as ih =>
    obtain ⟨u, hu, h⟩ := (exec_cons_iff step).mp h
    rw [List.cons_append, exec_cons_ok step hu, ih h]

lemma exec_append_iff {s t : σ} {as bs : List α} :
    exec step s (as ++ bs) = .ok t ↔ ∃ u, exec step s as = .ok u ∧ exec step u bs = .ok t := by
  constructor
  · intro h
    induction as generalizing s with
    | nil => exact ⟨s, rfl, h⟩
    | cons a as ih =>
      obtain ⟨u, hu, h⟩ := (exec_cons_iff step).mp h
      obtain ⟨v, hv, h⟩ := ih h
      exact ⟨v, (exec_cons_ok step hu).trans hv, h⟩
  · rintro ⟨u, hu, h⟩
    rw [exec_append_ok step hu, h]

variable {step}

/-- A run that was evaluated. -/
lemma exec_of_map {β : Type*} {f : σ → β} {b : β} {s : σ} {as : List α}
    (h : (exec step s as).toOption.map f = some b) : ∃ t, exec step s as = .ok t ∧ f t = b := by
  cases he : exec step s as with
  | error e => rw [he] at h; cases h
  | ok t => rw [he] at h; exact ⟨t, rfl, Option.some.inj h⟩

/-- An invariant of the steps holds at the end of a run. -/
theorem exec_inv {I : σ → Prop} (hstep : ∀ s a t, I s → step s a = .ok t → I t)
    {s t : σ} {as : List α} (hs : I s) (h : exec step s as = .ok t) : I t := by
  induction as generalizing s with
  | nil => cases h; exact hs
  | cons a as ih =>
    obtain ⟨u, hu, h⟩ := (exec_cons_iff step).mp h
    exact ih (hstep s a u hs hu) h

/-- An error that no step makes, no run makes. -/
theorem exec_ne_error {I : σ → Prop} {e : ε} (hstep : ∀ s a t, I s → step s a = .ok t → I t)
    (hne : ∀ s a, I s → step s a ≠ .error e) {s : σ} (hs : I s) (as : List α) :
    exec step s as ≠ .error e := by
  induction as generalizing s with
  | nil => simp
  | cons a as ih =>
    cases ha : step s a with
    | error e' =>
      simp only [exec, ha]
      exact fun he => hne s a hs (ha.trans (by rw [Except.error.inj he]))
    | ok t =>
      rw [exec_cons_ok step ha]
      exact ih (hstep s a t hs ha)

/-- Steps that always go through and keep an invariant make runs that always go through. -/
theorem exec_total {I : σ → Prop} (hstep : ∀ s a, I s → ∃ t, step s a = .ok t ∧ I t)
    {s : σ} (hs : I s) (as : List α) : ∃ t, exec step s as = .ok t ∧ I t := by
  induction as generalizing s with
  | nil => exact ⟨s, rfl, hs⟩
  | cons a as ih =>
    obtain ⟨t, ht, hI⟩ := hstep s a hs
    rw [exec_cons_ok step ht]
    exact ih hI

lemma Asks.tail {ok : σ → α → Prop} {s t : σ} {a : α} {as : List α}
    (h : Asks step ok s (a :: as)) (ht : step s a = .ok t) : Asks step ok t as :=
  fun pre b post u he hu =>
    h (a :: pre) b post u (by rw [he]; rfl) (by rw [exec_cons_ok step ht, hu])

/-- Steps that go through when they are asked for as they should be make such runs. -/
theorem exec_total_of_asks {I : σ → Prop} {ok : σ → α → Prop}
    (hstep : ∀ s a, I s → ok s a → ∃ t, step s a = .ok t ∧ I t) {s : σ} {as : List α}
    (hs : I s) (h : Asks step ok s as) : ∃ t, exec step s as = .ok t ∧ I t := by
  induction as generalizing s with
  | nil => exact ⟨s, rfl, hs⟩
  | cons a as ih =>
    obtain ⟨t, ht, hI⟩ := hstep s a hs (h [] a as s rfl rfl)
    rw [exec_cons_ok step ht]
    exact ih hI (h.tail ht)

lemma asks_nil {ok : σ → α → Prop} {s : σ} : Asks step ok s [] :=
  fun pre _ _ _ he => by simp at he

lemma asks_cons {ok : σ → α → Prop} {s : σ} {a : α} {as : List α} :
    Asks step ok s (a :: as) ↔ ok s a ∧ ∀ t, step s a = .ok t → Asks step ok t as := by
  constructor
  · exact fun h => ⟨h [] a as s rfl rfl, fun t ht => h.tail ht⟩
  · rintro ⟨ha, h⟩ pre b post t he ht
    cases pre with
    | nil =>
      obtain ⟨rfl, rfl⟩ := List.cons.inj he
      cases ht; exact ha
    | cons c pre =>
      obtain ⟨rfl, rfl⟩ := List.cons.inj he
      obtain ⟨u, hu, ht⟩ := (exec_cons_iff step).mp ht
      exact h u hu pre b post t rfl ht

/-- Whether a run on fixed input asks as it should is checked step by step. -/
def decidableAsks {ok : σ → α → Prop} [∀ s a, Decidable (ok s a)] :
    ∀ s as, Decidable (Asks step ok s as)
  | _, [] => isTrue asks_nil
  | s, a :: as => match h : step s a with
    | .error e => decidable_of_iff (ok s a) (by
        rw [asks_cons]
        exact ⟨fun ha => ⟨ha, fun t ht => by rw [h] at ht; cases ht⟩, And.left⟩)
    | .ok t =>
      have : Decidable (Asks step ok t as) := decidableAsks t as
      decidable_of_iff (ok s a ∧ Asks step ok t as) (by
        rw [asks_cons]
        exact ⟨fun ha => ⟨ha.1, fun u hu => by
          obtain rfl := Except.ok.inj (h.symm.trans hu); exact ha.2⟩,
          fun ha => ⟨ha.1, ha.2 t h⟩⟩)

instance {ok : σ → α → Prop} [∀ s a, Decidable (ok s a)] {s : σ} {as : List α} :
    Decidable (Asks step ok s as) :=
  decidableAsks s as

/-- The beginning of such a run is asked for as it should be. -/
lemma Asks.left {ok : σ → α → Prop} {s : σ} {as bs : List α} (h : Asks step ok s (as ++ bs)) :
    Asks step ok s as :=
  fun pre a post t he ht => h pre a (post ++ bs) t (by rw [he]; simp) ht

/-- **Simulation**: a relation to an abstract state that every step keeps holds at the end. -/
theorem exec_sim {τ : Type*} {R : σ → τ → Prop} {ok : σ → α → Prop} (next : τ → α → τ)
    (hstep : ∀ s t a, R s t → ok s a → ∃ s', step s a = .ok s' ∧ R s' (next t a))
    {s : σ} {t : τ} {as : List α} (hR : R s t) (h : Asks step ok s as) :
    ∃ s', exec step s as = .ok s' ∧ R s' (as.foldl next t) := by
  induction as generalizing s t with
  | nil => exact ⟨s, rfl, hR⟩
  | cons a as ih =>
    obtain ⟨s', hs', hR'⟩ := hstep s t a hR (h [] a as s rfl rfl)
    rw [exec_cons_ok step hs']
    exact ih hR' (h.tail hs')

/-- **Refinement**: when every step is a step of the abstract system or is not seen there, a run is
seen as a run there, step by step: for each of its steps that one has a step or none. -/
theorem exec_refines {τ β ε' : Type*} {step' : τ → β → Except ε' τ} {I : σ → Prop} {f : σ → τ}
    (hinv : ∀ s a t, I s → step s a = .ok t → I t)
    (hstep : ∀ s a t, I s → step s a = .ok t → f t = f s ∨ ∃ b, step' (f s) b = .ok (f t))
    {s : σ} (hs : I s) (as : List α) : ∃ bs : List (Option β), bs.length = as.length ∧
      ∀ i t, exec step s (as.take i) = .ok t →
        exec step' (f s) (bs.take i).reduceOption = .ok (f t) := by
  induction as generalizing s with
  | nil =>
    refine ⟨[], rfl, fun i t h => ?_⟩
    rw [List.take_nil] at h ⊢
    obtain rfl := Except.ok.inj h
    rfl
  | cons a as ih =>
    cases hu : step s a with
    | error e =>
      refine ⟨none :: as.map fun _ => none, by simp, fun i t h => ?_⟩
      cases i with
      | zero =>
        obtain rfl := Except.ok.inj h
        rfl
      | succ i =>
        obtain ⟨u, hu', -⟩ := (exec_cons_iff step).mp h
        cases hu.symm.trans hu'
    | ok u =>
      obtain ⟨bs, hlen, hbs⟩ := ih (hinv s a u hs hu)
      -- the step is the abstract one, or it is left out
      obtain ⟨b, hb⟩ : ∃ b : Option β,
          ∀ cs t, exec step' (f u) (List.reduceOption cs) = .ok t →
            exec step' (f s) (b :: cs).reduceOption = .ok t := by
        rcases hstep s a u hs hu with he | ⟨b, hb⟩
        · exact ⟨none, fun cs t h => by rwa [List.reduceOption_cons_of_none, ← he]⟩
        · refine ⟨some b, fun cs t h => ?_⟩
          rwa [List.reduceOption_cons_of_some, exec_cons_ok step' hb]
      refine ⟨b :: bs, by simp [hlen], fun i t h => ?_⟩
      cases i with
      | zero =>
        obtain rfl := Except.ok.inj h
        rfl
      | succ i =>
        rw [List.take_succ_cons, exec_cons_ok step hu] at h
        exact hb _ _ (hbs i t h)

lemma along_nil {P : σ → Prop} {s : σ} : Along step P s [] ↔ P s := by
  constructor
  · intro h; exact h [] [] s rfl rfl
  · intro h pre post t he ht
    obtain ⟨rfl, rfl⟩ := List.append_eq_nil_iff.mp he.symm
    cases ht; exact h

lemma along_cons {P : σ → Prop} {s : σ} {a : α} {as : List α} :
    Along step P s (a :: as) ↔ P s ∧ ∀ t, step s a = .ok t → Along step P t as := by
  constructor
  · intro h
    refine ⟨h [] (a :: as) s rfl rfl, fun t ht pre post u he hu => ?_⟩
    exact h (a :: pre) post u (by rw [he]; rfl) (by rw [exec_cons_ok step ht, hu])
  · rintro ⟨hs, h⟩ pre post u he hu
    cases pre with
    | nil => cases hu; exact hs
    | cons b pre =>
      obtain ⟨rfl, rfl⟩ := List.cons.inj he
      obtain ⟨t, ht, hu⟩ := (exec_cons_iff step).mp hu
      exact h t ht pre post u rfl hu

/-- What holds along a run on fixed input is checked state by state. -/
def decidableAlong {P : σ → Prop} [DecidablePred P] : ∀ s as, Decidable (Along step P s as)
  | s, [] => decidable_of_iff (P s) along_nil.symm
  | s, a :: as => match h : step s a with
    | .error e => decidable_of_iff (P s) (by
        rw [along_cons]
        exact ⟨fun hs => ⟨hs, fun t ht => by rw [h] at ht; cases ht⟩, And.left⟩)
    | .ok t =>
      have : Decidable (Along step P t as) := decidableAlong t as
      decidable_of_iff (P s ∧ Along step P t as) (by
        rw [along_cons]
        exact ⟨fun hs => ⟨hs.1, fun u hu => by
          obtain rfl := Except.ok.inj (h.symm.trans hu); exact hs.2⟩,
          fun hs => ⟨hs.1, hs.2 t h⟩⟩)

instance {P : σ → Prop} [DecidablePred P] {s : σ} {as : List α} :
    Decidable (Along step P s as) :=
  decidableAlong s as

/-- What is asked for as it should be meets the condition where it goes through. -/
lemma Asks.each {ok : σ → α → Prop} {s : σ} {as : List α} (h : Asks step ok s as) :
    Each step ok s as :=
  fun pre a post t _ he ht _ => h pre a post t he ht

lemma each_nil {ok : σ → α → Prop} {s : σ} : Each step ok s [] :=
  fun pre _ _ _ _ he => by simp at he

lemma each_cons {ok : σ → α → Prop} {s : σ} {a : α} {as : List α} :
    Each step ok s (a :: as) ↔ ∀ t, step s a = .ok t → ok s a ∧ Each step ok t as := by
  constructor
  · intro h t ht
    refine ⟨h [] a as s t rfl rfl ht, fun pre b post u v he hu hv => ?_⟩
    exact h (a :: pre) b post u v (by rw [he]; rfl) (by rw [exec_cons_ok step ht, hu]) hv
  · intro h pre b post u v he hu hv
    cases pre with
    | nil =>
      obtain ⟨rfl, rfl⟩ := List.cons.inj he
      cases hu; exact (h v hv).1
    | cons c pre =>
      obtain ⟨rfl, rfl⟩ := List.cons.inj he
      obtain ⟨t, ht, hu⟩ := (exec_cons_iff step).mp hu
      exact (h t ht).2 pre b post u v rfl hu hv

/-- A run on fixed input is checked step by step. -/
def decidableEach {ok : σ → α → Prop} [∀ s a, Decidable (ok s a)] :
    ∀ s as, Decidable (Each step ok s as)
  | _, [] => isTrue each_nil
  | s, a :: as => match h : step s a with
    | .error e => isTrue (each_cons.mpr fun t ht => by rw [h] at ht; cases ht)
    | .ok t =>
      have : Decidable (Each step ok t as) := decidableEach t as
      decidable_of_iff (ok s a ∧ Each step ok t as) (by
        rw [each_cons]
        exact ⟨fun hok u hu => by obtain rfl := Except.ok.inj (h.symm.trans hu); exact hok,
          fun hok => hok t h⟩)

instance {ok : σ → α → Prop} [∀ s a, Decidable (ok s a)] {s : σ} {as : List α} :
    Decidable (Each step ok s as) :=
  decidableEach s as

lemma each_append {ok : σ → α → Prop} {s : σ} {as bs : List α} :
    Each step ok s (as ++ bs) ↔
      Each step ok s as ∧ ∀ t, exec step s as = .ok t → Each step ok t bs := by
  induction as generalizing s with
  | nil => simp [each_nil]
  | cons a as ih =>
    simp only [List.cons_append, each_cons, ih, exec_cons_iff]
    constructor
    · exact fun h => ⟨fun t ht => ⟨(h t ht).1, (h t ht).2.1⟩,
        fun u ⟨t, ht, hu⟩ => (h t ht).2.2 u hu⟩
    · exact fun h t ht => ⟨(h.1 t ht).1, (h.1 t ht).2, fun u hu => h.2 u ⟨t, ht, hu⟩⟩

lemma Along.last {P : σ → Prop} {s t : σ} {as : List α} (h : Along step P s as)
    (ht : exec step s as = .ok t) : P t :=
  h as [] t (by simp) ht

lemma each_of_forall {ok : σ → α → Prop} {as : List α} (h : ∀ a ∈ as, ∀ s, ok s a) (s : σ) :
    Each step ok s as :=
  fun pre a post t _ he _ _ => h a (by simp [he]) t

/-- **Steps that meet the condition keep the invariant**, so the property holds along the run. -/
theorem along_of_each {I P : σ → Prop} {ok : σ → α → Prop}
    (hstep : ∀ s a t, I s → ok s a → step s a = .ok t → I t) (hP : ∀ s, I s → P s)
    {s : σ} {as : List α} (hs : I s) (h : Each step ok s as) : Along step P s as := by
  induction as generalizing s with
  | nil => exact along_nil.mpr (hP s hs)
  | cons a as ih =>
    refine along_cons.mpr ⟨hP s hs, fun t ht => ?_⟩
    obtain ⟨ha, has⟩ := each_cons.mp h t ht
    exact ih (hstep s a t hs ha ht) has

/-- What holds at the end of a run whose steps meet the condition. -/
lemma exec_inv_of_each {I : σ → Prop} {ok : σ → α → Prop}
    (hstep : ∀ s a t, I s → ok s a → step s a = .ok t → I t) {s t : σ} {as : List α} (hs : I s)
    (h : Each step ok s as) (ht : exec step s as = .ok t) : I t :=
  (along_of_each hstep (fun _ h => h) hs h).last ht

/-- **The condition is exact** when a step that misses it breaks the property at once. What is
assumed of the environment is a second condition that every step meets. -/
theorem along_iff_each_of {I P : σ → Prop} {env ok : σ → α → Prop}
    (hstep : ∀ s a t, I s → env s a → ok s a → step s a = .ok t → I t) (hP : ∀ s, I s → P s)
    (hbad : ∀ s a t, I s → env s a → ¬ ok s a → step s a = .ok t → ¬ P t)
    {s : σ} {as : List α} (hs : I s) (henv : Each step env s as) :
    Along step P s as ↔ Each step ok s as := by
  induction as generalizing s with
  | nil => exact ⟨fun _ => each_nil, fun _ => along_nil.mpr (hP s hs)⟩
  | cons a as ih =>
    rw [along_cons, each_cons]
    constructor
    · rintro ⟨-, h⟩ t ht
      obtain ⟨hea, heas⟩ := each_cons.mp henv t ht
      have ha : ok s a := by
        by_contra hn
        exact hbad s a t hs hea hn ht (h t ht [] as t rfl rfl)
      exact ⟨ha, (ih (hstep s a t hs hea ha ht) heas).mp (h t ht)⟩
    · intro h
      refine ⟨hP s hs, fun t ht => ?_⟩
      obtain ⟨hea, heas⟩ := each_cons.mp henv t ht
      obtain ⟨ha, has⟩ := h t ht
      exact (ih (hstep s a t hs hea ha ht) heas).mpr has

/-- The same, with nothing assumed. -/
theorem along_iff_each {I P : σ → Prop} {ok : σ → α → Prop}
    (hstep : ∀ s a t, I s → ok s a → step s a = .ok t → I t) (hP : ∀ s, I s → P s)
    (hbad : ∀ s a t, I s → ¬ ok s a → step s a = .ok t → ¬ P t)
    {s : σ} {as : List α} (hs : I s) : Along step P s as ↔ Each step ok s as := by
  have hnothing : Each step (fun _ _ => True) s as := each_of_forall (fun _ _ _ => trivial) s
  exact along_iff_each_of (fun s a t hI _ => hstep s a t hI) hP
    (fun s a t hI _ => hbad s a t hI) hs hnothing

lemma always_nil {P : σ → Prop} {s : σ} : Always step P s [] ↔ P s := by
  constructor
  · intro h
    obtain ⟨t, ht, hP⟩ := h [] [] rfl
    obtain rfl := Except.ok.inj ht
    exact hP
  · intro h pre post he
    obtain ⟨rfl, rfl⟩ := List.append_eq_nil_iff.mp he.symm
    exact ⟨s, rfl, h⟩

lemma always_cons {P : σ → Prop} {s : σ} {a : α} {as : List α} :
    Always step P s (a :: as) ↔ P s ∧ ∃ t, step s a = .ok t ∧ Always step P t as := by
  constructor
  · intro h
    obtain ⟨s', hs', hP⟩ := h [] (a :: as) rfl
    obtain rfl := Except.ok.inj hs'
    obtain ⟨t, ht, -⟩ := h [a] as rfl
    obtain ⟨u, hu, -⟩ := (exec_cons_iff step).mp ht
    refine ⟨hP, u, hu, fun pre post he => ?_⟩
    obtain ⟨v, hv, hPv⟩ := h (a :: pre) post (by rw [he]; rfl)
    exact ⟨v, by rwa [exec_cons_ok step hu] at hv, hPv⟩
  · rintro ⟨hP, t, ht, h⟩ pre post he
    cases pre with
    | nil => exact ⟨s, rfl, hP⟩
    | cons b pre =>
      obtain ⟨rfl, rfl⟩ := List.cons.inj he
      obtain ⟨v, hv, hPv⟩ := h pre post rfl
      exact ⟨v, by rwa [exec_cons_ok step ht], hPv⟩

/-- **The condition is exact for runs that go through**: a step that meets it goes through and keeps
the invariant, and one that misses it goes wrong or breaks the property at once. -/
theorem always_iff_asks {I P : σ → Prop} {env ok : σ → α → Prop}
    (hstep : ∀ s a, I s → env s a → ok s a → ∃ t, step s a = .ok t ∧ I t) (hP : ∀ s, I s → P s)
    (hbad : ∀ s a t, I s → env s a → ¬ ok s a → step s a = .ok t → ¬ P t)
    {s : σ} {as : List α} (hs : I s) (henv : Asks step env s as) :
    Always step P s as ↔ Asks step ok s as := by
  induction as generalizing s with
  | nil => exact iff_of_true (always_nil.mpr (hP s hs)) asks_nil
  | cons a as ih =>
    obtain ⟨hea, heas⟩ := asks_cons.mp henv
    rw [always_cons, asks_cons]
    constructor
    · rintro ⟨-, t, ht, h⟩
      have ha : ok s a := by
        by_contra hn
        obtain ⟨t', ht', hPt⟩ := h [] as rfl
        obtain rfl := Except.ok.inj ht'
        exact hbad s a t hs hea hn ht hPt
      refine ⟨ha, fun u hu => ?_⟩
      obtain rfl := Except.ok.inj (ht.symm.trans hu)
      obtain ⟨u, hu', hI⟩ := hstep s a hs hea ha
      obtain rfl := Except.ok.inj (ht.symm.trans hu')
      exact (ih hI (heas t ht)).mp h
    · rintro ⟨ha, h⟩
      obtain ⟨t, ht, hI⟩ := hstep s a hs hea ha
      exact ⟨hP s hs, t, ht, (ih hI (heas t ht)).mpr (h t ht)⟩

lemma after_nil {Q P : σ → Prop} {s : σ} : After step Q P s [] ↔ (Q s → P s) := by
  constructor
  · intro h hQ; exact along_nil.mp (h [] [] s rfl rfl hQ)
  · intro h pre post t he ht hQ
    obtain ⟨rfl, rfl⟩ := List.append_eq_nil_iff.mp he.symm
    cases ht; exact along_nil.mpr (h hQ)

lemma after_cons {Q P : σ → Prop} {s : σ} {a : α} {as : List α} :
    After step Q P s (a :: as) ↔
      (Q s → Along step P s (a :: as)) ∧ ∀ t, step s a = .ok t → After step Q P t as := by
  constructor
  · intro h
    refine ⟨h [] _ s rfl rfl, fun t ht pre post u he hu => ?_⟩
    exact h (a :: pre) post u (by rw [he]; rfl) (by rw [exec_cons_ok step ht, hu])
  · rintro ⟨hs, h⟩ pre post u he hu
    cases pre with
    | nil => obtain rfl := Except.ok.inj hu; rw [← List.nil_append post, ← he]; exact hs
    | cons b pre =>
      obtain ⟨rfl, rfl⟩ := List.cons.inj he
      obtain ⟨t, ht, hu⟩ := (exec_cons_iff step).mp hu
      exact h t ht pre post u rfl hu

/-- **A property that stays**: steps that meet the condition keep `Q` once it holds, and a step
that misses it is taken where `Q` holds and breaks `P` at once. -/
theorem after_iff_each {I Q P : σ → Prop} {ok : σ → α → Prop}
    (hstep : ∀ s a t, I s → ok s a → step s a = .ok t → I t ∧ (Q s → Q t))
    (hP : ∀ s, I s → Q s → P s)
    (hbad : ∀ s a t, I s → ¬ ok s a → step s a = .ok t → Q s ∧ ¬ P t)
    {s : σ} {as : List α} (hs : I s) : After step Q P s as ↔ Each step ok s as := by
  have hstay : ∀ (as : List α) s, I s → Q s → Each step ok s as → Along step P s as := by
    intro as s hI hQ h
    refine along_of_each (I := fun s => I s ∧ Q s) (fun s a t hIQ ha ht => ?_)
      (fun s hIQ => hP s hIQ.1 hIQ.2) ⟨hI, hQ⟩ h
    obtain ⟨hIt, hQt⟩ := hstep s a t hIQ.1 ha ht
    exact ⟨hIt, hQt hIQ.2⟩
  induction as generalizing s with
  | nil => exact ⟨fun _ => each_nil, fun _ => after_nil.mpr (hP s hs)⟩
  | cons a as ih =>
    rw [after_cons]
    constructor
    · rintro ⟨hQ, h⟩
      refine each_cons.mpr fun t ht => ?_
      have ha : ok s a := by
        by_contra hn
        obtain ⟨hQs, hPt⟩ := hbad s a t hs hn ht
        exact hPt ((along_cons.mp (hQ hQs)).2 t ht [] as t rfl rfl)
      exact ⟨ha, (ih (hstep s a t hs ha ht).1).mp (h t ht)⟩
    · intro h
      refine ⟨fun hQ => hstay _ s hs hQ h, fun t ht => ?_⟩
      obtain ⟨ha, has⟩ := each_cons.mp h t ht
      exact (ih (hstep s a t hs ha ht).1).mpr has

/-- A measure that a step raises no higher than another measure of the state it leads to: the peak
of the other bounds it along the run. -/
theorem exec_le_max {I : σ → Prop} {ok : σ → α → Prop} {f g : σ → ℕ} {m : ℕ}
    (hstep : ∀ s a t, I s → ok s a → step s a = .ok t → I t ∧ f t ≤ max (f s) (g t))
    {s t : σ} {as : List α} (hs : I s) (has : Asks step ok s as)
    (hg : Along step (fun s => g s ≤ m) s as) (h : exec step s as = .ok t) :
    f t ≤ max (f s) m := by
  induction as generalizing s with
  | nil =>
    obtain rfl := Except.ok.inj h
    exact le_max_left _ _
  | cons a as ih =>
    obtain ⟨u, hu, h⟩ := (exec_cons_iff step).mp h
    obtain ⟨hI, hle⟩ := hstep s a u hs (has [] a as s rfl rfl) hu
    have halong := (along_cons.mp hg).2 u hu
    have hgu : g u ≤ m := halong [] as u rfl rfl
    have hrest := ih hI (has.tail hu) halong h
    omega

/-- A counter that the steps of a kind raise, and no others: at the end it is higher by as many as
there were. -/
theorem exec_add_tally {I : σ → Prop} {p : σ → α → Prop} [∀ s a, Decidable (p s a)] {f : σ → ℕ}
    (hstep : ∀ s a t, I s → step s a = .ok t → I t ∧ f t = f s + if p s a then 1 else 0)
    {s t : σ} {as : List α} (hs : I s) (h : exec step s as = .ok t) :
    f t = f s + tally step p s as := by
  induction as generalizing s with
  | nil =>
    obtain rfl := Except.ok.inj h
    rfl
  | cons a as ih =>
    obtain ⟨u, hu, h⟩ := (exec_cons_iff step).mp h
    obtain ⟨hI, hf⟩ := hstep s a u hs hu
    have hrest := ih hI h
    simp only [tally, hu]
    omega

/-- A measure that no step raises and that steps of a kind lower: at the end it is lower by as many
as there were, or zero. -/
theorem exec_le_sub {I : σ → Prop} {ok p : σ → α → Prop} [∀ s a, Decidable (p s a)] {f : σ → ℕ}
    (hstep : ∀ s a t, I s → ok s a → step s a = .ok t →
      I t ∧ f t ≤ f s - if p s a then 1 else 0)
    {s t : σ} {as : List α} (hs : I s) (has : Each step ok s as) (h : exec step s as = .ok t) :
    I t ∧ f t ≤ f s - tally step p s as := by
  induction as generalizing s with
  | nil =>
    obtain rfl := Except.ok.inj h
    exact ⟨hs, le_rfl⟩
  | cons a as ih =>
    obtain ⟨u, hu, h⟩ := (exec_cons_iff step).mp h
    obtain ⟨ha, hrest⟩ := each_cons.mp has u hu
    obtain ⟨hI, hle⟩ := hstep s a u hs ha hu
    obtain ⟨hIt, hle'⟩ := ih hI hrest h
    refine ⟨hIt, ?_⟩
    simp only [tally, hu]
    omega

end Runs
