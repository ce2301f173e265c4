import MuduoZ.Lib.Run

/-!
A monitor: data under a lock, and a condition on which threads wait.

A call waits until the data are ready, or changes the data and then may wake all that wait. Any
thread may call, any number of times, and a waiting thread may also wake without a reason.
-/

namespace Monitor

open Runs

/-- What the calls do to the data. A change that makes the data ready wakes those that wait. -/
structure Spec (σ α : Type*) where
  ready : σ → Bool
  update : α → σ → σ
  notifies : α → σ → Bool   -- of the data after the change
  rings : ∀ a d, ready d = false → ready (update a d) = true → notifies a (update a d) = true

inductive Call (α : Type*)
  | wait
  | update (a : α)
  deriving DecidableEq

/-- Where a thread is. -/
inductive Place (α : Type*)
  | outside
  | lock (c : Call α)     -- wants the lock
  | test                  -- in front of the test of the loop in which it waits
  | parked                -- waits, and has given the lock away
  | woken                 -- wants the lock back
  | update (a : α)
  | notify (a : α)
  | unlock (c : Call α)
  deriving DecidableEq

/-- The data, the holder of the lock, the place of each thread, and the changes made so far. -/
structure Sys (T σ α : Type*) where
  data : σ
  owner : Option T
  place : T → Place α
  updates : List α

inductive Action (T α : Type*)
  | call (t : T) (c : Call α)
  | go (t : T)
  | wake (t : T)
  deriving DecidableEq

/-- The thread cannot do that now. -/
inductive Blocked
  | blocked
  deriving DecidableEq

variable {T σ α : Type*} [DecidableEq T]

def start (d : σ) : Sys T σ α := ⟨d, none, fun _ => .outside, []⟩

/-- A thread that waits wakes. -/
def Place.awake : Place α → Place α
  | .parked => .woken
  | p => p

/-- The lock is held. -/
def Place.holds : Place α → Bool
  | .test | .update _ | .notify _ | .unlock _ => true
  | _ => false

def Sys.moveTo (s : Sys T σ α) (t : T) (p : Place α) : Sys T σ α :=
  { s with place := Function.update s.place t p }

/-- The thread takes the lock, if it is free. -/
def Sys.take (s : Sys T σ α) (t : T) (p : Place α) : Except Blocked (Sys T σ α) :=
  match s.owner with
  | none => .ok ({ s with owner := some t }.moveTo t p)
  | some _ => .error .blocked

def Sys.wakeAll (s : Sys T σ α) : Sys T σ α := { s with place := fun t => (s.place t).awake }

variable (m : Spec σ α)

/-- The next step of a thread. -/
def Sys.go (s : Sys T σ α) (t : T) : Except Blocked (Sys T σ α) :=
  match s.place t with
  | .outside => .error .blocked
  | .lock .wait => s.take t .test
  | .lock (.update a) => s.take t (.update a)
  | .test =>
    if m.ready s.data then .ok (s.moveTo t (.unlock .wait))
    else .ok ({ s with owner := none }.moveTo t .parked)
  | .parked => .error .blocked
  | .woken => s.take t .test
  | .update a =>
    .ok ({ s with data := m.update a s.data, updates := s.updates ++ [a] }.moveTo t (.notify a))
  | .notify a =>
    .ok ((if m.notifies a s.data then s.wakeAll else s).moveTo t (.unlock (.update a)))
  | .unlock _ => .ok ({ s with owner := none }.moveTo t .outside)

def step (s : Sys T σ α) : Action T α → Except Blocked (Sys T σ α)
  | .call t c => match s.place t with
    | .outside => .ok (s.moveTo t (.lock c))
    | _ => .error .blocked
  | .go t => s.go m t
  | .wake t => match s.place t with
    | .parked => .ok (s.moveTo t .woken)
    | _ => .error .blocked

/-- Where a thread is with the lock that it has just taken. -/
def Place.inside : Place α → Option (Place α)
  | .lock .wait => some .test
  | .lock (.update a) => some (.update a)
  | .woken => some .test
  | _ => none

/-- All that one step of a thread can be. -/
inductive Move (s : Sys T σ α) (t : T) : Sys T σ α → Prop
  | call (c : Call α) (h : s.place t = .outside) : Move s t (s.moveTo t (.lock c))
  | take (p : Place α) (h : (s.place t).inside = some p) (ho : s.owner = none) :
    Move s t ({ s with owner := some t }.moveTo t p)
  | pass (h : s.place t = .test) (hr : m.ready s.data = true) :
    Move s t (s.moveTo t (.unlock .wait))
  | park (h : s.place t = .test) (hr : m.ready s.data = false) :
    Move s t ({ s with owner := none }.moveTo t .parked)
  | update (a : α) (h : s.place t = .update a) :
    Move s t ({ s with data := m.update a s.data, updates := s.updates ++ [a] }.moveTo t
      (.notify a))
  | ring (a : α) (h : s.place t = .notify a) (hn : m.notifies a s.data = true) :
    Move s t (s.wakeAll.moveTo t (.unlock (.update a)))
  | quiet (a : α) (h : s.place t = .notify a) (hn : m.notifies a s.data = false) :
    Move s t (s.moveTo t (.unlock (.update a)))
  | leave (c : Call α) (h : s.place t = .unlock c) :
    Move s t ({ s with owner := none }.moveTo t .outside)
  | wake (h : s.place t = .parked) : Move s t (s.moveTo t .woken)

def Action.thread : Action T α → T
  | .call t _ | .go t | .wake t => t

variable {m} {s s' : Sys T σ α} {t u : T} {p : Place α}

lemma take_ok (h : s.take t p = .ok s') :
    s.owner = none ∧ s' = { s with owner := some t }.moveTo t p := by
  unfold Sys.take at h
  split at h
  · exact ⟨‹_›, (Except.ok.inj h).symm⟩
  · cases h

lemma step_cases {a : Action T α} (h : step m s a = .ok s') : Move m s a.thread s' := by
  cases a with
  | call t c =>
    simp only [step] at h
    split at h
    · obtain rfl := Except.ok.inj h; exact .call c ‹_›
    · cases h
  | wake t =>
    simp only [step] at h
    split at h
    · obtain rfl := Except.ok.inj h; exact .wake ‹_›
    · cases h
  | go t =>
    simp only [step, Sys.go] at h
    split at h
    · cases h
    · rename_i hp
      obtain ⟨ho, rfl⟩ := take_ok h
      exact .take _ (by rw [Action.thread, hp]; rfl) ho
    · rename_i hp
      obtain ⟨ho, rfl⟩ := take_ok h
      exact .take _ (by rw [Action.thread, hp]; rfl) ho
    · split_ifs at h with hr <;> obtain rfl := Except.ok.inj h
      · exact .pass ‹_› hr
      · exact .park ‹_› (by simpa using hr)
    · cases h
    · rename_i hp
      obtain ⟨ho, rfl⟩ := take_ok h
      exact .take _ (by rw [Action.thread, hp]; rfl) ho
    · obtain rfl := Except.ok.inj h; exact .update _ ‹_›
    · split_ifs at h with hn <;> obtain rfl := Except.ok.inj h
      · exact .ring _ ‹_› hn
      · exact .quiet _ ‹_› (by simpa using hn)
    · obtain rfl := Except.ok.inj h; exact .leave _ ‹_›

/-! ### One step -/

@[simp] lemma moveTo_place (s : Sys T σ α) (t : T) (p : Place α) :
    (s.moveTo t p).place t = p := Function.update_self ..

lemma moveTo_place_of_ne (h : u ≠ t) : (s.moveTo t p).place u = s.place u :=
  Function.update_of_ne h ..

@[simp] lemma moveTo_owner : (s.moveTo t p).owner = s.owner := rfl
@[simp] lemma moveTo_data : (s.moveTo t p).data = s.data := rfl
@[simp] lemma moveTo_updates : (s.moveTo t p).updates = s.updates := rfl

@[simp] lemma holds_awake (p : Place α) : p.awake.holds = p.holds := by cases p <;> rfl

lemma awake_ne_parked (p : Place α) : p.awake ≠ .parked := by cases p <;> simp [Place.awake]

/-- Only a thread that waits is moved by another one. -/
lemma awake_eq_iff {p q : Place α} (hq : q ≠ .woken) (hq' : q ≠ .parked) :
    p.awake = q ↔ p = q := by
  cases p <;> simp [Place.awake, hq.symm, hq'.symm]

lemma inside_cases {p q : Place α} (h : p.inside = some q) :
    (p = .lock .wait ∨ p = .woken) ∧ q = .test ∨ ∃ a, p = .lock (.update a) ∧ q = .update a := by
  cases p with
  | lock c => cases c <;> obtain rfl := Option.some.inj h <;> simp
  | woken => obtain rfl := Option.some.inj h; simp
  | outside | test | parked | update | notify | unlock => cases h

lemma holds_of_inside {p q : Place α} (h : p.inside = some q) : q.holds = true := by
  obtain ⟨-, rfl⟩ | ⟨a, -, rfl⟩ := inside_cases h <;> rfl

/-- The threads beside the one that moves stay, or wake. -/
lemma Move.others (h : Move m s t s') (hu : u ≠ t) :
    s'.place u = s.place u ∨ s'.place u = (s.place u).awake := by
  cases h
  case ring => exact .inr (moveTo_place_of_ne hu)
  all_goals exact .inl (moveTo_place_of_ne hu)

/-! ### The invariant -/

/-- What is done to the data, one change after the other. -/
def Spec.run (m : Spec σ α) (d : σ) (as : List α) : σ := as.foldl (fun d a => m.update a d) d

/-- The lock is held by its owner alone; who has stopped waiting found the data ready and has
not left yet; and of those that still wait while the data are ready, someone is about to wake
all. -/
structure Inv (m : Spec σ α) (d : σ) (s : Sys T σ α) : Prop where
  owner : ∀ t, (s.place t).holds = true ↔ s.owner = some t
  passed : ∀ t, s.place t = .unlock .wait → m.ready s.data = true
  heard : m.ready s.data = true → ∀ t, s.place t = .parked →
    ∃ u a, s.place u = .notify a ∧ m.notifies a s.data = true
  data : s.data = m.run d s.updates

omit [DecidableEq T] in
lemma start_inv (d : σ) : Inv m d (start d : Sys T σ α) :=
  ⟨fun t => by simp [start, Place.holds], fun t h => by simp [start] at h,
    fun _ t h => by simp [start] at h, rfl⟩

variable {d : σ}

omit [DecidableEq T] in
/-- **Mutual exclusion**. -/
lemma Inv.eq_of_holds (h : Inv m d s) (ht : (s.place t).holds = true)
    (hu : (s.place u).holds = true) : u = t :=
  Option.some.inj (((h.owner u).mp hu).symm.trans ((h.owner t).mp ht))

/-- Who holds the lock after a step. -/
lemma Move.owner (h : Inv m d s) (hm : Move m s t s') (u : T) :
    (s'.place u).holds = true ↔ s'.owner = some u := by
  have hothers : u ≠ t → (s'.place u).holds = (s.place u).holds := fun hu => by
    rcases hm.others hu with he | he <;> rw [he]
    exact holds_awake _
  by_cases hu : u = t
  · subst hu
    have hown := h.owner u
    cases hm with
    | call c hp => rw [hp] at hown; simpa [Place.holds] using hown
    | take p hp ho => simp [holds_of_inside hp]
    | pass hp => rw [hp] at hown; simpa [Place.holds] using hown
    | park hp => simp [Place.holds]
    | update a hp => rw [hp] at hown; simpa [Place.holds] using hown
    | ring a hp => rw [hp] at hown; simpa [Place.holds, Sys.wakeAll] using hown
    | quiet a hp => rw [hp] at hown; simpa [Place.holds] using hown
    | leave c hp => simp [Place.holds]
    | wake hp => rw [hp] at hown; simpa [Place.holds] using hown
  · rw [hothers hu, h.owner u]
    cases hm with
    | take p hp ho => simp [ho, Ne.symm hu]
    | park hp =>
      have ho := (h.owner t).mp (by rw [hp]; rfl)
      simp [ho, Ne.symm hu]
    | leave c hp =>
      have ho := (h.owner t).mp (by rw [hp]; rfl)
      simp [ho, Ne.symm hu]
    | call | pass | update | ring | quiet | wake => rfl

/-- The data change under the lock only. -/
lemma Move.data (hm : Move m s t s') :
    s'.data = s.data ∨ ∃ a, s.place t = .update a ∧ s'.data = m.update a s.data ∧
      s'.place t = .notify a := by
  cases hm
  case update a hp => exact .inr ⟨a, hp, rfl, by simp⟩
  all_goals exact .inl rfl

lemma Move.passed (h : Inv m d s) (hm : Move m s t s') (hu : s'.place u = .unlock .wait) :
    m.ready s'.data = true := by
  by_cases hut : u = t
  · subst hut
    cases hm
    case pass hp hr => exact hr
    case take p hp ho =>
      rw [moveTo_place] at hu
      obtain ⟨-, rfl⟩ | ⟨a, -, rfl⟩ := inside_cases hp <;> cases hu
    all_goals simp at hu
  · have hbefore : s.place u = .unlock .wait := by
      rcases hm.others hut with he | he
      · rwa [he] at hu
      · rwa [he, awake_eq_iff (by simp) (by simp)] at hu
    rcases hm.data with he | ⟨a, hp, -, -⟩
    · rw [he]; exact h.passed u hbefore
    · exact absurd (h.eq_of_holds (t := t) (by rw [hp]; rfl) (by rw [hbefore]; rfl)) hut

/-- Who still waits after a step waited before, and was not woken. -/
lemma Move.parked (hm : Move m s t s') (hr : m.ready s.data = true) (hu : s'.place u = .parked) :
    s.place u = .parked ∧ ∀ a, s.place t = .notify a → m.notifies a s.data = false := by
  by_cases hut : u = t
  · subst hut
    cases hm
    case park hp hr' => rw [hr] at hr'; cases hr'
    case take p hp ho =>
      rw [moveTo_place] at hu
      obtain ⟨-, rfl⟩ | ⟨a, -, rfl⟩ := inside_cases hp <;> cases hu
    all_goals simp at hu
  · constructor
    · rcases hm.others hut with he | he
      · rwa [he] at hu
      · rw [he] at hu; exact absurd hu (awake_ne_parked _)
    · intro a ha
      cases hm with
      | ring b hp hn =>
        rw [moveTo_place_of_ne hut] at hu
        exact absurd hu (awake_ne_parked _)
      | quiet b hp hn =>
        obtain rfl := Place.notify.inj (hp.symm.trans ha)
        exact hn
      | call | take | pass | park | update | leave | wake => simp_all [Place.inside]

lemma Move.heard (h : Inv m d s) (hm : Move m s t s') (hr : m.ready s'.data = true)
    (hu : s'.place u = .parked) : ∃ v a, s'.place v = .notify a ∧ m.notifies a s'.data = true := by
  rcases hm.data with he | ⟨a, hp, he, hn⟩
  · rw [he] at hr ⊢
    obtain ⟨hparked, hquiet⟩ := hm.parked hr hu
    obtain ⟨v, a, hv, hva⟩ := h.heard hr u hparked
    refine ⟨v, a, ?_, hva⟩
    -- the one who is about to wake all has not moved
    have hvt : v ≠ t := by
      rintro rfl
      rw [hquiet a hv] at hva
      cases hva
    rcases hm.others hvt with hv' | hv' <;> rw [hv', hv]
    rfl
  · refine ⟨t, a, hn, ?_⟩
    rw [he] at hr ⊢
    cases hr0 : m.ready s.data with
    | false => exact m.rings a s.data hr0 hr
    | true =>
      have hut : u ≠ t := by rintro rfl; simp [hn] at hu
      have hparked : s.place u = .parked := by
        rcases hm.others hut with he | he
        · rwa [he] at hu
        · rw [he] at hu; exact absurd hu (awake_ne_parked _)
      -- two threads would hold the lock
      obtain ⟨v, b, hv, -⟩ := h.heard hr0 u hparked
      obtain rfl := h.eq_of_holds (t := v) (u := t) (by rw [hv]; rfl) (by rw [hp]; rfl)
      rw [hp] at hv
      cases hv

lemma Move.inv (h : Inv m d s) (hm : Move m s t s') : Inv m d s' := by
  refine ⟨hm.owner h, fun u hu => hm.passed h hu, fun hr u hu => hm.heard h hr hu, ?_⟩
  cases hm
  case update a hp => simp [Spec.run, h.data]
  all_goals exact h.data

lemma step_inv (s : Sys T σ α) (a : Action T α) (s' : Sys T σ α) (h : Inv m d s)
    (hs : step m s a = .ok s') : Inv m d s' :=
  (step_cases hs).inv h

/-- **The invariant holds in every run.** -/
theorem exec_inv {as : List (Action T α)} (h : exec (step m) (start d) as = .ok s) : Inv m d s :=
  Runs.exec_inv step_inv (start_inv d) h

/-! ### One call -/

/-- The call that a thread is in. -/
def Place.call : Place α → Option (Call α)
  | .outside => none
  | .lock c | .unlock c => some c
  | .test | .parked | .woken => some .wait
  | .update a | .notify a => some (.update a)

@[simp] lemma call_awake (p : Place α) : p.awake.call = p.call := by cases p <;> rfl

/-- A step of a thread that changes the data: it takes the lock, makes the change, wakes who waits,
and leaves. The calls of the others go on. -/
lemma update_go {a : α} (hc : (s.place t).call = some (.update a))
    (h : step m s (.go t) = .ok s') : (∀ u, u ≠ t → (s'.place u).call = (s.place u).call) ∧
      (s.place t = .lock (.update a) ∧ s'.place t = .update a ∧ s'.updates = s.updates ∨
        s.place t = .update a ∧ s'.place t = .notify a ∧ s'.updates = s.updates ++ [a] ∨
        s.place t = .notify a ∧ s'.place t = .unlock (.update a) ∧ s'.updates = s.updates ∨
        s.place t = .unlock (.update a) ∧ s'.place t = .outside ∧ s'.updates = s.updates) := by
  have hmove : Move m s t s' := step_cases h
  constructor
  · intro u hu
    rcases hmove.others hu with he | he <;> rw [he]
    exact call_awake _
  · cases hmove with
    | call c hp => rw [hp] at hc; cases hc
    | take p hin ho =>
      obtain ⟨hp | hp, -⟩ | ⟨b, hp, rfl⟩ := inside_cases hin <;> rw [hp] at hc
      · cases hc
      · cases hc
      · obtain rfl := Call.update.inj (Option.some.inj hc)
        exact .inl ⟨hp, by simp, rfl⟩
    | pass hp | park hp | wake hp => rw [hp] at hc; cases hc
    | update b hp =>
      rw [hp] at hc
      obtain rfl := Call.update.inj (Option.some.inj hc)
      exact .inr (.inl ⟨hp, by simp, rfl⟩)
    | ring b hp hn | quiet b hp hn =>
      rw [hp] at hc
      obtain rfl := Call.update.inj (Option.some.inj hc)
      exact .inr (.inr (.inl ⟨hp, by simp, rfl⟩))
    | leave c hp =>
      rw [hp] at hc
      obtain rfl := Option.some.inj hc
      exact .inr (.inr (.inr ⟨hp, by simp, rfl⟩))

/-- A step of a thread that waits: the data and the other threads stay as they are. -/
lemma wait_go (hc : (s.place t).call = some .wait) (h : step m s (.go t) = .ok s') :
    s'.updates = s.updates ∧ s'.data = s.data ∧ (∀ u, u ≠ t → s'.place u = s.place u) ∧
      ((s'.place t).call = some .wait ∧ s.place t ≠ .unlock .wait ∨
        s.place t = .unlock .wait ∧ s'.place t = .outside) := by
  have hmove : Move m s t s' := step_cases h
  cases hmove with
  | call c hp => rw [hp] at hc; cases hc
  | take p hin ho =>
    refine ⟨rfl, rfl, fun u hu => moveTo_place_of_ne hu, .inl ?_⟩
    obtain ⟨hp | hp, rfl⟩ | ⟨b, hp, rfl⟩ := inside_cases hin <;> rw [hp] at hc ⊢
    · simp [Place.call]
    · simp [Place.call]
    · cases hc
  | pass hp | park hp | wake hp =>
    exact ⟨rfl, rfl, fun u hu => moveTo_place_of_ne hu, .inl (by rw [hp]; simp [Place.call])⟩
  | update b hp | ring b hp hn | quiet b hp hn => rw [hp] at hc; cases hc
  | leave c hp =>
    rw [hp] at hc
    obtain rfl := Option.some.inj hc
    exact ⟨rfl, rfl, fun u hu => moveTo_place_of_ne hu, .inr ⟨hp, by simp⟩⟩

/-! ### Calls that end -/

/-- Steps a thread has left in its call; while the data are not ready, until it waits. -/
def Place.left (ready : Bool) : Place α → ℕ
  | .outside => 0
  | .unlock _ => 1
  | .notify _ => 2
  | .update _ => 3
  | .parked | .lock (.update _) => 4
  | .test => if ready then 2 else 5
  | .woken | .lock .wait => if ready then 3 else 6

def Sys.left [Fintype T] (m : Spec σ α) (s : Sys T σ α) : ℕ :=
  ∑ t, (s.place t).left (m.ready s.data)

omit [DecidableEq T] in
lemma Sys.left_le [Fintype T] (hr : m.ready s.data = true) : s.left m ≤ 4 * Fintype.card T := by
  have h : ∀ p : Place α, p.left true ≤ 4 := fun p => by
    cases p with
    | lock c => cases c <;> simp [Place.left]
    | outside | test | parked | woken | update | notify | unlock => simp [Place.left]
  rw [Sys.left, hr]
  refine (Finset.sum_le_sum fun t _ => h (s.place t)).trans ?_
  rw [Finset.sum_const, Finset.card_univ, smul_eq_mul, mul_comm]

/-- Data that are ready stay so. -/
def Spec.Stable (m : Spec σ α) : Prop :=
  ∀ a d, m.ready d = true → m.ready (m.update a d) = true

/-- Who waits is woken for a reason. -/
def Spec.Prompt (m : Spec σ α) : Prop :=
  ∀ a d, m.notifies a d = true → m.ready d = true

def Action.isCall : Action T α → Bool
  | .call _ _ => true
  | _ => false

def Action.isWake : Action T α → Bool
  | .wake _ => true
  | _ => false

/-- When the data have become ready, fewer steps are left. -/
lemma left_ready_le (p : Place α) {r r' : Bool} (h : r = true → r' = true) :
    p.left r' ≤ p.left r := by
  cases r <;> cases r' <;> simp at h
  · exact le_rfl
  · cases p with
    | lock c => cases c <;> simp [Place.left]
    | outside | test | parked | woken | update | notify | unlock => simp [Place.left]
  · exact le_rfl

lemma left_awake_le (p : Place α) : p.awake.left true ≤ p.left true := by
  cases p <;> simp [Place.awake, Place.left]

lemma left_of_inside {p q : Place α} (h : p.inside = some q) (r : Bool) :
    q.left r < p.left r := by
  obtain ⟨rfl | rfl, rfl⟩ | ⟨a, rfl, rfl⟩ := inside_cases h <;> cases r <;> simp [Place.left]

lemma step_ready (hm : m.Stable) {a : Action T α} (hr : m.ready s.data = true)
    (hs : step m s a = .ok s') : m.ready s'.data = true := by
  rcases (step_cases hs).data with he | ⟨b, -, he, -⟩ <;> rw [he]
  exacts [hr, hm b _ hr]

/-- A step that is no call leaves fewer steps; a thread that wakes without a reason has to wait
again. -/
lemma step_left [Fintype T] (hp : m.Prompt) {a : Action T α} (ha : a.isCall = false)
    (hr : m.ready s.data = true → m.ready s'.data = true) (hs : step m s a = .ok s') :
    s'.left m + 1 ≤ s.left m + if a.isWake = true ∧ m.ready s.data = false then 3 else 0 := by
  have hmove := step_cases hs
  have hothers : ∀ u, u ≠ a.thread →
      (s'.place u).left (m.ready s'.data) ≤ (s.place u).left (m.ready s.data) := fun u hu => by
    refine (left_ready_le _ hr).trans ?_
    cases hmove with
    | ring b hpl hn =>
      rw [moveTo_place_of_ne hu, hp b _ hn]
      exact left_awake_le _
    | call | take | pass | park | update | quiet | leave | wake =>
      rw [moveTo_place_of_ne hu]
  have hself : (s'.place a.thread).left (m.ready s'.data) + 1 ≤ (s.place a.thread).left
      (m.ready s.data) + if a.isWake = true ∧ m.ready s.data = false then 3 else 0 := by
    refine (Nat.succ_le_succ (left_ready_le _ hr)).trans ?_
    cases hmove with
    | call c hpl => cases a <;> simp_all [Action.isCall, step, Sys.go, Action.thread]
    | take p hpl ho =>
      rw [moveTo_place]
      exact (left_of_inside hpl _).trans_le (Nat.le_add_right _ _)
    | wake hpl =>
      rw [moveTo_place, hpl]
      cases hready : m.ready s.data with
      | true => simp [Place.left]
      | false =>
        have hwake : a.isWake = true := by
          cases a <;> simp_all [Action.isWake, Action.isCall, step, Sys.go, Action.thread]
        simp [Place.left, hwake]
    | pass hpl hready | park hpl hready =>
      rw [moveTo_place, hpl, hready]
      simp [Place.left]
    | update b hpl | ring b hpl | quiet b hpl | leave c hpl =>
      rw [moveTo_place, hpl]
      simp [Place.left]
  have hrest := Finset.sum_le_sum fun u (hu : u ∈ Finset.univ.erase a.thread) =>
    hothers u (Finset.ne_of_mem_erase hu)
  have hsum := Finset.add_sum_erase Finset.univ
    (fun u => (s.place u).left (m.ready s.data)) (Finset.mem_univ a.thread)
  have hsum' := Finset.add_sum_erase Finset.univ
    (fun u => (s'.place u).left (m.ready s'.data)) (Finset.mem_univ a.thread)
  rw [Sys.left, Sys.left, ← hsum, ← hsum']
  omega

/-- What a call adds. -/
lemma call_left [Fintype T] {c : Call α} (hs : step m s (.call t c) = .ok s') :
    s'.left m ≤ s.left m + (Place.lock c).left (m.ready s.data) := by
  simp only [step] at hs
  split at hs
  · obtain rfl := Except.ok.inj hs
    have hsum := Finset.add_sum_erase Finset.univ
      (fun u => (s.place u).left (m.ready s.data)) (Finset.mem_univ t)
    have hsum' := Finset.add_sum_erase Finset.univ
      (fun u => ((s.moveTo t (.lock c)).place u).left (m.ready s.data)) (Finset.mem_univ t)
    have hrest : ∑ u ∈ Finset.univ.erase t, ((s.moveTo t (.lock c)).place u).left
        (m.ready s.data) = ∑ u ∈ Finset.univ.erase t, (s.place u).left (m.ready s.data) :=
      Finset.sum_congr rfl fun u hu => by rw [moveTo_place_of_ne (Finset.ne_of_mem_erase hu)]
    rw [Sys.left, Sys.left, moveTo_data, ← hsum, ← hsum', hrest, moveTo_place]
    omega
  · cases hs

/-- Once the data are ready, the calls that have begun take a bounded number of steps. -/
theorem exec_left [Fintype T] (hm : m.Stable) (hp : m.Prompt) {as : List (Action T α)}
    (has : ∀ a ∈ as, a.isCall = false) (hr : m.ready s.data = true)
    (h : exec (step m) s as = .ok s') : as.length + s'.left m ≤ s.left m := by
  induction as generalizing s with
  | nil => obtain rfl := Except.ok.inj h; simp
  | cons a as ih =>
    obtain ⟨u, hu, h⟩ := (exec_cons_iff _).mp h
    have hru := step_ready hm hr hu
    have hlt := step_left hp (has a (List.mem_cons_self ..)) (fun _ => hru) hu
    rw [if_neg (by simp [hr])] at hlt
    have := ih (fun b hb => has b (List.mem_cons_of_mem _ hb)) hru h
    rw [List.length_cons]
    omega

/-- **Nobody is stuck but those that wait**: while a thread is in a call and does not wait, some
thread can go on. -/
theorem exists_go_of_moving (h : Inv m d s) (ht : s.place t ≠ .outside)
    (hp : s.place t ≠ .parked) : ∃ u s', step m s (.go u) = .ok s' := by
  cases ho : s.owner with
  | some u =>
    have hu := (h.owner u).mpr ho
    refine ⟨u, ?_⟩
    cases hpl : s.place u <;> rw [hpl] at hu <;> simp [Place.holds] at hu <;>
      simp only [step, Sys.go, hpl]
    · split_ifs <;> exact ⟨_, rfl⟩
    all_goals exact ⟨_, rfl⟩
  | none =>
    refine ⟨t, ?_⟩
    have hfree : (s.place t).holds = false := by
      by_contra hc
      have := (h.owner t).mp (by simpa using hc)
      rw [ho] at this
      cases this
    cases hpl : s.place t with
    | outside => exact absurd hpl ht
    | parked => exact absurd hpl hp
    | lock c => cases c <;> simp [step, Sys.go, hpl, Sys.take, ho]
    | woken => simp [step, Sys.go, hpl, Sys.take, ho]
    | test | update | notify | unlock => rw [hpl] at hfree; cases hfree

/-- **No call is left behind**: while the data are ready and a thread is in a call, some thread
can go on. -/
theorem exists_go (h : Inv m d s) (hr : m.ready s.data = true) (ht : s.place t ≠ .outside) :
    ∃ u s', step m s (.go u) = .ok s' := by
  by_cases hp : s.place t = .parked
  · obtain ⟨u, a, hu, -⟩ := h.heard hr t hp
    exact exists_go_of_moving h (t := u) (by rw [hu]; simp) (by rw [hu]; simp)
  · exact exists_go_of_moving h ht hp

/-- From a state with ready data, all calls end, however the threads go on: within a bounded
number of steps, and nobody is stuck before. -/
theorem calls_end [Fintype T] (hm : m.Stable) (hp : m.Prompt) (h : Inv m d s)
    (hr : m.ready s.data = true) {as : List (Action T α)} (has : ∀ a ∈ as, a.isCall = false)
    (hs : exec (step m) s as = .ok s') : as.length ≤ s.left m ∧
      ((∀ u, ∃ e, step m s' (.go u) = .error e) → ∀ t, s'.place t = .outside) := by
  have hle := exec_left hm hp has hr hs
  refine ⟨by omega, fun hstuck t => ?_⟩
  by_contra ht
  have hinv := Runs.exec_inv step_inv h hs
  have hr' := Runs.exec_inv (I := fun s => m.ready s.data = true)
    (fun s a t hr ht => step_ready hm hr ht) hr hs
  obtain ⟨u, v, hv⟩ := exists_go hinv hr' ht
  obtain ⟨e, he⟩ := hstuck u
  rw [hv] at he
  cases he

end Monitor
