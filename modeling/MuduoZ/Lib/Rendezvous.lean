import MuduoZ.Lib.Monitor

/-!
A monitor between two threads: one waits once, the other changes the data, one change after the
other.
-/

namespace Monitor

open Runs

inductive Party
  | waiter
  | changer
  deriving DecidableEq

instance : Fintype Party := ⟨{.waiter, .changer}, fun p => by cases p <;> simp⟩

/-- Where the waiter is with its one call. -/
inductive Phase
  | before
  | during
  | past
  deriving DecidableEq

variable {σ α : Type*} {m : Spec σ α} {d : σ} {s s' : Sys Party σ α} {w : Phase} {u : Option α}
  {a : α} {done : List α}

/-- A thread in a call that changes the data has made the change. -/
def Place.changed : Place α → Bool
  | .lock _ | .update _ => false
  | _ => true

/-- The change under way, if it is made. -/
def made (u : Option α) (p : Place α) : List α := if p.changed then u.toList else []

@[simp] lemma made_none {p : Place α} : made none p = [] := ite_self _

/-- The waiter has found the data ready. -/
def Passed (w : Phase) (p : Place α) : Prop :=
  w = .past ∨ w = .during ∧ (p = .outside ∨ p = .unlock .wait)

/-- The waiter is in its one call, the changer makes the changes `done` and then `u`; and when the
waiter has passed, the changes made by then made the data ready. -/
structure Rendezvous (m : Spec σ α) (d : σ) (w : Phase) (u : Option α) (done : List α)
    (s : Sys Party σ α) : Prop where
  inv : Inv m d s
  waits : ∀ c, (s.place .waiter).call = some c → c = .wait ∧ w = .during
  changes : ∀ c, (s.place .changer).call = some c → ∃ a, c = .update a ∧ u = some a
  updates : s.updates = done ++ made u (s.place .changer)
  passed : Passed w (s.place .waiter) → ∃ as, as <+: s.updates ∧ m.ready (m.run d as) = true

lemma call_eq_none {p : Place α} : p.call = none ↔ p = .outside := by
  cases p <;> simp [Place.call]

lemma rendezvous_start : Rendezvous m d .before none [] (start d) :=
  ⟨start_inv d, fun c h => (by cases h), fun c h => (by cases h), rfl, fun h => by
    rcases h with h | ⟨h, -⟩ <;> cases h⟩

namespace Rendezvous

/-- The waiter is outside, but for its call. -/
lemma outside (h : Rendezvous m d w u done s) (hw : w ≠ .during) :
    s.place .waiter = .outside := by
  by_contra hne
  obtain ⟨c, hc⟩ := Option.ne_none_iff_exists'.mp (mt call_eq_none.mp hne)
  exact hw (h.waits c hc).2

/-- The changer is outside, but for a change. -/
lemma changer_outside (h : Rendezvous m d w none done s) : s.place .changer = .outside := by
  by_contra hne
  obtain ⟨c, hc⟩ := Option.ne_none_iff_exists'.mp (mt call_eq_none.mp hne)
  obtain ⟨a, -, ha⟩ := h.changes c hc
  cases ha

/-! ### The waiter -/

lemma wait (h : Rendezvous m d .before u done s) :
    ∃ s', step m s (.call .waiter .wait) = .ok s' ∧ Rendezvous m d .during u done s' ∧
      s'.place .waiter = .lock .wait ∧ s'.place .changer = s.place .changer ∧
      s'.data = s.data := by
  have hout := h.outside (by decide)
  have hstep : step m s (.call .waiter .wait) = .ok (s.moveTo .waiter (.lock .wait)) := by
    simp [step, hout]
  have hother : (s.moveTo .waiter (.lock .wait)).place .changer = s.place .changer :=
    moveTo_place_of_ne (by decide)
  refine ⟨_, hstep, ⟨step_inv _ _ _ h.inv hstep, fun c hc => ?_, fun c hc => ?_, ?_, fun hp => ?_⟩,
    moveTo_place .., hother, rfl⟩
  · rw [moveTo_place] at hc
    exact ⟨(Option.some.inj hc).symm, rfl⟩
  · rw [hother] at hc
    exact h.changes c hc
  · rw [hother]
    exact h.updates
  · rw [moveTo_place] at hp
    rcases hp with hp | ⟨-, hp | hp⟩ <;> cases hp

/-- A step of the waiter changes nothing but where it is. When it leaves, the data are ready. -/
lemma waiter_go (h : Rendezvous m d .during u done s) (hs : step m s (.go .waiter) = .ok s') :
    Rendezvous m d .during u done s' ∧ s'.data = s.data ∧
      s'.place .changer = s.place .changer ∧
      (s'.place .waiter ≠ .outside ∧ s.place .waiter ≠ .unlock .wait ∨
        s.place .waiter = .unlock .wait ∧ s'.place .waiter = .outside ∧
          m.ready s.data = true) := by
  have hne : s.place .waiter ≠ .outside := fun hout => by
    simp [step, Sys.go, hout] at hs
  obtain ⟨c, hc⟩ := Option.ne_none_iff_exists'.mp (mt call_eq_none.mp hne)
  obtain ⟨rfl, -⟩ := h.waits c hc
  obtain ⟨hup, hdata, hothers, hplace⟩ := wait_go hc hs
  have hinv := step_inv _ _ _ h.inv hs
  have hchanger := hothers .changer (by decide)
  refine ⟨⟨hinv, fun c' hc' => ?_, fun c' hc' => ?_, ?_, fun hp => ?_⟩, hdata, hchanger, ?_⟩
  · rcases hplace with ⟨hcall, -⟩ | ⟨-, hout⟩
    · exact ⟨Option.some.inj (hc'.symm.trans hcall), rfl⟩
    · rw [hout] at hc'; cases hc'
  · rw [hchanger] at hc'
    exact h.changes c' hc'
  · rw [hup, hchanger]
    exact h.updates
  · rcases hplace with ⟨hcall, -⟩ | ⟨hunlock, -⟩
    · -- the waiter has just found the data ready, or is not there yet
      obtain ⟨hw, -⟩ | ⟨-, hout | hunlock⟩ := hp
      · rw [hout] at hcall; cases hcall
      · refine ⟨s'.updates, List.prefix_refl _, ?_⟩
        rw [← hinv.data]
        exact hinv.passed _ hunlock
    · rw [hup]
      exact h.passed (.inr ⟨rfl, .inr hunlock⟩)
  · rcases hplace with ⟨hcall, hnot⟩ | ⟨hunlock, hout⟩
    · refine .inl ⟨fun hout => ?_, hnot⟩
      rw [hout] at hcall; cases hcall
    · exact .inr ⟨hunlock, hout, h.inv.passed _ hunlock⟩

/-- The call has returned. -/
lemma returned (h : Rendezvous m d .during u done s) (hout : s.place .waiter = .outside) :
    Rendezvous m d .past u done s :=
  ⟨h.inv, fun c hc => (by rw [hout] at hc; cases hc), h.changes, h.updates,
    fun _ => h.passed (.inr ⟨rfl, .inl hout⟩)⟩

/-- The waiter wakes for no reason. -/
lemma wake (h : Rendezvous m d w u done s) (hs : step m s (.wake .waiter) = .ok s') :
    Rendezvous m d w u done s' ∧ s'.data = s.data ∧ s'.place .changer = s.place .changer ∧
      s'.place .waiter = .woken := by
  have hinv := step_inv _ _ _ h.inv hs
  simp only [step] at hs
  split at hs
  · rename_i hp
    obtain rfl := Except.ok.inj hs
    have hw := h.waits .wait (by rw [hp]; rfl)
    have hother : (s.moveTo .waiter .woken).place .changer = s.place .changer :=
      moveTo_place_of_ne (by decide)
    refine ⟨⟨hinv, fun c hc => ?_, fun c hc => ?_, ?_, fun hpass => ?_⟩, rfl, hother, by simp⟩
    · rw [moveTo_place] at hc
      exact ⟨(Option.some.inj hc).symm, hw.2⟩
    · rw [hother] at hc
      exact h.changes c hc
    · rw [hother]
      exact h.updates
    · rw [moveTo_place, hw.2] at hpass
      rcases hpass with hpass | ⟨-, hpass | hpass⟩ <;> cases hpass
  · cases hs

/-! ### The changer -/

lemma change (h : Rendezvous m d w none done s) (a : α) :
    ∃ s', step m s (.call .changer (.update a)) = .ok s' ∧
      Rendezvous m d w (some a) done s' ∧ s'.place .changer = .lock (.update a) ∧
      s'.place .waiter = s.place .waiter ∧ s'.data = s.data := by
  have hout := h.changer_outside
  have hstep : step m s (.call .changer (.update a)) =
      .ok (s.moveTo .changer (.lock (.update a))) := by
    simp [step, hout]
  have hother : (s.moveTo .changer (.lock (.update a))).place .waiter = s.place .waiter :=
    moveTo_place_of_ne (by decide)
  refine ⟨_, hstep, ⟨step_inv _ _ _ h.inv hstep, fun c hc => ?_, fun c hc => ?_, ?_, fun hp => ?_⟩,
    moveTo_place .., hother, rfl⟩
  · rw [hother] at hc
    exact h.waits c hc
  · rw [moveTo_place] at hc
    exact ⟨a, (Option.some.inj hc).symm, rfl⟩
  · rw [moveTo_place]
    exact h.updates.trans (by simp [made, Place.changed, hout])
  · rw [hother] at hp
    exact h.passed hp

/-- A step of the changer. The waiter stays where it is, or is woken. -/
lemma changer_go (h : Rendezvous m d w (some a) done s)
    (hs : step m s (.go .changer) = .ok s') : Rendezvous m d w (some a) done s' ∧
      (∀ p, p ≠ .woken → p ≠ .parked → (s'.place .waiter = p ↔ s.place .waiter = p)) ∧
      ((s.place .changer).changed = true → (s'.place .changer).changed = true) := by
  have hne : s.place .changer ≠ .outside := fun hout => by
    simp [step, Sys.go, hout] at hs
  obtain ⟨c, hc⟩ := Option.ne_none_iff_exists'.mp (mt call_eq_none.mp hne)
  obtain ⟨b, rfl, hb⟩ := h.changes c hc
  obtain rfl := Option.some.inj hb
  obtain ⟨hothers, hplace⟩ := update_go hc hs
  have hwaiter : ∀ p, p ≠ .woken → p ≠ .parked →
      (s'.place .waiter = p ↔ s.place .waiter = p) := fun p h1 h2 => by
    rcases (step_cases hs).others (u := .waiter) (by simp [Action.thread]) with he | he <;> rw [he]
    exact awake_eq_iff h1 h2
  have hup := h.updates
  have hpre : s.updates <+: s'.updates := by
    rcases hplace with ⟨-, -, he⟩ | ⟨-, -, he⟩ | ⟨-, -, he⟩ | ⟨-, -, he⟩ <;> rw [he]
    exact List.prefix_append _ _
  refine ⟨⟨step_inv _ _ _ h.inv hs, fun c' hc' => ?_, fun c' hc' => ?_, ?_, fun hp => ?_⟩,
    hwaiter, fun hch => ?_⟩
  · rw [hothers .waiter (by decide)] at hc'
    exact h.waits c' hc'
  · rcases hplace with ⟨-, hp, -⟩ | ⟨-, hp, -⟩ | ⟨-, hp, -⟩ | ⟨-, hp, -⟩ <;> rw [hp] at hc'
    · exact ⟨a, (Option.some.inj hc').symm, rfl⟩
    · exact ⟨a, (Option.some.inj hc').symm, rfl⟩
    · exact ⟨a, (Option.some.inj hc').symm, rfl⟩
    · cases hc'
  · rcases hplace with ⟨hp, hp', he⟩ | ⟨hp, hp', he⟩ | ⟨hp, hp', he⟩ | ⟨hp, hp', he⟩ <;>
      rw [hp] at hup <;> rw [he, hp', hup] <;> simp [made, Place.changed]
  · have hout := hwaiter .outside (by simp) (by simp)
    have hunlock := hwaiter (.unlock .wait) (by simp) (by simp)
    rw [Passed, hout, hunlock] at hp
    obtain ⟨as, has, hready⟩ := h.passed hp
    exact ⟨as, has.trans hpre, hready⟩
  · rcases hplace with ⟨hp, -⟩ | ⟨hp, -⟩ | ⟨-, hp, -⟩ | ⟨-, hp, -⟩
    · rw [hp] at hch; cases hch
    · rw [hp] at hch; cases hch
    · rw [hp]; rfl
    · rw [hp]; rfl

/-- The change is over. -/
lemma changed (h : Rendezvous m d w (some a) done s) (hout : s.place .changer = .outside) :
    Rendezvous m d w none (done ++ [a]) s :=
  ⟨h.inv, h.waits, fun c hc => (by rw [hout] at hc; cases hc),
    by rw [h.updates, hout]; simp [made, Place.changed], h.passed⟩

/-! ### Nobody is stuck -/

/-- A thread in a call can go on, or the other one can, unless the waiter waits for a change that
has not begun. -/
lemma go_or_parked (h : Rendezvous m d w u done s)
    (hin : s.place .waiter ≠ .outside ∨ s.place .changer ≠ .outside) :
    (∃ p s', step m s (.go p) = .ok s') ∨ s.place .waiter = .parked ∧
      s.place .changer = .outside ∧ m.ready s.data = false := by
  by_cases hc : s.place .changer = .outside
  · have hw := hin.resolve_right (not_not.mpr hc)
    cases hr : m.ready s.data with
    | true => exact .inl (exists_go h.inv hr hw)
    | false =>
      by_cases hp : s.place .waiter = .parked
      · exact .inr ⟨hp, hc, rfl⟩
      · exact .inl (exists_go_of_moving h.inv hw hp)
  · refine .inl (exists_go_of_moving h.inv hc fun hp => ?_)
    obtain ⟨a, ha, -⟩ := h.changes .wait (by rw [hp]; rfl)
    cases ha

end Rendezvous

end Monitor
