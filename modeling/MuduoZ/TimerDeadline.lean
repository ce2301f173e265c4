import MuduoZ.TimerOnTime

/-!
How many ticks a timer is given for the time at which it is to expire.

`timeDiffInMillSeconds` takes the difference of two times without its sign, and what it returns
has none: the test for a count that is not positive finds only a count of zero.
-/

namespace MuduoZ.TimerDeadline

open Runs Slots TimerOnTime TimerRun TimerWheels

/-- A timer of `ticks` ticks is put in a slot, or none is made because that is too many. -/
def Schedules (w : TimerWheels) (r : Result (Option TimerPtr × TimerWheels)) (ticks : ℕ) : Prop :=
  if TimerMax < ticks then r = .ok (none, w)
  else ∃ timer w', r = .ok (some timer, w') ∧ (w'.timers timer).tickNum_ = ticks ∧
    w'.slots = put w.slots (w'.told timer) timer

/-- The ticks from `now` to `expirationTime`: one at least, and one if it has passed. -/
def ticksTo (now expirationTime : ℤ) : ℕ :=
  if expirationTime ≤ now then 1 else max 1 ((expirationTime - now) / 1000).toNat

/-- The timer of `r₁` has no more ticks than that of `r₂`, if both are made. -/
def NoMore (r₁ r₂ : Result (Option TimerPtr × TimerWheels)) : Prop :=
  ∀ x₁ w₁ x₂ w₂, r₁ = .ok (some x₁, w₁) → r₂ = .ok (some x₂, w₂) →
    (w₁.timers x₁).tickNum_ ≤ (w₂.timers x₂).tickNum_

/-- The time has passed by less than two ticks, and the difference is an `int64_t`. -/
def Ahead (now expirationTime : ℤ) : Prop :=
  now - expirationTime < 2000 ∧ expirationTime - now < 2 ^ 63

variable {s : Sys} {as : List Action} {n k k' : ℕ} {w : TimerWheels}
  {r : Result (Option TimerPtr × TimerWheels)} {now expirationTime : ℤ}

/-- The number of ticks is determined, unless there is no timer. -/
lemma Schedules.unique (h : Schedules w r k) (h' : Schedules w r k') :
    k = k' ∨ TimerMax < k ∧ TimerMax < k' := by
  unfold Schedules at h h'
  split at h <;> split at h'
  · exact .inr ⟨‹_›, ‹_›⟩
  · obtain ⟨x, w', hr, -⟩ := h'
    rw [h] at hr; cases hr
  · obtain ⟨x, w', hr, -⟩ := h
    rw [h'] at hr; cases hr
  · obtain ⟨x, w₁, rfl, ht, -⟩ := h
    obtain ⟨y, w₂, hr, ht', -⟩ := h'
    obtain ⟨rfl, rfl⟩ : x = y ∧ w₁ = w₂ := by simpa using hr
    exact .inl (ht.symm.trans ht')

/-- **What `addTimer` makes of a difference.** -/
lemma addTimer_schedules (hw : Shows n w) {d : ℕ}
    (hd : timeDiffInMillSeconds now expirationTime = .ok d) (interval : ℕ) :
    Schedules w (w.addTimer now expirationTime interval) (max 1 d) := by
  have hone : (if d = 0 then 1 else d) = max 1 d := by split <;> omega
  unfold Schedules
  split
  · rename_i hmax
    have hmax' : d > TimerMax := by unfold TimerMax at *; omega
    rw [addTimer, hd]
    exact if_pos hmax'
  · rename_i hmax
    have hmax' : ¬ d > TimerMax := by omega
    have hpos : 0 < max 1 d := by omega
    rw [addTimer, hd, ok_bind, if_neg hmax']
    simp only [hone]
    generalize max 1 d = t at hmax hpos
    have htop : topLevel t < 5 := topLevel_lt (lt_of_le_max (not_lt.mp hmax))
    obtain ⟨w', hok, -, hT, harm⟩ := arm_spec hw hpos htop
      (T := .new t (slotFor n t) (topLevel t) interval) rfl rfl rfl
      (Nat.le_succ w.made) (Nat.lt_succ_self w.made)
    have hslot : ((w.wheelVec_ (topLevel t)).slotCur_ + t / 60 ^ topLevel t) % SlotNum =
        slotFor n t := congrArg (fun c => (c + t / 60 ^ topLevel t) % 60) (hw.cursor _ htop)
    have hlevel : (Function.update w.timers w.made
        (.new t (slotFor n t) (topLevel t) interval) w.made).level_ = topLevel t := by
      rw [Function.update_self]; rfl
    refine ⟨w.made, w', ?_, harm.tickNum, ?_⟩
    · simp only [setTimer] at hok
      simp only [calculatePosByTicks_eq hpos, ok_bind, hw.getWheel htop, hslot, setTimer, hlevel,
        hok]
    · rw [harm.slots, told, harm.level, harm.slot]

/-- There is no difference: nothing is scheduled. -/
lemma not_schedules {e : Fault} (hd : timeDiffInMillSeconds now expirationTime = .error e)
    (interval : ℕ) :
    ¬ Schedules w (w.addTimer now expirationTime interval) k := by
  have hr : w.addTimer now expirationTime interval = .error e := by rw [addTimer, hd]; rfl
  unfold Schedules
  rw [hr]
  split
  · exact fun h => by cases h
  · rintro ⟨x, w', h, -⟩
    cases h

lemma timeDiff_cases (t1 t2 : ℤ) :
    timeDiffInMillSeconds t1 t2 = .ok (|t1 - t2|.toNat / 1000) ∧ |t1 - t2| < 2 ^ 63 ∨
      timeDiffInMillSeconds t1 t2 = .error .overflow ∧ 2 ^ 63 ≤ |t1 - t2| := by
  rcases lt_or_ge |t1 - t2| (2 ^ 63) with h | h
  · exact .inl ⟨timeDiff_eq h, h⟩
  · refine .inr ⟨?_, h⟩
    rw [timeDiffInMillSeconds, diff_eq_abs, if_neg (not_lt.mpr h)]

/-- What is scheduled for a time. -/
lemma schedules_iff (hw : Shows n w) (interval : ℕ) :
    Schedules w (w.addTimer now expirationTime interval) k ↔
      |now - expirationTime| < 2 ^ 63 ∧ (k = max 1 (|now - expirationTime|.toNat / 1000) ∨
        TimerMax < k ∧ TimerMax < |now - expirationTime|.toNat / 1000) := by
  rcases timeDiff_cases now expirationTime with ⟨hd, hlt⟩ | ⟨hd, hge⟩
  · have h := addTimer_schedules hw hd interval
    generalize |now - expirationTime|.toNat / 1000 = d at h
    refine ⟨fun hk => ⟨hlt, (hk.unique h).imp_right fun hmax => ⟨hmax.1, ?_⟩⟩, ?_⟩
    · have := hmax.2
      unfold TimerMax at *
      omega
    · rintro ⟨-, rfl | ⟨hk, hmax⟩⟩
      · exact h
      · unfold Schedules at h ⊢
        rw [if_pos (lt_max_of_lt_right hmax)] at h
        rw [if_pos hk, h]
  · exact ⟨fun hk => absurd hk (not_schedules hd interval), fun h => absurd h.1 (not_lt.mpr hge)⟩

lemma schedules_ticksTo_iff (hw : Shows n w) (interval : ℕ) :
    Schedules w (w.addTimer now expirationTime interval) (ticksTo now expirationTime) ↔
      Ahead now expirationTime := by
  rw [schedules_iff hw interval, ticksTo, Ahead]
  unfold TimerMax
  split
  · rw [abs_of_nonneg (by omega)]
    omega
  · rw [abs_of_neg (by omega)]
    omega

lemma noMore {e₁ e₂ : ℤ} {r₁ r₂ : Result (Option TimerPtr × TimerWheels)} (he : e₁ ≤ e₂)
    (h₁ : Schedules w r₁ (ticksTo now e₁)) (h₂ : Schedules w r₂ (ticksTo now e₂)) :
    NoMore r₁ r₂ := by
  rintro x₁ w₁ x₂ w₂ rfl rfl
  have hticks : ∀ {x : TimerPtr} {w' : TimerWheels} {k : ℕ},
      Schedules w (.ok (some x, w')) k → (w'.timers x).tickNum_ = k := by
    intro x w' k h
    unfold Schedules at h
    split at h
    · cases h
    · obtain ⟨y, w₂, hr, ht, -⟩ := h
      obtain ⟨rfl, rfl⟩ : x = y ∧ w' = w₂ := by simpa using hr
      exact ht
  rw [hticks h₁, hticks h₂]
  unfold ticksTo
  split <;> split <;> omega

/-- **Deadlines are mapped to ticks as they should be exactly when they have not passed by two ticks
or more**, in every state of every run. -/
theorem ticks_iff (hs : exec step init as = .ok s) (now e₁ e₂ : ℤ) (interval₁ interval₂ : ℕ) :
    (Schedules s.w (s.w.addTimer now e₁ interval₁) (ticksTo now e₁) ∧
      Schedules s.w (s.w.addTimer now e₂ interval₂) (ticksTo now e₂) ∧
      (e₁ ≤ e₂ → NoMore (s.w.addTimer now e₁ interval₁) (s.w.addTimer now e₂ interval₂))) ↔
    Ahead now e₁ ∧ Ahead now e₂ := by
  obtain ⟨due, hinv⟩ := exec_init hs
  have hw := hinv.shows
  constructor
  · rintro ⟨h₁, h₂, -⟩
    exact ⟨(schedules_ticksTo_iff hw interval₁).mp h₁, (schedules_ticksTo_iff hw interval₂).mp h₂⟩
  · rintro ⟨h₁, h₂⟩
    have h₁ := (schedules_ticksTo_iff hw interval₁).mpr h₁
    have h₂ := (schedules_ticksTo_iff hw interval₂).mpr h₂
    exact ⟨h₁, h₂, fun he => noMore he h₁ h₂⟩

/-- Times one and two ticks ahead, on the wheels as they are made. -/
theorem ticks_iff_two :
    (Schedules init.w (init.w.addTimer 0 1000 0) (ticksTo 0 1000) ∧
      Schedules init.w (init.w.addTimer 0 2000 0) (ticksTo 0 2000) ∧
      ((1000 : ℤ) ≤ 2000 → NoMore (init.w.addTimer 0 1000 0) (init.w.addTimer 0 2000 0))) ↔
    Ahead 0 1000 ∧ Ahead 0 2000 :=
  ticks_iff (exec_nil step init) 0 1000 2000 0 0

/-- A time that has passed by two ticks. -/
theorem passed_waits : ¬ ∀ (as : List Action) (s : Sys) (now e : ℤ) (interval : ℕ),
    exec step init as = .ok s →
    Schedules s.w (s.w.addTimer now e interval) (ticksTo now e) := by
  intro h
  have := (schedules_ticksTo_iff shows_new _).mp (h [] init 2000 0 0 rfl)
  exact absurd this.1 (by decide)

end MuduoZ.TimerDeadline
