import MuduoZ.TimerDeadline

/-!
Timers that are to run some milliseconds from now, and the limit on these.

The milliseconds become microseconds modulo `2 ^ 64`, and the limit is put on the difference that
is left. A delay that is just about a multiple of `2 ^ 64` microseconds comes out short.
-/

namespace MuduoZ

open TimerWheels

/-- `TimeStamp::addTime(size_t)`: the sum is unsigned, and cast to `int64_t`. -/
def addTime (microSecondsSinceEpoch_ : ℤ) (milliSecond : ℕ) : ℤ :=
  ((microSecondsSinceEpoch_ + (milliSecond * 1000 % 2 ^ 64 : ℕ)) % 2 ^ 64).bmod (2 ^ 64)

/-- `EventLoopThreadPool::runAfter`, called when it is `now`. -/
def runAfter (w : TimerWheels) (now : ℤ) (milliSecond : ℕ) :
    Result (Option TimerPtr × TimerWheels) :=
  w.addTimer now (addTime now milliSecond) 0

/-- `EventLoopThreadPool::runEvery`. -/
def runEvery (w : TimerWheels) (now : ℤ) (milliSecond : ℕ) :
    Result (Option TimerPtr × TimerWheels) :=
  w.addTimer now (addTime now milliSecond) milliSecond

namespace RelativeTimer

open Runs TimerDeadline TimerOnTime TimerRun

/-- The microseconds that are left of a delay. -/
def micros (milliSecond : ℕ) : ℕ := milliSecond * 1000 % 2 ^ 64

/-- A delay within the limit ends before the clock does. One above it is above it also in the
microseconds that are left of it, or, if these lead past the end of the clock, in those that they
lead back. -/
def Fits (now : ℤ) (milliSecond : ℕ) : Prop :=
  if milliSecond ≤ TimerMax then now + 1000 * milliSecond < 2 ^ 63
  else (now + micros milliSecond < 2 ^ 63 ∧ TimerMax < micros milliSecond / 1000) ∨
    (2 ^ 63 < micros milliSecond ∧ TimerMax < (2 ^ 64 - micros milliSecond) / 1000)

variable {s : Sys} {as : List Action} {n milliSecond interval : ℕ} {w : TimerWheels} {now : ℤ}

/-- A time past the end of the clock comes out before now. -/
lemma addTime_eq (h₀ : 0 ≤ now) (h₁ : now < 2 ^ 63) : addTime now milliSecond =
    if now + micros milliSecond < 2 ^ 63 then now + micros milliSecond
    else now + micros milliSecond - 2 ^ 64 := by
  have hm : milliSecond * 1000 % 2 ^ 64 < 2 ^ 64 := Nat.mod_lt _ (by norm_num)
  unfold addTime micros
  generalize milliSecond * 1000 % 2 ^ 64 = m at hm
  rw [Int.bmod_def]
  norm_num at hm h₁ ⊢
  omega

lemma schedules_iff_fits (hw : Shows n w) (h₀ : 0 ≤ now) (h₁ : now < 2 ^ 63) :
    Schedules w (w.addTimer now (addTime now milliSecond) interval) (max 1 milliSecond) ↔
      Fits now milliSecond := by
  have hm : micros milliSecond < 2 ^ 64 := Nat.mod_lt _ (by norm_num)
  have hsmall : milliSecond ≤ TimerMax → micros milliSecond = milliSecond * 1000 := fun h => by
    unfold TimerMax at h
    unfold micros
    omega
  rw [schedules_iff hw interval, addTime_eq h₀ h₁, Fits]
  generalize micros milliSecond = m at hm hsmall
  unfold TimerMax at *
  split
  · have habs : |now - (now + (m : ℤ))| = m := by rw [abs_of_nonpos (by omega)]; omega
    rw [habs]
    split <;> omega
  · have habs : |now - (now + (m : ℤ) - 2 ^ 64)| = 2 ^ 64 - (m : ℤ) := by
      rw [abs_of_nonneg (by omega)]; omega
    rw [habs]
    split <;> omega

/-- **A relative timer is exact or refused exactly when its delay fits**, in every state of every
run. -/
theorem relative_iff (hs : exec step init as = .ok s) (h₀ : 0 ≤ now) (h₁ : now < 2 ^ 63)
    (milliSecond : ℕ) :
    (Schedules s.w (runAfter s.w now milliSecond) (max 1 milliSecond) ∧
      Schedules s.w (runEvery s.w now milliSecond) (max 1 milliSecond)) ↔
    Fits now milliSecond := by
  obtain ⟨due, hinv⟩ := exec_init hs
  rw [runAfter, runEvery, schedules_iff_fits hinv.shows h₀ h₁,
    schedules_iff_fits hinv.shows h₀ h₁, and_self_iff]

/-- A delay of one millisecond. -/
theorem relative_iff_one :
    (Schedules init.w (runAfter init.w 0 1) (max 1 1) ∧
      Schedules init.w (runEvery init.w 0 1) (max 1 1)) ↔ Fits 0 1 :=
  relative_iff (exec_nil step init) le_rfl (by norm_num) 1

/-- Ordinary delays fit, as long as the clock goes on. -/
theorem fits_of_le (h : milliSecond ≤ TimerMax) (h₁ : now < 2 ^ 63 - 1000 * TimerMax) :
    Fits now milliSecond := by
  rw [Fits, if_pos h]
  unfold TimerMax at *
  omega

/-- More than 500000 years are taken for no time at all. -/
theorem aeons_at_once : ¬ ∀ (as : List Action) (s : Sys) (now : ℤ) (milliSecond : ℕ),
    exec step init as = .ok s → 0 ≤ now → now < 2 ^ 63 → milliSecond < 2 ^ 64 →
    Schedules s.w (runAfter s.w now milliSecond) (max 1 milliSecond) ∧
      Schedules s.w (runEvery s.w now milliSecond) (max 1 milliSecond) := by
  intro h
  have hfits := (schedules_iff_fits shows_new le_rfl (by norm_num)).mp
    (h [] init 0 18446744073709552 rfl le_rfl (by norm_num) (by norm_num)).1
  exact absurd hfits (by norm_num [Fits, micros, TimerMax])

end RelativeTimer

end MuduoZ
