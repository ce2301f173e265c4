import MuduoZ.Lib.Odometer
import MuduoZ.TimerWheel

/-!
Where `calculatePosByTicks` places a timer.

The loop divides the ticks until nothing is left. It returns the quotient before the last, which is
the leading digit, and the number of divisions that came to it.
-/

namespace MuduoZ.TimerWheels

open Function Odometer

variable {fuel level slotNum t : ℕ} {w w' : TimerWheels} {x : TimerPtr}

/-! ### The loop -/

/-- The loop keeps two quotients one step apart. -/
lemma calculateLoop_eq (hs : 1 < slotNum) (ht : 0 < t) (hf : t / slotNum ^ (level + 1) < fuel)
    (hl : slotNum ^ level ≤ t) :
    calculateLoop slotNum fuel (t / slotNum ^ (level + 1)) (t / slotNum ^ level) level =
      .ok ⟨t / slotNum ^ top slotNum t, top slotNum t⟩ := by
  have hpow : ∀ i, 0 < slotNum ^ i := fun i => Nat.pow_pos (by omega)
  induction fuel generalizing level with
  | zero => exact absurd hf (Nat.not_lt_zero _)
  | succ fuel ih =>
    rw [calculateLoop]
    split
    · rename_i hpos
      have hdiv : t / slotNum ^ (level + 1) / slotNum = t / slotNum ^ (level + 1 + 1) := by
        rw [Nat.div_div_eq_div_mul, ← pow_succ]
      rw [hdiv]
      refine ih ?_ ?_
      · have hlt := Nat.div_lt_self hpos hs
        rw [hdiv] at hlt
        omega
      · by_contra hlt
        rw [Nat.div_eq_of_lt (Nat.not_le.mp hlt)] at hpos
        exact absurd hpos (Nat.lt_irrefl 0)
    · rename_i hpos
      have hlt : t < slotNum ^ (level + 1) := by
        by_contra hge
        exact hpos (Nat.div_pos (Nat.not_lt.mp hge) (hpow _))
      have htop : top slotNum t = level := (Nat.log_eq_iff (.inr ⟨hs, by omega⟩)).mpr ⟨hl, hlt⟩
      rw [htop]

/-- **`calculatePosByTicks`** finds the leading digit. -/
lemma calculatePos_eq (hs : 1 < slotNum) (ht : 0 < t) :
    calculatePosByTicks t slotNum = .ok ⟨t / slotNum ^ top slotNum t, top slotNum t⟩ := by
  have h : t / slotNum ^ (0 + 1) < t + 1 := Nat.lt_succ_of_le (Nat.div_le_self ..)
  have hloop := calculateLoop_eq hs ht h (by rw [pow_zero]; exact ht)
  simp only [Nat.zero_add, pow_one, pow_zero, Nat.div_one] at hloop
  exact hloop

example : calculatePosByTicks 3661 SlotNum = .ok ⟨1, 2⟩ := rfl

/-! ### The place -/

/-- A number of 64 bits has few digits. -/
lemma top_lt (hs : 1 < slotNum) (ht : t < 2 ^ 64) : top slotNum t < 64 := by
  have hle : top slotNum t ≤ Nat.log 2 t := Nat.log_anti_left (by norm_num) hs
  have hlt : Nat.log 2 t < 64 := Nat.log_lt_of_lt_pow' (by norm_num) ht
  omega

/-- **A timer is placed by the leading digit of its ticks**, whatever the base: in front of the
cursor by less than a turn of its wheel, and for no more than its ticks. The results fit their
type. -/
theorem leading_digit (ht : 1 ≤ t) (ht' : t < 2 ^ 64) (hs : 2 ≤ slotNum)
    (hs' : slotNum ≤ INT_MAX) : ∃ pos, calculatePosByTicks t slotNum = .ok pos ∧
      1 ≤ pos.slotToAdd ∧ pos.slotToAdd < slotNum ∧
      pos.slotToAdd * slotNum ^ pos.level ≤ t ∧ t < (pos.slotToAdd + 1) * slotNum ^ pos.level ∧
      (∀ slotCur, (slotCur + pos.slotToAdd) % slotNum ≠ slotCur) ∧
      toInt pos.slotToAdd = pos.slotToAdd ∧ toInt pos.level = pos.level := by
  have hlt := leading_lt hs t
  have hpos := leading_pos (B := slotNum) ht
  obtain ⟨hle, hnext⟩ := leading_bounds (Nat.zero_lt_of_lt hs) t
  have hlevel : top slotNum t ≤ INT_MAX := (top_lt hs ht').le.trans (by decide)
  exact ⟨_, calculatePos_eq hs ht, hpos, hlt, hle, hnext, step_ne hpos hlt,
    toInt_of_le (hlt.le.trans hs'), toInt_of_le hlevel⟩

/-- An hour, a minute and a second. -/
theorem leading_digit_3661 : ∃ pos, calculatePosByTicks 3661 60 = .ok pos ∧
    1 ≤ pos.slotToAdd ∧ pos.slotToAdd < 60 ∧
    pos.slotToAdd * 60 ^ pos.level ≤ 3661 ∧ 3661 < (pos.slotToAdd + 1) * 60 ^ pos.level ∧
    (∀ slotCur, (slotCur + pos.slotToAdd) % 60 ≠ slotCur) ∧
    toInt pos.slotToAdd = pos.slotToAdd ∧ toInt pos.level = pos.level :=
  leading_digit (by norm_num) (by norm_num) (by norm_num) (by decide)

/-! ### The timers -/

lemma getWheel_ok {v : TimerWheel} (h : w.getWheel level = .ok v) :
    level < w.size ∧ v = w.wheelVec_ level := by
  unfold getWheel at h
  split at h
  · exact ⟨‹_›, (Except.ok.inj h).symm⟩
  · cases h

lemma addToWheel_timers (h : w.addToWheel level x = .ok w') : w'.timers = w.timers := by
  obtain ⟨v, -, h⟩ := bind_ok_iff.mp h
  obtain rfl := Except.ok.inj h
  rfl

lemma interval_pos {t : Timer} (h : t.repeat_ = true) : 0 < t.interval_ := by
  rw [t.repeats] at h
  exact of_decide_eq_true h

/-- The slot for `t` ticks. -/
def slotAt (w : TimerWheels) (t : ℕ) : ℕ :=
  (w.slotCur (top SlotNum t) + t / SlotNum ^ top SlotNum t) % SlotNum

lemma slotAt_ne (w : TimerWheels) (ht : 0 < t) : w.slotAt t ≠ w.slotCur (top SlotNum t) :=
  step_ne (leading_pos ht) (leading_lt (by decide) t) _

/-- **What `addTimer` does**, in whatever state the wheels are. -/
lemma addTimer_ok {now expirationTime : ℤ} {interval : ℕ} {r : Option TimerPtr}
    (h : w.addTimer now expirationTime interval = .ok (r, w')) : r = none ∧ w' = w ∨
      ∃ t, 0 < t ∧ t ≤ TimerMax ∧ top SlotNum t < w.size ∧ r = some w.made ∧
        addToWheel { w.setTimer w.made (.new t (w.slotAt t) (top SlotNum t) interval) with
          made := w.made + 1 } (top SlotNum t) w.made = .ok w' := by
  simp only [addTimer, bind_ok_iff] at h
  obtain ⟨ticks, -, h⟩ := h
  split at h
  · obtain ⟨rfl, rfl⟩ := Prod.mk.inj (Except.ok.inj h)
    exact .inl ⟨rfl, rfl⟩
  · rename_i hmax
    generalize ht : (if ticks = 0 then 1 else ticks) = t at h
    have hpos : 0 < t := by split at ht <;> omega
    have hle : t ≤ TimerMax := by unfold TimerMax at *; split at ht <;> omega
    simp only [bind_ok_iff, calculatePos_eq (show 1 < SlotNum by decide) hpos,
      Except.ok.injEq] at h
    obtain ⟨pos, rfl, v, hv, w₁, hw₁, h⟩ := h
    obtain ⟨hlt, rfl⟩ := getWheel_ok hv
    obtain ⟨rfl, rfl⟩ := Prod.mk.inj h
    have hlevel : ∀ T : Timer, ((w.setTimer w.made T).timers w.made).level_ = T.level_ :=
      fun T => congrArg Timer.level_ (update_self ..)
    rw [hlevel] at hw₁
    exact .inr ⟨t, hpos, hle, hlt, rfl, hw₁⟩

/-- **What the loop of `runSlot` does** after a callback. -/
lemma afterCall_ok (h : w.afterCall x = .ok w') : (w.timers x).repeat_ = false ∧ w' = w ∨
    (w.timers x).repeat_ = true ∧ 0 < (w.timers x).interval_ ∧
      top SlotNum (w.timers x).interval_ < w.size ∧
      addToWheel (w.setTimer x { w.timers x with
        tickNum_ := (w.timers x).interval_
        slot_ := w.slotAt (w.timers x).interval_
        level_ := top SlotNum (w.timers x).interval_ })
          (top SlotNum (w.timers x).interval_) x = .ok w' := by
  unfold afterCall at h
  dsimp only at h
  split at h
  · rename_i hr
    have hpos := interval_pos hr
    rw [calculatePos_eq (show 1 < SlotNum by decide) hpos] at h
    simp only [bind_ok_iff, Except.ok.injEq] at h
    obtain ⟨pos, rfl, v, hv, h⟩ := h
    obtain ⟨hlt, rfl⟩ := getWheel_ok hv
    exact .inr ⟨hr, hpos, hlt, h⟩
  · rename_i hr
    exact .inl ⟨Bool.eq_false_iff.mpr hr, (Except.ok.inj h).symm⟩

/-- **No timer is placed at a cursor** by `addTimer`. -/
theorem addTimer_ahead {now expirationTime : ℤ} {interval : ℕ}
    (h : w.addTimer now expirationTime interval = .ok (some x, w')) :
    (w'.timers x).slot_ ≠ w.slotCur (w'.timers x).level_ := by
  rcases addTimer_ok h with ⟨hx, -⟩ | ⟨t, hpos, -, -, hx, hadd⟩
  · cases hx
  · obtain rfl := Option.some.inj hx
    rw [addToWheel_timers hadd]
    dsimp only [setTimer]
    rw [update_self]
    exact slotAt_ne w hpos

/-- Nor by the loop of `runSlot`, after the callback of a repeating timer. -/
theorem afterCall_ahead (hr : (w.timers x).repeat_ = true) (h : w.afterCall x = .ok w') :
    (w'.timers x).slot_ ≠ w.slotCur (w'.timers x).level_ := by
  rcases afterCall_ok h with ⟨hr', -⟩ | ⟨-, hpos, -, hadd⟩
  · exact absurd (hr.symm.trans hr') (by decide)
  · rw [addToWheel_timers hadd]
    dsimp only [setTimer]
    rw [update_self]
    exact slotAt_ne w hpos

end MuduoZ.TimerWheels
