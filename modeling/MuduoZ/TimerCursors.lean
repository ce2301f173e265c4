import MuduoZ.TimerPlacement

/-!
What turns the wheels.

Timers are added, sent to lower wheels, placed anew and deleted without any wheel being turned. The
last part of a tick is the carry of an odometer.
-/

namespace MuduoZ.TimerWheels

open Function Odometer

/-- No wheel was turned, or made, from `w` to `w'`. -/
structure Still (w w' : TimerWheels) : Prop where
  size : w'.size = w.size
  unit : ∀ i, (w'.wheelVec_ i).TickNOneSlot = (w.wheelVec_ i).TickNOneSlot
  cursor : w'.slotCur = w.slotCur

variable {w w' w'' : TimerWheels} {x : TimerPtr} {l : List TimerPtr} {k level slot : ℕ}

lemma Still.refl (w : TimerWheels) : Still w w := ⟨rfl, fun _ => rfl, rfl⟩

lemma Still.trans (h : Still w w') (h' : Still w' w'') : Still w w'' :=
  ⟨h'.size.trans h.size, fun i => (h'.unit i).trans (h.unit i), h'.cursor.trans h.cursor⟩

/-! ### The timers -/

lemma still_setSlot (w : TimerWheels) (level slot : ℕ) (l : List TimerPtr) :
    Still w (w.setSlot level slot l) := by
  refine ⟨rfl, fun i => ?_, funext fun i => ?_⟩
  · rcases eq_or_ne i level with rfl | hne <;> simp [setSlot, setWheel, *]
  · rcases eq_or_ne i level with rfl | hne <;> simp [slotCur, setSlot, setWheel, *]

lemma still_setTimer (w : TimerWheels) (x : TimerPtr) (t : Timer) : Still w (w.setTimer x t) :=
  ⟨rfl, fun _ => rfl, rfl⟩

lemma still_addToWheel (h : w.addToWheel level x = .ok w') : Still w w' := by
  obtain ⟨v, -, h⟩ := bind_ok_iff.mp h
  obtain rfl := Except.ok.inj h
  exact still_setSlot ..

lemma still_addTimer {now expirationTime : ℤ} {interval : ℕ} {r : Option TimerPtr}
    (h : w.addTimer now expirationTime interval = .ok (r, w')) : Still w w' := by
  rcases addTimer_ok h with ⟨-, rfl⟩ | ⟨t, -, -, -, -, h⟩
  · exact .refl _
  · have hmade : Still w { w.setTimer w.made (.new t (w.slotAt t) (top SlotNum t) interval) with
        made := w.made + 1 } := ⟨rfl, fun _ => rfl, rfl⟩
    exact hmade.trans (still_addToWheel h)

lemma still_addTimerToLower (h : addTimerToLower x k w = .ok w') : Still w w' := by
  induction k with
  | zero =>
    simp only [addTimerToLower, bind_ok_iff] at h
    obtain ⟨v, -, tickNum, -, slot, -, h⟩ := h
    obtain rfl := Except.ok.inj h
    exact (still_setTimer ..).trans (still_setSlot ..)
  | succ k ih =>
    simp only [addTimerToLower, bind_ok_iff] at h
    obtain ⟨v, -, tickNum, -, h⟩ := h
    split at h
    · simp only [bind_ok_iff] at h
      obtain ⟨slot, -, h⟩ := h
      obtain rfl := Except.ok.inj h
      exact (still_setTimer ..).trans (still_setSlot ..)
    · exact ih h

lemma still_sendToLower (h : sendToLower k l w = .ok w') : Still w w' := by
  induction l generalizing w with
  | nil =>
    obtain rfl := Except.ok.inj h
    exact .refl w
  | cons x l ih =>
    obtain ⟨w₁, h₁, h⟩ := bind_ok_iff.mp h
    exact (still_addTimerToLower h₁).trans (ih h)

lemma still_checkCurSlots (h : checkCurSlots k w = .ok w') : Still w w' := by
  induction k generalizing w with
  | zero =>
    obtain rfl := Except.ok.inj h
    exact .refl w
  | succ k ih =>
    obtain ⟨w₁, h₁, h⟩ := bind_ok_iff.mp h
    simp only [checkCurSlot, bind_ok_iff] at h₁
    obtain ⟨v, -, w₂, h₂, h₁⟩ := h₁
    obtain rfl := Except.ok.inj h₁
    exact ((still_sendToLower h₂).trans (still_setSlot ..)).trans (ih h)

lemma still_afterCall (h : w.afterCall x = .ok w') : Still w w' := by
  rcases afterCall_ok h with ⟨-, rfl⟩ | ⟨-, -, -, h⟩
  · exact .refl _
  · exact (still_setTimer ..).trans (still_addToWheel h)

lemma still_delTimer {it it' : Option ℕ} (h : w.delTimer it x = .ok (w', it')) : Still w w' := by
  unfold delTimer at h
  split at h
  · cases h
  · obtain ⟨v, -, h⟩ := bind_ok_iff.mp h
    dsimp only at h
    have hset : Still w (w.setSlot (w.timers x).level_ (w.timers x).slot_
        ((v.slotVec_ (w.timers x).slot_).filter (· ≠ x))) := still_setSlot ..
    split at h
    · obtain ⟨rfl, -⟩ := Prod.mk.inj (Except.ok.inj h)
      exact hset
    · split at h
      · split at h
        · cases h
        · obtain ⟨rfl, -⟩ := Prod.mk.inj (Except.ok.inj h)
          exact hset
      · obtain ⟨rfl, -⟩ := Prod.mk.inj (Except.ok.inj h)
        exact hset

lemma still_delAll (w : TimerWheels) : Still w w.delAll := by
  refine ⟨rfl, fun i => ?_, funext fun i => ?_⟩
  · unfold delAll
    dsimp only
    split <;> rfl
  · unfold delAll slotCur
    dsimp only
    split <;> rfl

/-! ### The carry -/

@[simp] lemma slots_tickWheel (w : TimerWheels) (i : ℕ) : (w.tickWheel i).slots = w.slots := by
  funext ⟨j, p⟩
  rcases eq_or_ne j i with rfl | hj
  · simp [tickWheel, setWheel, slots]
  · simp [tickWheel, setWheel, slots, hj]

lemma slotCur_tickWheel (w : TimerWheels) (i : ℕ) :
    (w.tickWheel i).slotCur = update w.slotCur i ((w.slotCur i + 1) % SlotNum) := by
  funext j
  rcases eq_or_ne j i with rfl | hj
  · simp [tickWheel, setWheel, slotCur]
  · simp [tickWheel, setWheel, slotCur, hj]

lemma unit_tickWheel (w : TimerWheels) (i j : ℕ) :
    ((w.tickWheel i).wheelVec_ j).TickNOneSlot = (w.wheelVec_ j).TickNOneSlot := by
  rcases eq_or_ne j i with rfl | hj
  · simp [tickWheel, setWheel]
  · simp [tickWheel, setWheel, hj]

/-- **The wheels are an odometer.** -/
lemma slotCur_advance (k i : ℕ) (w : TimerWheels) :
    (advance k i w).slotCur = turn SlotNum k i w.slotCur := by
  induction k generalizing i w with
  | zero => rfl
  | succ k ih =>
    rw [advance, turn, ← slotCur_tickWheel]
    split
    · rfl
    · exact ih (i + 1) (w.tickWheel i)

lemma advance_frame (k i : ℕ) (w : TimerWheels) :
    (advance k i w).slots = w.slots ∧ (advance k i w).timers = w.timers ∧
      (advance k i w).made = w.made := by
  induction k generalizing i w with
  | zero => exact ⟨rfl, rfl, rfl⟩
  | succ k ih =>
    rw [advance]
    split
    · exact ⟨slots_tickWheel w i, rfl, rfl⟩
    · obtain ⟨h1, h2, h3⟩ := ih (i + 1) (w.tickWheel i)
      exact ⟨h1.trans (slots_tickWheel w i), h2, h3⟩

lemma advance_wheels (k i : ℕ) (w : TimerWheels) : (advance k i w).size = w.size ∧
    ∀ j, ((advance k i w).wheelVec_ j).TickNOneSlot = (w.wheelVec_ j).TickNOneSlot := by
  induction k generalizing i w with
  | zero => exact ⟨rfl, fun _ => rfl⟩
  | succ k ih =>
    rw [advance]
    split
    · exact ⟨rfl, unit_tickWheel w i⟩
    · obtain ⟨hsize, hunit⟩ := ih (i + 1) (w.tickWheel i)
      exact ⟨hsize, fun j => (hunit j).trans (unit_tickWheel w i j)⟩

end MuduoZ.TimerWheels
