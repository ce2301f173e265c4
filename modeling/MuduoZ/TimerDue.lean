import MuduoZ.Lib.Slots
import MuduoZ.TimerCursors

/-!
When a timer is due.

The cursors are an odometer that shows the tick number. A timer stands in a slot that the
cursor of its wheel reaches at one tick; from there it goes through the wheels below, and
waits on each of them for as many steps as its tick number has units.
-/

namespace MuduoZ.TimerWheels

open Function Odometer Slots

/-- The wheel that `calculatePosByTicks` chooses. -/
def topLevel (ticks : ℕ) : ℕ := Nat.log 60 ticks

/-- When a timer of `ticks` ticks that is placed at tick `n` is run. -/
def dueAt (n ticks : ℕ) : ℕ :=
  60 ^ topLevel ticks * (n / 60 ^ topLevel ticks + ticks / 60 ^ topLevel ticks) +
    ticks % 60 * ones 60 (topLevel ticks)

/-- The wheels at tick `n`. -/
structure Shows (n : ℕ) (w : TimerWheels) : Prop where
  size : w.size = 5
  unit : ∀ i < 5, (w.wheelVec_ i).TickNOneSlot = 60 ^ (i + 1)
  cursor : ∀ i < 5, w.slotCur i = n / 60 ^ i % 60

/-- `timer` stands in a slot from which it will be run at tick `due timer`. -/
structure Stands (due : TimerPtr → ℕ) (n : ℕ) (w : TimerWheels) (i : ℕ × ℕ)
    (timer : TimerPtr) : Prop where
  made : timer < w.made
  level : (w.timers timer).level_ = i.1
  le_top : i.1 ≤ topLevel (w.timers timer).tickNum_
  top_lt : topLevel (w.timers timer).tickNum_ < 5
  serves : ∃ m, Serves 60 n i.1 i.2 m ∧
    due timer = m + (w.timers timer).tickNum_ % 60 * ones 60 i.1
  -- `slot_` is right as long as the timer was not sent to a lower wheel
  slot : i.2 = if i.1 = topLevel (w.timers timer).tickNum_ then (w.timers timer).slot_
    else (w.timers timer).tickNum_ % 60

/-- Every timer held in `V` is held once, and stands where it should. -/
structure Placed (due : TimerPtr → ℕ) (n : ℕ) (w : TimerWheels) (V : ℕ × ℕ → List TimerPtr) :
    Prop extends Once V where
  stands : ∀ {i timer}, timer ∈ V i → Stands due n w i timer

/-- The slot where `ticks` ticks lead at tick `n`. -/
def slotFor (n ticks : ℕ) : ℕ := (n / 60 ^ topLevel ticks % 60 + ticks / 60 ^ topLevel ticks) % 60

/-- `timer` is placed for `ticks` ticks, at tick `n`. -/
structure Armed (n : ℕ) (w w' : TimerWheels) (timer : TimerPtr) (ticks : ℕ) : Prop where
  shows : Shows n w'
  pos : 0 < ticks
  top_lt : topLevel ticks < 5
  made : timer < w'.made
  made_le : w.made ≤ w'.made
  others : ∀ y ≠ timer, w'.timers y = w.timers y
  tickNum : (w'.timers timer).tickNum_ = ticks
  level : (w'.timers timer).level_ = topLevel ticks
  slot : (w'.timers timer).slot_ = slotFor n ticks
  slots : w'.slots = put w.slots (topLevel ticks, slotFor n ticks) timer

/-- Timers went from `V` to `V'`, and nothing else changed. -/
structure Moved (due : TimerPtr → ℕ) (n : ℕ) (w w' : TimerWheels)
    (V V' : ℕ × ℕ → List TimerPtr) : Prop where
  shows : Shows n w'
  placed : Placed due n w' V'
  made : w'.made = w.made
  timers : ∀ y, w'.timers y = { w.timers y with level_ := (w'.timers y).level_ }
  levels : ∀ y, (w'.timers y).level_ ≤ (w.timers y).level_
  held : ∀ y, In V' y ↔ In V y

variable {due due' : TimerPtr → ℕ} {n k level slot t : ℕ} {w w' w'' : TimerWheels}
  {i : ℕ × ℕ} {x y : TimerPtr} {V V' V'' : ℕ × ℕ → List TimerPtr} {l : List TimerPtr}

/-! ### Changes of one place -/

lemma slots_setSlot : (w.setSlot level slot l).slots = update w.slots (level, slot) l := by
  funext ⟨a, b⟩
  by_cases ha : a = level
  · subst ha
    by_cases hb : b = slot
    · simp [slots, setSlot, setWheel, hb]
    · simp [slots, setSlot, setWheel, hb, update_of_ne]
  · simp [slots, setSlot, setWheel, ha, update_of_ne]

@[simp] lemma slots_push : (w.push level slot x).slots = put w.slots (level, slot) x :=
  slots_setSlot

@[simp] lemma slots_setTimer {t : Timer} : (w.setTimer x t).slots = w.slots := rfl

lemma Shows.still (h : Shows n w) (hw : Still w w') : Shows n w' :=
  ⟨hw.size.trans h.size, fun i hi => (hw.unit i).trans (h.unit i hi), by
    rw [hw.cursor]; exact h.cursor⟩

lemma Shows.setSlot (h : Shows n w) : Shows n (w.setSlot level slot l) :=
  h.still (still_setSlot ..)

lemma Shows.setTimer (h : Shows n w) {t : Timer} : Shows n (w.setTimer x t) :=
  h.still (still_setTimer ..)

lemma Shows.getWheel (h : Shows n w) (hl : level < 5) :
    w.getWheel level = .ok (w.wheelVec_ level) := by
  rw [TimerWheels.getWheel, if_pos (h.size ▸ hl)]

/-! ### Where a timer is placed -/

lemma calculatePosByTicks_eq (ht : 0 < t) :
    calculatePosByTicks t SlotNum = .ok ⟨t / 60 ^ topLevel t, topLevel t⟩ :=
  calculatePos_eq (by decide) ht

lemma slotToAdd_pos (ht : 0 < t) : 0 < t / 60 ^ topLevel t := leading_pos ht

lemma slotToAdd_lt : t / 60 ^ topLevel t < 60 := leading_lt (by norm_num) t

/-- A timer is never placed in the slot at the cursor. -/
lemma slotFor_ne (n : ℕ) (ht : 0 < t) : slotFor n t ≠ n / 60 ^ topLevel t % 60 := by
  have hne := step_ne (slotToAdd_pos ht) slotToAdd_lt (n / 60 ^ topLevel t % 60)
  exact hne

lemma Shows.slotAt (hw : Shows n w) (h : topLevel t < 5) : w.slotAt t = slotFor n t := by
  have hcur : w.slotCur (top SlotNum t) = n / 60 ^ topLevel t % 60 := hw.cursor _ h
  rw [TimerWheels.slotAt, hcur]
  rfl

/-- A timer is due within one turn of the wheel after the highest. -/
lemma dueAt_lt (n t : ℕ) : dueAt n t < n + 60 ^ (topLevel t + 1) := by
  unfold dueAt
  have hones := mul_ones_lt (B := 60) (L := topLevel t) (Nat.mod_lt t (by norm_num : 60 > 0))
  have hn := Nat.mul_div_le n (60 ^ topLevel t)
  have hs : 60 ^ topLevel t * (t / 60 ^ topLevel t + 1) ≤ 60 ^ topLevel t * 60 :=
    Nat.mul_le_mul_left _ slotToAdd_lt
  rw [pow_succ, mul_add]
  rw [mul_add, mul_one] at hs
  omega

lemma le_dueAt (n : ℕ) (ht : 0 < t) : n ≤ dueAt n t := by
  unfold dueAt
  have hpow : 0 < 60 ^ topLevel t := by positivity
  have hlt := Nat.lt_mul_div_succ n hpow
  have : 60 ^ topLevel t * (n / 60 ^ topLevel t + 1) ≤
      60 ^ topLevel t * (n / 60 ^ topLevel t + t / 60 ^ topLevel t) :=
    Nat.mul_le_mul_left _ (Nat.add_le_add_left (slotToAdd_pos ht) _)
  omega

/-- The tick is the right one when the units of the ticks, on the lower wheels, make up for the
rest of the ticks and what the lower wheels have turned. -/
lemma dueAt_eq_iff (n t : ℕ) : dueAt n t = n + t ↔
    t % 60 * ones 60 (topLevel t) = t % 60 ^ topLevel t + n % 60 ^ topLevel t := by
  have hn := Nat.div_add_mod n (60 ^ topLevel t)
  have ht := Nat.div_add_mod t (60 ^ topLevel t)
  unfold dueAt
  rw [mul_add]
  omega

/-- **A timer that is placed anew** stands for the tick `dueAt`. -/
lemma Armed.stands (h : Armed n w w' x t) (hdue : due x = dueAt n t) :
    Stands due n w' (topLevel t, slotFor n t) x where
  made := h.made
  level := h.level
  le_top := by rw [h.tickNum]
  top_lt := by rw [h.tickNum]; exact h.top_lt
  serves := ⟨_, serves_place (slotToAdd_pos h.pos) slotToAdd_lt, by rw [hdue, h.tickNum]; rfl⟩
  slot := by rw [h.tickNum, if_pos rfl, h.slot]

/-- The last lines of `addTimer`, and of the loop of `runSlot`. -/
lemma arm_spec (hw : Shows n w) (ht : 0 < t) (htop : topLevel t < 5) {T : Timer} {m : ℕ}
    (htick : T.tickNum_ = t) (hlevel : T.level_ = topLevel t) (hslot : T.slot_ = slotFor n t)
    (hm : w.made ≤ m) (hx : x < m) :
    ∃ w', addToWheel { w.setTimer x T with made := m } (topLevel t) x = .ok w' ∧
      w'.made = m ∧ w'.timers x = T ∧ Armed n w w' x t := by
  have hshows : Shows n { w.setTimer x T with made := m } := ⟨hw.size, hw.unit, hw.cursor⟩
  have hT : update w.timers x T x = T := update_self ..
  refine ⟨_, by rw [addToWheel, hshows.getWheel htop]; rfl, rfl, hT, ?_⟩
  exact {
    shows := hshows.setSlot
    pos := ht
    top_lt := htop
    made := hx
    made_le := hm
    others := fun y hy => update_of_ne hy ..
    tickNum := by rw [← htick]; exact congrArg Timer.tickNum_ hT
    level := by rw [← hlevel]; exact congrArg Timer.level_ hT
    slot := by rw [← hslot]; exact congrArg Timer.slot_ hT
    slots := by
      rw [slots_push, ← hslot]
      exact congrArg (fun s : Timer => put w.slots (topLevel t, s.slot_) x) hT }

/-- **What `addTimer` does.** -/
lemma addTimer_spec (hw : Shows n w) {now expirationTime : ℤ} {interval : ℕ}
    {r : Option TimerPtr} (h : w.addTimer now expirationTime interval = .ok (r, w')) :
    (r = none ∧ w' = w) ∨ ∃ t, t ≤ TimerMax ∧ r = some w.made ∧ w'.made = w.made + 1 ∧
      (w'.timers w.made).interval_ = interval ∧ Armed n w w' w.made t := by
  rcases addTimer_ok h with ⟨rfl, rfl⟩ | ⟨t, hpos, hle, htop, rfl, hadd⟩
  · exact .inl ⟨rfl, rfl⟩
  · rw [hw.size] at htop
    rw [hw.slotAt htop] at hadd
    obtain ⟨w₂, hok, hmade, hT, harm⟩ := arm_spec hw hpos htop
      (T := .new t (slotFor n t) (topLevel t) interval) rfl rfl rfl
      (Nat.le_succ w.made) (Nat.lt_succ_self w.made)
    obtain rfl := Except.ok.inj (hok.symm.trans hadd)
    exact .inr ⟨t, hle, rfl, hmade, by rw [hT]; rfl, harm⟩

/-- A timer that does not repeat is not placed again. -/
lemma afterCall_once (h : (w.timers x).repeat_ = false) : w.afterCall x = .ok w := by
  simp [afterCall, h]

lemma afterCall_repeat (hw : Shows n w) (hx : x < w.made) (hrep : (w.timers x).repeat_ = true)
    (h : w.afterCall x = .ok w') : w'.made = w.made ∧
      (w'.timers x).interval_ = (w.timers x).interval_ ∧
      Armed n w w' x (w.timers x).interval_ := by
  rcases afterCall_ok h with ⟨hr, -⟩ | ⟨-, hpos, htop, hadd⟩
  · exact absurd (hrep.symm.trans hr) (by decide)
  · rw [hw.size] at htop
    rw [hw.slotAt htop] at hadd
    obtain ⟨w₂, hok, hmade, hT, harm⟩ := arm_spec hw hpos htop
      (T := { w.timers x with
        tickNum_ := (w.timers x).interval_
        slot_ := slotFor n (w.timers x).interval_
        level_ := topLevel (w.timers x).interval_ }) rfl rfl rfl le_rfl hx
    obtain rfl := Except.ok.inj (hok.symm.trans hadd)
    exact ⟨hmade, by rw [hT], harm⟩

lemma topLevel_lt (ht : t < 60 ^ 5) : topLevel t < 5 :=
  Nat.log_lt_of_lt_pow' (by norm_num) ht

lemma lt_of_le_max (ht : t ≤ TimerMax) : t < 60 ^ 5 := ht.trans_lt (by decide)

lemma addToWheel_total (hw : Shows n w) (hl : level < 5) :
    ∃ w', w.addToWheel level x = .ok w' := by
  rw [addToWheel, hw.getWheel hl]
  exact ⟨_, rfl⟩

lemma diff_eq_abs (t1 t2 : ℤ) : (if t1 > t2 then t1 - t2 else t2 - t1) = |t1 - t2| := by
  split
  · rw [abs_of_pos (by omega)]
  · rw [abs_of_nonpos (by omega), neg_sub]

lemma timeDiff_eq {t1 t2 : ℤ} (h : |t1 - t2| < 2 ^ 63) :
    timeDiffInMillSeconds t1 t2 = .ok (|t1 - t2|.toNat / 1000) := by
  rw [timeDiffInMillSeconds, diff_eq_abs, if_pos h]

lemma addTimer_total (hw : Shows n w) {now expirationTime : ℤ} (interval : ℕ)
    (h : |now - expirationTime| < 2 ^ 63) :
    ∃ r, w.addTimer now expirationTime interval = .ok r := by
  rw [addTimer, timeDiff_eq h]
  by_cases hmax : |now - expirationTime|.toNat / 1000 > TimerMax
  · exact ⟨(none, w), by simp only [bind_ok_iff]; exact ⟨_, rfl, if_pos hmax⟩⟩
  · generalize |now - expirationTime|.toNat / 1000 = ticks at hmax
    generalize ht : (if ticks = 0 then 1 else ticks) = t
    have hpos : 0 < t := by split at ht <;> omega
    have htop : topLevel t < 5 :=
      topLevel_lt (lt_of_le_max (by unfold TimerMax at *; split at ht <;> omega))
    have hlevel : ∀ T : Timer, ((w.setTimer w.made T).timers w.made).level_ = T.level_ :=
      fun T => congrArg Timer.level_ (update_self ..)
    simp only [bind_ok_iff, Except.ok.injEq, exists_eq_left', if_neg hmax, ht,
      calculatePosByTicks_eq hpos, hw.getWheel htop, Prod.exists, hlevel]
    obtain ⟨w', hw'⟩ := addToWheel_total (x := w.made) (w := { w.setTimer w.made (.new t
      (((w.wheelVec_ (topLevel t)).slotCur_ + t / 60 ^ topLevel t) % SlotNum) (topLevel t)
        interval) with made := w.made + 1 }) ⟨hw.size, hw.unit, hw.cursor⟩ htop
    exact ⟨_, _, w', hw', rfl⟩

lemma afterCall_total (hw : Shows n w) (h : (w.timers x).interval_ < 60 ^ 5) :
    ∃ w', w.afterCall x = .ok w' := by
  cases hr : (w.timers x).repeat_ with
  | false => exact ⟨w, afterCall_once hr⟩
  | true =>
    have htop := topLevel_lt h
    unfold afterCall
    dsimp only
    rw [if_pos hr, calculatePosByTicks_eq (interval_pos hr)]
    simp only [bind_ok_iff, Except.ok.injEq, exists_eq_left', hw.getWheel htop]
    exact addToWheel_total hw.setTimer htop

/-! ### Placed timers -/

lemma Stands.congr (h : Stands due n w i x) (hT : w'.timers x = w.timers x)
    (hmade : w.made ≤ w'.made) (hdue : due' x = due x) : Stands due' n w' i x := by
  obtain ⟨h1, h2, h3, h4, h5, h6⟩ := h
  refine ⟨h1.trans_le hmade, ?_, ?_, ?_, ?_, ?_⟩ <;> rw [hT]
  exacts [h2, h3, h4, by rw [hdue]; exact h5, h6]

lemma Placed.sub (h : Placed due n w V) (hs : ∀ i, (V' i).Sublist (V i)) : Placed due n w V' :=
  ⟨h.toOnce.sub hs, fun hi => h.stands ((hs _).subset hi)⟩

lemma Placed.congr (h : Placed due n w V) (hT : ∀ y, In V y → w'.timers y = w.timers y)
    (hmade : w.made ≤ w'.made) (hdue : ∀ y, In V y → due' y = due y) : Placed due' n w' V :=
  ⟨h.toOnce, fun hi => (h.stands hi).congr (hT _ ⟨_, hi⟩) hmade (hdue _ ⟨_, hi⟩)⟩

lemma Placed.put (h : Placed due n w V) (hx : ¬ In V x) (hs : Stands due n w i x) :
    Placed due n w (put V i x) := by
  refine ⟨h.toOnce.put hx, fun hi => ?_⟩
  rcases mem_put_iff.mp hi with hi | ⟨rfl, rfl⟩
  exacts [h.stands hi, hs]

lemma Placed.take (h : Placed due n w (update V i (x :: l))) :
    Placed due n w (update V i l) ∧ ¬ In (update V i l) x ∧ Stands due n w i x :=
  ⟨h.sub take_sub, h.toOnce.take.2, h.stands (by simp)⟩

/-- What stands at the cursor is due now, but for the wheels it still goes through. -/
lemma Stands.now (h : Stands due n w (level, n / 60 ^ level % 60) x) :
    60 ^ level ∣ n ∧ due x = n + (w.timers x).tickNum_ % 60 * ones 60 level := by
  obtain ⟨m, hm, hdue⟩ := h.serves
  obtain rfl := serves_now (by norm_num) hm
  exact ⟨hm.2.1, hdue⟩

lemma Stands.due_now (h : Stands due n w (0, n % 60) x) : due x = n := by
  have h : Stands due n w (0, n / 60 ^ 0 % 60) x := by rwa [pow_zero, Nat.div_one]
  simpa using h.now.2

lemma Stands.le_due (h : Stands due n w i x) : n ≤ due x := by
  obtain ⟨m, hm, hdue⟩ := h.serves
  have := hm.1
  omega

/-- Once nothing stands at a cursor, the next tick may come. -/
lemma Placed.advance (h : Placed due n w V)
    (hV : ∀ level < 5, V (level, n / 60 ^ level % 60) = []) : Placed due (n + 1) w V := by
  refine ⟨h.toOnce, fun {i x} hi => ?_⟩
  have hs := h.stands hi
  obtain ⟨m, hm, hdue⟩ := hs.serves
  have hne : m ≠ n := by
    rintro rfl
    have hcur := hV i.1 (hs.le_top.trans_lt hs.top_lt)
    rw [hm.2.2.1] at hcur
    rw [hcur] at hi
    exact absurd hi List.not_mem_nil
  exact { hs with serves := ⟨m, serves_succ hm hne, hdue⟩ }

/-! ### Timers sent to lower wheels -/

lemma Moved.refl (hw : Shows n w) (h : Placed due n w V) : Moved due n w w V V :=
  ⟨hw, h, rfl, fun _ => rfl, fun _ => le_rfl, fun _ => Iff.rfl⟩

lemma Moved.trans (h : Moved due n w w' V V') (h' : Moved due n w' w'' V' V'') :
    Moved due n w w'' V V'' :=
  ⟨h'.shows, h'.placed, h'.made.trans h.made, fun y => by rw [h'.timers, h.timers],
    fun y => (h'.levels y).trans (h.levels y), fun y => (h'.held y).trans (h.held y)⟩

/-- What `addTimerToLower` does to a timer it leaves on wheel `level`. -/
def lowered (w : TimerWheels) (x : TimerPtr) (level : ℕ) : TimerWheels :=
  (w.setTimer x { w.timers x with level_ := level }).push level ((w.timers x).tickNum_ % 60) x

lemma lowered_self (w : TimerWheels) (x : TimerPtr) (level : ℕ) :
    (w.lowered x level).timers x = { w.timers x with level_ := level } := update_self ..

lemma lowered_of_ne (h : y ≠ x) : (w.lowered x level).timers y = w.timers y := update_of_ne h ..

/-- It stands there for its units, and then on the wheels below. -/
lemma lowered_stands {j : ℕ} (hj : j < topLevel (w.timers x).tickNum_)
    (htop : topLevel (w.timers x).tickNum_ < 5) (hx : x < w.made) (hd : 60 ^ (j + 1) ∣ n)
    (hdue : due x = n + (w.timers x).tickNum_ % 60 * ones 60 (j + 1)) :
    Stands due n (w.lowered x j) (j, (w.timers x).tickNum_ % 60) x := by
  have hself := lowered_self w x j
  refine ⟨hx, by rw [hself], by rw [hself]; exact hj.le, by rwa [hself], ?_, ?_⟩
  · refine ⟨_, serves_cascade hd j.lt_succ_self (Nat.mod_lt _ (by norm_num)), ?_⟩
    rw [hself, hdue, ones_succ, mul_add]
    dsimp only
    ring
  · rw [hself, if_neg (by dsimp only; omega)]

lemma Shows.tickRest (hw : Shows n w) (hl : level < 5) :
    TimerWheels.tickRest (w.wheelVec_ level) t = .ok ((t % 60 ^ (level + 1) : ℕ) : ℤ) := by
  have hlt : t % 60 ^ (level + 1) < 60 ^ (level + 1) := Nat.mod_lt _ (by positivity)
  have hle : 60 ^ (level + 1) ≤ 60 ^ 5 := Nat.pow_le_pow_right (by norm_num) hl
  rw [TimerWheels.tickRest, hw.unit level hl, if_neg (by positivity),
    toInt_of_le ((hlt.le.trans hle).trans (by decide))]

/-- At a cursor that stands at 0. -/
lemma slotAhead_zero {v : TimerWheel} (hv : v.slotCur_ = 0) (ht : t < 60 ^ 5) :
    slotAhead v t = .ok (t % 60) := by
  have hmax : (60 : ℕ) ^ 5 ≤ 2 ^ 31 := by norm_num
  rw [slotAhead, hv, Nat.cast_zero, zero_add, if_pos (by omega), SlotNum]
  congr 1
  omega

/-- **A timer sent down** is left in the slot of its units, on the first wheel below that takes
it. The division that would find its digit there is missing. -/
lemma addTimerToLower_spec (hw : Shows n w) (hk : k < topLevel (w.timers x).tickNum_)
    (htop : topLevel (w.timers x).tickNum_ < 5) (hx : x < w.made) (hd : 60 ^ (k + 1) ∣ n)
    (hdue : due x = n + (w.timers x).tickNum_ % 60 * ones 60 (k + 1)) :
    ∃ j ≤ k, addTimerToLower x k w = .ok (w.lowered x j) ∧
      Stands due n (w.lowered x j) (j, (w.timers x).tickNum_ % 60) x := by
  have hcur := hw.cursor k (hk.trans htop)
  rw [digit_eq_zero hd k.lt_succ_self] at hcur
  simp only [slotCur] at hcur
  -- the units are left of the ticks on every wheel
  have hunits : (w.timers x).tickNum_ % 60 ^ (k + 1) % 60 = (w.timers x).tickNum_ % 60 :=
    Nat.mod_mod_of_dvd _ (dvd_pow_self 60 (by omega))
  have hlt : (w.timers x).tickNum_ % 60 ^ (k + 1) < 60 ^ 5 :=
    (Nat.mod_lt _ (by positivity)).trans_le (Nat.pow_le_pow_right (by norm_num) (by omega))
  induction k with
  | zero =>
    refine ⟨0, le_rfl, ?_, lowered_stands hk htop hx hd hdue⟩
    rw [addTimerToLower, hw.getWheel (by norm_num)]
    rw [ok_bind]
    dsimp only
    rw [hw.tickRest (by norm_num), ok_bind, slotAhead_zero hcur hlt, ok_bind, hunits]
    rfl
  | succ k ih =>
    rw [addTimerToLower, hw.getWheel (by omega)]
    rw [ok_bind]
    dsimp only
    rw [hw.tickRest (by omega), ok_bind, slotAhead_zero hcur hlt, ok_bind, hunits]
    split
    · exact ⟨k + 1, le_rfl, rfl, lowered_stands hk htop hx hd hdue⟩
    · rename_i hzero
      have hzero : (w.timers x).tickNum_ % 60 = 0 := by rw [← hunits]; omega
      have hd' : 60 ^ (k + 1) ∣ n := (Nat.pow_dvd_pow 60 (by omega)).trans hd
      have hcur' : (w.wheelVec_ k).slotCur_ = 0 := by
        have := hw.cursor k (by omega)
        rwa [digit_eq_zero hd' k.lt_succ_self] at this
      obtain ⟨j, hj, hok⟩ := ih (by omega) hd' (by rw [hdue, hzero]; simp) hcur'
        (Nat.mod_mod_of_dvd _ (dvd_pow_self 60 (by omega)))
        ((Nat.mod_lt _ (by positivity)).trans_le (Nat.pow_le_pow_right (by norm_num) (by omega)))
      exact ⟨j, by omega, hok⟩

/-- What is left of the slot after a timer was sent down, and where that is. -/
lemma lowered_view {j c : ℕ} (hj : j ≤ k) : update (w.lowered x j).slots (k + 1, c) l =
    put (update w.slots (k + 1, c) l) (j, (w.timers x).tickNum_ % 60) x := by
  rw [lowered, slots_push, slots_setTimer, put_update]
  intro he
  have := congrArg Prod.fst he
  dsimp only at this
  omega

lemma lowered_moved {j c : ℕ} (hj : j ≤ k) (hw : Shows n w)
    (hp : Placed due n w (update w.slots (k + 1, c) (x :: l)))
    (hst : Stands due n (w.lowered x j) (j, (w.timers x).tickNum_ % 60) x) :
    Moved due n w (w.lowered x j) (update w.slots (k + 1, c) (x :: l))
      (update (w.lowered x j).slots (k + 1, c) l) := by
  obtain ⟨hp', hx, hlevel⟩ := hp.take
  have hself := lowered_self w x j
  refine ⟨hw.setTimer.setSlot, ?_, rfl, fun y => ?_, fun y => ?_, fun y => ?_⟩
  · rw [lowered_view hj]
    refine (hp'.congr (fun y hy => lowered_of_ne ?_) le_rfl fun _ _ => rfl).put hx hst
    rintro rfl; exact hx hy
  · rcases eq_or_ne y x with rfl | hy
    · rw [hself]
    · rw [lowered_of_ne hy]
  · rcases eq_or_ne y x with rfl | hy
    · rw [hself, hlevel.level]; exact hj.trans (Nat.le_succ k)
    · rw [lowered_of_ne hy]
  · rw [lowered_view hj, in_put_iff, in_take_iff, or_comm]

/-- Going through the current slot of wheel `k + 1`, with `l` still in it. -/
lemma sendToLower_spec (hw : Shows n w)
    (hp : Placed due n w (update w.slots (k + 1, n / 60 ^ (k + 1) % 60) l)) :
    ∃ w', sendToLower k l w = .ok w' ∧
      Moved due n w w' (update w.slots (k + 1, n / 60 ^ (k + 1) % 60) l)
        (update w'.slots (k + 1, n / 60 ^ (k + 1) % 60) []) ∧
      ∀ i : ℕ × ℕ, k < i.1 → w'.slots i = w.slots i := by
  induction l generalizing w with
  | nil => exact ⟨w, rfl, Moved.refl hw hp, fun _ _ => rfl⟩
  | cons x l ih =>
    have hst := hp.take.2.2
    obtain ⟨hd, hdue⟩ := hst.now
    obtain ⟨j, hj, hok, hst'⟩ :=
      addTimerToLower_spec hw hst.le_top hst.top_lt hst.made hd hdue
    have hmoved := lowered_moved hj hw hp hst'
    obtain ⟨w', hok', hmoved', hframe⟩ := ih hmoved.shows hmoved.placed
    refine ⟨w', ?_, hmoved.trans hmoved', fun i hi => (hframe i hi).trans ?_⟩
    · rw [sendToLower, hok]; exact hok'
    · rw [lowered, slots_push, put_of_ne]
      · rfl
      · rintro rfl; dsimp only at hi; omega

lemma checkCurSlot_spec (hk : k + 1 < 5) (hw : Shows n w) (hp : Placed due n w w.slots) :
    ∃ w', checkCurSlot k w = .ok w' ∧ Moved due n w w' w.slots w'.slots ∧
      w'.slots (k + 1, n / 60 ^ (k + 1) % 60) = [] ∧
      ∀ i : ℕ × ℕ, k + 1 < i.1 → w'.slots i = w.slots i := by
  have hview := update_eq_self (k + 1, n / 60 ^ (k + 1) % 60) w.slots
  obtain ⟨w', hok, hmoved, hframe⟩ := sendToLower_spec hw (hview.symm ▸ hp)
  rw [hview] at hmoved
  have hcur : (w.wheelVec_ (k + 1)).slotCur_ = n / 60 ^ (k + 1) % 60 := hw.cursor _ hk
  have hslots : (w'.setSlot (k + 1) (n / 60 ^ (k + 1) % 60) []).slots =
      update w'.slots (k + 1, n / 60 ^ (k + 1) % 60) [] := slots_setSlot
  refine ⟨w'.setSlot (k + 1) (n / 60 ^ (k + 1) % 60) [], ?_,
    ⟨hmoved.shows.setSlot, ?_, hmoved.made, hmoved.timers, hmoved.levels, ?_⟩, ?_, ?_⟩
  · rw [checkCurSlot, hw.getWheel hk]
    simp only [slots] at hok
    simp only [bind, Except.bind, hcur, hok]
  · rw [hslots]; exact hmoved.placed.congr (fun _ _ => rfl) le_rfl fun _ _ => rfl
  · rw [hslots]; exact hmoved.held
  · rw [hslots, update_self]
  · intro i hi
    rw [hslots, update_of_ne, hframe i (by omega)]
    rintro rfl; dsimp only at hi; omega

/-- **Before the callbacks run** no timer is left at the cursor of a higher wheel. -/
theorem checkCurSlots_spec (hk : k < 5) (hw : Shows n w) (hp : Placed due n w w.slots) :
    ∃ w', checkCurSlots k w = .ok w' ∧ Moved due n w w' w.slots w'.slots ∧
      (∀ i : ℕ × ℕ, k < i.1 → w'.slots i = w.slots i) ∧
      ∀ i, 0 < i → i ≤ k → w'.slots (i, n / 60 ^ i % 60) = [] := by
  induction k generalizing w with
  | zero => exact ⟨w, rfl, Moved.refl hw hp, fun _ _ => rfl, fun i _ _ => by omega⟩
  | succ k ih =>
    obtain ⟨w₁, hok, hmoved, hnone, hframe⟩ := checkCurSlot_spec hk hw hp
    obtain ⟨w', hok', hmoved', hframe', hnone'⟩ :=
      ih (by omega) hmoved.shows hmoved.placed
    refine ⟨w', ?_, hmoved.trans hmoved', fun i hi => ?_, fun i hi hik => ?_⟩
    · rw [checkCurSlots, hok]; exact hok'
    · rw [hframe' i (by omega), hframe i hi]
    · rcases Nat.lt_or_ge k i with h | h
      · obtain rfl : i = k + 1 := by omega
        rw [hframe' _ (by simp), hnone]
      · exact hnone' i hi h

/-! ### A timer deleted -/

/-- Where `level_` and `slot_` say that the timer is. -/
def told (w : TimerWheels) (x : TimerPtr) : ℕ × ℕ := ((w.timers x).level_, (w.timers x).slot_)

/-- What `delTimer` leaves. -/
def without (w : TimerWheels) (x : TimerPtr) : TimerWheels :=
  w.setSlot (w.told x).1 (w.told x).2 ((w.slots (w.told x)).filter (· ≠ x))

lemma slots_without : (w.without x).slots = remove w.slots (w.told x) x := slots_setSlot

/-- The loop of `runSlot` after `delTimer`, unless it stands on the timer. -/
def itWithout (w : TimerWheels) (x : TimerPtr) (pos : ℕ) : ℕ :=
  if w.told x = (0, w.slotCur 0) then ((w.curSlot.take pos).filter (· ≠ x)).length else pos

/-- **`delTimer`** looks where `level_` and `slot_` say. -/
lemma delTimer_eq (hw : Shows n w) (hx : x < w.made) (hl : (w.timers x).level_ < 5)
    (it : Option ℕ) : w.delTimer it x =
      if w.told x = (0, w.slotCur 0) ∧ ∃ pos, it = some pos ∧ w.curSlot[pos]? = some x then
        .error .iterator
      else .ok (w.without x, it.map (w.itWithout x)) := by
  have hprod : w.told x = (0, w.slotCur 0) ↔
      (w.timers x).level_ = 0 ∧ (w.timers x).slot_ = w.slotCur 0 := Prod.mk.injEq .. ▸ Iff.rfl
  cases it with
  | none =>
    rw [delTimer, if_neg (Nat.not_le.mpr hx), if_neg (by simp)]
    dsimp only
    rw [hw.getWheel hl]
    rfl
  | some pos =>
    rw [delTimer, if_neg (Nat.not_le.mpr hx)]
    dsimp only
    rw [hw.getWheel hl]
    change (if (w.timers x).level_ = 0 ∧ (w.timers x).slot_ = w.slotCur 0 then
        if (w.slots (w.told x))[pos]? = some x then .error .iterator
        else .ok (w.without x, some (((w.slots (w.told x)).take pos).filter (· ≠ x)).length)
      else (.ok (w.without x, some pos) : Result (TimerWheels × Option ℕ))) = _
    by_cases h : w.told x = (0, w.slotCur 0)
    · have hcur : w.slots (w.told x) = w.curSlot := by rw [h]; rfl
      rw [if_pos (hprod.mp h), hcur]
      by_cases hpos : w.curSlot[pos]? = some x
      · rw [if_pos hpos, if_pos ⟨h, pos, rfl, hpos⟩]
      · rw [if_neg hpos, if_neg, Option.map_some, itWithout, if_pos h]
        rintro ⟨-, p, hp, hx⟩
        exact hpos (Option.some.inj hp ▸ hx)
    · rw [if_neg (mt hprod.mpr h), if_neg (fun hh => h hh.1), Option.map_some, itWithout, if_neg h]

end MuduoZ.TimerWheels
