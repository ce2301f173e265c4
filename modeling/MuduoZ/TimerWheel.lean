import MuduoZ.Fault

/-!
`TimerWheel`, `TimerWheels` and `Timer`. A `TimerWheels` has five wheels by default.

A slot holds pointers to timers; the timers are kept apart. Every slot is computed modulo
`SlotNum`, so `slotVec_` is a function, while an index into `wheelVec_` is checked. A tick
calls out to the callbacks of the timers, and is cut in two at each call.
-/

namespace MuduoZ

open Function

abbrev TimerPtr := ℕ

structure Timer where
  tickNum_ : ℕ
  slot_ : ℕ
  level_ : ℕ
  interval_ : ℕ
  repeat_ : Bool
  repeats : repeat_ = decide (0 < interval_)

def Timer.new (tickNum slot level interval : ℕ) : Timer where
  tickNum_ := tickNum
  slot_ := slot
  level_ := level
  interval_ := interval
  repeat_ := decide (0 < interval)
  repeats := rfl

/-- A wheel; its `level_` is its index. -/
structure TimerWheel where
  slotCur_ : ℕ
  TickNOneSlot : ℕ
  slotVec_ : ℕ → List TimerPtr

/-- The wheels, the timers, and how many timers were made. -/
structure TimerWheels where
  wheelVec_ : ℕ → TimerWheel
  size : ℕ
  timers : TimerPtr → Timer
  made : ℕ

namespace TimerWheels

def SlotNum : ℕ := 60
def TimerMax : ℕ := 12960000
def maxLevel : ℕ := 5

/-- `num` in the constructor, an `int` that is multiplied by `SlotNum` for each wheel. -/
def num : ℕ → ℤ
  | 0 => SlotNum
  | i + 1 => toInt (num i * SlotNum)

/-- The constructor. -/
def construct (maxLevel : ℕ) : TimerWheels where
  wheelVec_ i := ⟨0, (num i % 2 ^ 64).toNat, fun _ => []⟩
  size := maxLevel
  timers _ := Timer.new 0 0 0 0
  made := 0

def new : TimerWheels := construct maxLevel

def getWheel (w : TimerWheels) (level : ℕ) : Result TimerWheel :=
  if level < w.size then .ok (w.wheelVec_ level) else .error .index

/-- What stands in a slot, named by its wheel and its place there. -/
def slots (w : TimerWheels) (i : ℕ × ℕ) : List TimerPtr := (w.wheelVec_ i.1).slotVec_ i.2

def slotCur (w : TimerWheels) (level : ℕ) : ℕ := (w.wheelVec_ level).slotCur_

/-! ### Changes of one place -/

def setWheel (w : TimerWheels) (level : ℕ) (wheel : TimerWheel) : TimerWheels :=
  { w with wheelVec_ := update w.wheelVec_ level wheel }

def setSlot (w : TimerWheels) (level slot : ℕ) (l : List TimerPtr) : TimerWheels :=
  w.setWheel level
    { w.wheelVec_ level with slotVec_ := update (w.wheelVec_ level).slotVec_ slot l }

def setTimer (w : TimerWheels) (timer : TimerPtr) (t : Timer) : TimerWheels :=
  { w with timers := update w.timers timer t }

/-- `push_back` on a slot. -/
def push (w : TimerWheels) (level slot : ℕ) (timer : TimerPtr) : TimerWheels :=
  w.setSlot level slot (w.slots (level, slot) ++ [timer])

/-! ### Placing a timer -/

structure wheelPos where
  slotToAdd : ℕ
  level : ℕ
  deriving DecidableEq

def calculateLoop (slotNum : ℕ) : ℕ → ℕ → ℕ → ℕ → Result wheelPos
  | 0, _, _, _ => .error .fuel
  | fuel + 1, ticksTmp, slotToAdd, level =>
    if 0 < ticksTmp then calculateLoop slotNum fuel (ticksTmp / slotNum) ticksTmp (level + 1)
    else .ok ⟨slotToAdd, level⟩

def calculatePosByTicks (ticks slotNum : ℕ) : Result wheelPos :=
  calculateLoop slotNum (ticks + 1) (ticks / slotNum) ticks 0

def timeDiffInMillSeconds (t1 t2 : ℤ) : Result ℕ :=
  let diff := if t1 > t2 then t1 - t2 else t2 - t1
  if diff < 2 ^ 63 then .ok (diff.toNat / 1000) else .error .overflow

/-- `addTimer` of a wheel. -/
def addToWheel (w : TimerWheels) (level : ℕ) (timer : TimerPtr) : Result TimerWheels := do
  let _ ← w.getWheel level
  .ok (w.push level (w.timers timer).slot_ timer)

/-- `addTimer` called when it is `now`; no timer is made for a time too far away. -/
def addTimer (w : TimerWheels) (now expirationTime : ℤ) (interval : ℕ) :
    Result (Option TimerPtr × TimerWheels) := do
  let ticks ← timeDiffInMillSeconds now expirationTime
  if ticks > TimerMax then .ok (none, w) else
  let ticks := if ticks = 0 then 1 else ticks
  let pos ← calculatePosByTicks ticks SlotNum
  let wheel ← w.getWheel pos.level
  let slot := (wheel.slotCur_ + pos.slotToAdd) % SlotNum
  let timer := w.made
  let w := { w.setTimer timer (.new ticks slot pos.level interval) with made := timer + 1 }
  .ok (some timer, ← w.addToWheel (w.timers timer).level_ timer)

/-- What is left of the ticks on this wheel, as an `int`. -/
def tickRest (wheel : TimerWheel) (ticks : ℕ) : Result ℤ :=
  if wheel.TickNOneSlot = 0 then .error .zero
  else .ok (toInt ↑(ticks % wheel.TickNOneSlot))

/-- The sum of two `int`, divided as a `size_t`. -/
def slotAhead (wheel : TimerWheel) (tickNum : ℤ) : Result ℕ :=
  if wheel.slotCur_ + tickNum < 2 ^ 31 then
    .ok (((wheel.slotCur_ + tickNum) % 2 ^ 64).toNat % SlotNum)
  else .error .overflow

/-- The timer goes on to wheel `level`, or to one below it. -/
def addTimerToLower (timer : TimerPtr) : ℕ → TimerWheels → Result TimerWheels
  | 0, w => do
    let wheel ← w.getWheel 0
    let t := w.timers timer
    let slot ← slotAhead wheel (← tickRest wheel t.tickNum_)
    .ok ((w.setTimer timer { t with level_ := 0 }).push 0 slot timer)
  | level + 1, w => do
    let wheel ← w.getWheel (level + 1)
    let t := w.timers timer
    let tickNum ← tickRest wheel t.tickNum_
    if tickNum ≠ 0 then do
      let slot ← slotAhead wheel tickNum
      .ok ((w.setTimer timer { t with level_ := level + 1 }).push (level + 1) slot timer)
    else addTimerToLower timer level w

/-! ### A tick -/

/-- The loop of `checkCurSlot`, which moves timers to wheel `level` and below. -/
def sendToLower (level : ℕ) : List TimerPtr → TimerWheels → Result TimerWheels
  | [], w => .ok w
  | timer :: rest, w => do sendToLower level rest (← addTimerToLower timer level w)

/-- `checkCurSlot` of wheel `level + 1`. -/
def checkCurSlot (level : ℕ) (w : TimerWheels) : Result TimerWheels := do
  let wheel ← w.getWheel (level + 1)
  let w ← sendToLower level (wheel.slotVec_ wheel.slotCur_) w
  .ok (w.setSlot (level + 1) wheel.slotCur_ [])

/-- `checkCurSlot` of the wheels `i`, …, 1. -/
def checkCurSlots : ℕ → TimerWheels → Result TimerWheels
  | 0, w => .ok w
  | i + 1, w => do checkCurSlots i (← checkCurSlot i w)

/-- The slot that `runSlot` goes through. -/
def curSlot (w : TimerWheels) : List TimerPtr := w.slots (0, w.slotCur 0)

/-- What the loop of `runSlot` calls next, and where, with `rest` still before it. -/
def nextCall (w : TimerWheels) : List TimerPtr → ℕ → Option (ℕ × TimerPtr)
  | [], _ => none
  | timer :: rest, it =>
    if (w.timers timer).level_ = 0 then some (it, timer) else w.nextCall rest (it + 1)

/-- The loop of `runSlot` after the callback: a repeating timer is placed anew. -/
def afterCall (w : TimerWheels) (timer : TimerPtr) : Result TimerWheels := do
  let t := w.timers timer
  if t.repeat_ then
    let pos ← calculatePosByTicks t.interval_ SlotNum
    let wheel ← w.getWheel pos.level
    let slot := (wheel.slotCur_ + pos.slotToAdd) % SlotNum
    (w.setTimer timer { t with tickNum_ := t.interval_, slot_ := slot, level_ := pos.level })
      |>.addToWheel pos.level timer
  else .ok w

/-- `tick` of one wheel. -/
def tickWheel (w : TimerWheels) (level : ℕ) : TimerWheels :=
  let wheel := w.wheelVec_ level
  w.setWheel level { wheel with slotCur_ := (wheel.slotCur_ + 1) % SlotNum }

/-- The wheels from `i` on tick until one does not come to 0. -/
def advance : ℕ → ℕ → TimerWheels → TimerWheels
  | 0, _, w => w
  | k + 1, i, w =>
    let w := w.tickWheel i
    if w.slotCur i ≠ 0 then w else advance k (i + 1) w

/-- `delTimer` while a loop of `runSlot` stands at `it`. To erase the node it stands on is to
leave it no next one. -/
def delTimer (w : TimerWheels) (it : Option ℕ) (timer : TimerPtr) :
    Result (TimerWheels × Option ℕ) := do
  if w.made ≤ timer then .error .null else
  let t := w.timers timer
  let wheel ← w.getWheel t.level_
  let l := wheel.slotVec_ t.slot_
  let w' := w.setSlot t.level_ t.slot_ (l.filter (· ≠ timer))
  match it with
  | none => .ok (w', none)
  | some pos =>
    if t.level_ = 0 ∧ t.slot_ = w.slotCur 0 then
      if l[pos]? = some timer then .error .iterator
      else .ok (w', some ((l.take pos).filter (· ≠ timer)).length)
    else .ok (w', some pos)

/-- `delAll` of one wheel. -/
def delAllWheel (wheel : TimerWheel) : TimerWheel :=
  { wheel with slotVec_ := fun i => if i < SlotNum then [] else wheel.slotVec_ i }

def delAll (w : TimerWheels) : TimerWheels :=
  { w with wheelVec_ := fun i =>
      if i < w.size then delAllWheel (w.wheelVec_ i) else w.wheelVec_ i }

end TimerWheels

end MuduoZ
