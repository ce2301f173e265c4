import MuduoZ.TimerRun

/-!
Timers added by several threads.

`addTimer` reads the cursor of a wheel and computes a slot before it takes the lock, and `tick` does
not take the lock at all. The timer goes to the slot that was right at the read.
-/

namespace MuduoZ.TimerInsert

open Function Odometer Runs Slots TimerRun TimerWheels

/-! ### The two parts of `addTimer` -/

/-- `addTimer` in front of the lock: where the timer is to go, and the timer. -/
def prepare (w : TimerWheels) (now expirationTime : ℤ) (interval : ℕ) :
    Result (Option (wheelPos × Timer)) := do
  let ticks ← timeDiffInMillSeconds now expirationTime
  if ticks > TimerMax then .ok none else
  let ticks := if ticks = 0 then 1 else ticks
  let pos ← calculatePosByTicks ticks SlotNum
  let wheel ← w.getWheel pos.level
  let slot := (wheel.slotCur_ + pos.slotToAdd) % SlotNum
  .ok (some (pos, .new ticks slot pos.level interval))

/-- `addTimer` under the lock. -/
def commit (w : TimerWheels) (t : Timer) : Result (TimerPtr × TimerWheels) := do
  let timer := w.made
  let w := { w.setTimer timer t with made := timer + 1 }
  .ok (timer, ← w.addToWheel (w.timers timer).level_ timer)

/-- **`addTimer` is its two parts** when nothing comes between them. -/
theorem addTimer_eq (w : TimerWheels) (now expirationTime : ℤ) (interval : ℕ) :
    w.addTimer now expirationTime interval = (do
      match ← prepare w now expirationTime interval with
      | none => .ok (none, w)
      | some (_, t) => do
        let (timer, w) ← commit w t
        .ok (some timer, w)) := by
  unfold addTimer prepare commit
  cases timeDiffInMillSeconds now expirationTime with
  | error e => rfl
  | ok ticks =>
    by_cases hmax : ticks > TimerMax
    · simp only [bind, Except.bind, if_pos hmax]
    · simp only [bind, Except.bind, if_neg hmax]
      cases calculatePosByTicks (if ticks = 0 then 1 else ticks) SlotNum with
      | error e => rfl
      | ok pos =>
        dsimp only
        cases w.getWheel pos.level with
        | error e => rfl
        | ok wheel =>
          dsimp only
          split <;> simp_all

/-! ### The system -/

/-- A call of `addTimer` that waits for the lock, and the tick of its read. -/
structure Call where
  pos : wheelPos
  timer : Timer
  read : ℕ

/-- A timer was pushed on a slot, with the cursor of its wheel there. -/
structure Push where
  pos : wheelPos
  slot : ℕ
  cursor : ℕ
  deriving DecidableEq

structure Sys where
  wheels : TimerRun.Sys
  calls : List Call
  pushes : List Push

inductive Action
  | read (now expirationTime : ℤ) (interval : ℕ)
  | push (i : ℕ)
  | delTimer (timer : TimerPtr)
  | go

def start : Sys := ⟨init, [], []⟩

/-- The first part of an `addTimer`, the second part of one of those that wait, `delTimer`, or the
next part of a tick. -/
def step (s : Sys) : Action → Result Sys
  | .read now expirationTime interval => do
    match ← prepare s.wheels.w now expirationTime interval with
    | none => .ok s
    | some (pos, timer) => .ok { s with calls := s.calls ++ [⟨pos, timer, s.wheels.n⟩] }
  | .push i => match s.calls[i]? with
    | none => .ok s
    | some c => do
      let (timer, w) ← commit s.wheels.w c.timer
      .ok {
        wheels := { s.wheels with w := w, added := s.wheels.added ++ [(timer, s.wheels.n)] }
        calls := s.calls.eraseIdx i
        pushes := s.pushes ++
          [⟨c.pos, (w.timers timer).slot_, s.wheels.w.slotCur (w.timers timer).level_⟩] }
  | .delTimer timer => do .ok { s with wheels := ← TimerRun.step s.wheels (.delTimer timer) }
  | .go => do .ok { s with wheels := ← TimerRun.step s.wheels .go }

/-- The timer was pushed as far in front of the cursor as was computed, and not on the slot the
cursor stands on. -/
def Push.Right (p : Push) : Prop :=
  p.slot = (p.cursor + p.pos.slotToAdd) % SlotNum ∧ p.slot ≠ p.cursor

def Atomic (s : Sys) : Prop := ∀ p ∈ s.pushes, p.Right

/-- Since the read the wheel has not moved, or has turned round and round. -/
def Unmoved (s : Sys) : Action → Prop
  | .push i => ∀ c ∈ s.calls[i]?,
    s.wheels.n / SlotNum ^ c.pos.level ≡ c.read / SlotNum ^ c.pos.level [MOD SlotNum]
  | _ => True

/-! ### The cursors -/

variable {n : ℕ} {w w' : TimerWheels}

/-- **The cursors show the ticks**, wherever the timers are. -/
lemma goOn_shows {s u : TimerRun.Sys} (h : Shows s.n s.w) (hs : goOn s = .ok u) :
    Shows u.n u.w := by
  rcases goOn_cursors hs with ⟨hn, hw⟩ | ⟨hn, w, hw, hu⟩
  · rw [hn]; exact h.still hw
  · rw [hn, hu]; exact advance_shows (h.still hw)

/-- What is read and computed in front of the lock. -/
lemma prepare_spec {now expirationTime : ℤ} {interval : ℕ} {pos : wheelPos} {t : Timer}
    (h : Shows n w) (hp : prepare w now expirationTime interval = .ok (some (pos, t))) :
    pos.level < 5 ∧ 0 < pos.slotToAdd ∧ pos.slotToAdd < 60 ∧ t.level_ = pos.level ∧
      t.slot_ = (n / 60 ^ pos.level % 60 + pos.slotToAdd) % 60 := by
  simp only [prepare, bind_ok_iff] at hp
  obtain ⟨ticks, -, hp⟩ := hp
  split at hp
  · cases hp
  · have hpos : 0 < if ticks = 0 then 1 else ticks := by split <;> omega
    simp only [bind_ok_iff, calculatePosByTicks_eq hpos, Except.ok.injEq] at hp
    obtain ⟨pos, rfl, v, hv, hp⟩ := hp
    obtain ⟨rfl, rfl⟩ := Prod.mk.inj (Option.some.inj hp)
    obtain ⟨hlevel, rfl⟩ := getWheel_ok hv
    rw [h.size] at hlevel
    refine ⟨hlevel, slotToAdd_pos hpos, slotToAdd_lt, rfl, ?_⟩
    have hcur := h.cursor _ hlevel
    simp only [slotCur] at hcur
    simp only [Timer.new, hcur, SlotNum]

/-- The timer stands at the end of its slot. -/
lemma commit_spec {t : Timer} {timer : TimerPtr} (h : Shows n w)
    (hc : commit w t = .ok (timer, w')) :
    Shows n w' ∧ w'.timers timer = t ∧ w'.slots = put w.slots (t.level_, t.slot_) timer := by
  obtain ⟨w₁, hw₁, hc⟩ := bind_ok_iff.mp hc
  obtain ⟨rfl, rfl⟩ := Prod.mk.inj (Except.ok.inj hc)
  have hT : update w.timers w.made t w.made = t := update_self ..
  simp only [addToWheel, setTimer, hT] at hw₁
  obtain ⟨v, -, hw₁⟩ := bind_ok_iff.mp hw₁
  obtain rfl := Except.ok.inj hw₁
  have hshows : Shows n { w.setTimer w.made t with made := w.made + 1 } :=
    ⟨h.size, h.unit, h.cursor⟩
  exact ⟨hshows.setSlot, hT, slots_push⟩

/-! ### The run -/

structure Inv (s : Sys) : Prop where
  shows : Shows s.wheels.n s.wheels.w
  calls : ∀ c ∈ s.calls, c.pos.level < 5 ∧ 0 < c.pos.slotToAdd ∧ c.pos.slotToAdd < 60 ∧
    c.timer.level_ = c.pos.level ∧
    c.timer.slot_ = (c.read / 60 ^ c.pos.level % 60 + c.pos.slotToAdd) % 60
  pushes : Atomic s

lemma start_inv : Inv start := ⟨shows_new, by simp [start], by simp [Atomic, start]⟩

/-- A timer stands as far in front of the cursor as was computed when the cursor is where it was
read. -/
lemma right_iff {c : Call} {cursor : ℕ} (hc : 0 < c.pos.slotToAdd ∧ c.pos.slotToAdd < 60)
    (hslot : c.timer.slot_ = (c.read / 60 ^ c.pos.level % 60 + c.pos.slotToAdd) % 60)
    (hcur : cursor = n / 60 ^ c.pos.level % 60) :
    Push.Right ⟨c.pos, c.timer.slot_, cursor⟩ ↔
      n / 60 ^ c.pos.level ≡ c.read / 60 ^ c.pos.level [MOD 60] := by
  unfold Push.Right Nat.ModEq SlotNum
  dsimp only
  omega

/-- What a push does. -/
lemma push_spec {s u : Sys} {i : ℕ} {c : Call} (h : Inv s) (hi : s.calls[i]? = some c)
    (hs : step s (.push i) = .ok u) : Shows u.wheels.n u.wheels.w ∧ u.calls.Sublist s.calls ∧
      ∃ (timer : TimerPtr) (p : Push), u.pushes = s.pushes ++ [p] ∧
        u.wheels.w.slots = put s.wheels.w.slots (c.pos.level, p.slot) timer ∧
        (p.Right ↔ Unmoved s (.push i)) := by
  obtain ⟨hl, hpos, hlt, hlevel, hslot⟩ := h.calls c (List.mem_of_getElem? hi)
  simp only [step, hi] at hs
  obtain ⟨⟨timer, w'⟩, hc, hs⟩ := bind_ok_iff.mp hs
  obtain rfl := Except.ok.inj hs
  obtain ⟨hshows, hT, hslots⟩ := commit_spec h.shows hc
  refine ⟨hshows, List.eraseIdx_sublist _ _, timer, _, rfl, ?_, ?_⟩
  · rw [hslots, ← hlevel, ← hT]
  · dsimp only
    rw [hT, hlevel, right_iff ⟨hpos, hlt⟩ hslot (h.shows.cursor _ hl)]
    simp [Unmoved, hi, SlotNum]

lemma step_inv (s : Sys) (a : Action) (u : Sys) (h : Inv s) (ha : Unmoved s a)
    (hs : step s a = .ok u) : Inv u := by
  cases a with
  | read now expirationTime interval =>
    obtain ⟨r, hr, hs⟩ := bind_ok_iff.mp hs
    rcases r with - | ⟨pos, t⟩
    · obtain rfl := Except.ok.inj hs
      exact h
    · obtain rfl := Except.ok.inj hs
      refine ⟨h.shows, fun c hc => ?_, h.pushes⟩
      rcases List.mem_append.mp hc with hc | hc
      · exact h.calls c hc
      · obtain rfl := List.mem_singleton.mp hc
        exact prepare_spec h.shows hr
  | push i =>
    cases hi : s.calls[i]? with
    | none =>
      simp only [step, hi] at hs
      obtain rfl := Except.ok.inj hs
      exact h
    | some c =>
      obtain ⟨hshows, hcalls, -, p, hpushes, -, hright⟩ := push_spec h hi hs
      refine ⟨hshows, fun d hd => h.calls d (hcalls.subset hd), fun q hq => ?_⟩
      rw [hpushes] at hq
      rcases List.mem_append.mp hq with hq | hq
      · exact h.pushes q hq
      · obtain rfl := List.mem_singleton.mp hq
        exact hright.mpr ha
  | delTimer timer =>
    obtain ⟨v, hv, hs⟩ := bind_ok_iff.mp hs
    obtain rfl := Except.ok.inj hs
    obtain ⟨⟨w', it'⟩, hw', hv⟩ := bind_ok_iff.mp hv
    obtain rfl := Except.ok.inj hv
    exact ⟨h.shows.still (still_delTimer hw'), h.calls, h.pushes⟩
  | go =>
    obtain ⟨v, hv, hs⟩ := bind_ok_iff.mp hs
    obtain rfl := Except.ok.inj hs
    exact ⟨goOn_shows h.shows hv, h.calls, h.pushes⟩

lemma step_broken (s : Sys) (a : Action) (u : Sys) (h : Inv s) (ha : ¬ Unmoved s a)
    (hs : step s a = .ok u) : ¬ Atomic u := by
  cases a with
  | push i =>
    cases hi : s.calls[i]? with
    | none => exact absurd (by simp [Unmoved, hi]) ha
    | some c =>
      obtain ⟨-, -, -, p, hpushes, -, hright⟩ := push_spec h hi hs
      intro hatomic
      exact ha (hright.mp (hatomic p (by rw [hpushes]; simp)))
  | _ => exact absurd trivial ha

/-- **Insertions are atomic exactly when between the read and the push of each the wheel does not
move**, but for whole turns. -/
theorem atomic_iff (as : List Action) :
    Along step Atomic start as ↔ Each step Unmoved start as :=
  along_iff_each step_inv (fun _ => Inv.pushes) step_broken start_inv

/-- A tick comes between the two parts of an insertion. -/
def tickBetween : List Action := [.read 0 1000 0, .go, .push 0]

/-- A timer of one tick is put into the slot the cursor has come to in between. -/
theorem pushed_at_cursor : ¬ Along step Atomic start tickBetween := by
  intro h
  have hrun : (exec step start tickBetween).toOption.map Sys.pushes = some [⟨⟨1, 0⟩, 1, 1⟩] := by
    decide +kernel
  obtain ⟨u, hu, hpushes⟩ := exec_of_map hrun
  have hright := h.last hu ⟨⟨1, 0⟩, 1, 1⟩ (by rw [hpushes]; simp)
  exact hright.2 rfl

end MuduoZ.TimerInsert
