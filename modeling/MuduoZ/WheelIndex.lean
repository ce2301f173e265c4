import MuduoZ.TimerCascade

/-!
The indices into the vectors of the timer wheels.

`addTimer` refuses more ticks than `TimerMax`, and so stays on the five wheels. A repeating timer
is placed anew by its interval, which nothing has looked at: from `SlotNum ^ 5` on it is given a
wheel that is not there.
-/

namespace MuduoZ.WheelIndex

open Function Odometer Runs Slots TimerCascade TimerOnTime TimerRun TimerWheels

/-- An index into `wheelVec_`, or into the `slotVec_` of a wheel. -/
inductive Index
  | wheel (i : ℕ)
  | slot (i : ℕ)
  deriving DecidableEq

/-- The indices that a step uses, whether or not it then goes through. -/
inductive Uses (s : Sys) : Action → Index → Prop
  -- `wheelVec_[pos.level]`, `wheelVec_[timer->getLevel()]` and `slotVec_[timer->getSlot()]`
  | addWheel {now expirationTime : ℤ} {interval ticks : ℕ} {pos : wheelPos} :
      timeDiffInMillSeconds now expirationTime = .ok ticks → ¬ ticks > TimerMax →
      calculatePosByTicks (if ticks = 0 then 1 else ticks) SlotNum = .ok pos →
      Uses s (.addTimer now expirationTime interval) (.wheel pos.level)
  | addSlot {now expirationTime : ℤ} {interval ticks : ℕ} {pos : wheelPos} :
      timeDiffInMillSeconds now expirationTime = .ok ticks → ¬ ticks > TimerMax →
      calculatePosByTicks (if ticks = 0 then 1 else ticks) SlotNum = .ok pos →
      Uses s (.addTimer now expirationTime interval)
        (.slot ((s.w.slotCur pos.level + pos.slotToAdd) % SlotNum))
  -- the same of `delTimer`, for a timer that `addTimer` returned
  | delWheel {timer : TimerPtr} : timer < s.w.made →
      Uses s (.delTimer timer) (.wheel (s.w.timers timer).level_)
  | delSlot {timer : TimerPtr} : timer < s.w.made →
      Uses s (.delTimer timer) (.slot (s.w.timers timer).slot_)
  -- `wheelVec_[i]->checkCurSlot()`, and `slotVec_[slotCur_]` in it
  | checkWheel {l : ℕ} {w' : TimerWheels} : s.it = none → Checks (s.w.size - 1) s.w l w' →
      Uses s .go (.wheel l)
  | checkSlot {l : ℕ} {w' : TimerWheels} : s.it = none → Checks (s.w.size - 1) s.w l w' →
      Uses s .go (.slot (w'.slotCur l))
  -- `getWheel(level_-1)->addTimerToLower(timer)`, and `slotVec_[slot]` in it
  | lowerWheel {timer : TimerPtr} {level : ℕ} {w' : TimerWheels} : s.it = none →
      Lowers s.w timer level w' → Uses s .go (.wheel level)
  | lowerSlot {timer : TimerPtr} {level : ℕ} {w' : TimerWheels} : s.it = none →
      Lowers s.w timer level w' →
      Uses s .go (.slot ((w'.slotCur level +
        (w'.timers timer).tickNum_ % (w'.wheelVec_ level).TickNOneSlot) % SlotNum))
  -- `wheelVec_[0]->runSlot()`, and `slotVec_[slotCur_]` in it
  | runWheel : Uses s .go (.wheel 0)
  | runSlot : Uses s .go (.slot (s.w.slotCur 0))
  -- `getWheel(pos.level)` after the callback of a repeating timer, and `slotVec_[timer->getSlot()]`
  | againWheel {timer : TimerPtr} {pos : wheelPos} : running s = some timer →
      repeats s timer = true →
      calculatePosByTicks (s.w.timers timer).interval_ SlotNum = .ok pos →
      Uses s .go (.wheel pos.level)
  | againSlot {timer : TimerPtr} {pos : wheelPos} : running s = some timer →
      repeats s timer = true →
      calculatePosByTicks (s.w.timers timer).interval_ SlotNum = .ok pos →
      Uses s .go (.slot ((s.w.slotCur pos.level + pos.slotToAdd) % SlotNum))
  -- `wheelVec_[i]->tick()`
  | tickWheel {i : ℕ} : i < s.w.size → Uses s .go (.wheel i)

def InRange (w : TimerWheels) : Index → Prop
  | .wheel i => i < w.size
  | .slot i => i < SlotNum

/-- All the indices of a step are in range. -/
def Safe (s : Sys) (act : Action) : Prop := ∀ i, Uses s act i → InRange s.w i

/-- The callback that returns is not that of a repeating timer whose interval no wheel has. -/
def Short (s : Sys) : Action → Prop
  | .go => ∀ timer, running s = some timer → repeats s timer = true →
      (s.w.timers timer).interval_ < SlotNum ^ 5
  | _ => True

/-- Every timer knows a slot. -/
def Slotted (w : TimerWheels) : Prop := ∀ x < w.made, (w.timers x).slot_ < SlotNum

variable {due : TimerPtr → ℕ} {s u : Sys} {n t : ℕ} {w w' : TimerWheels} {x : TimerPtr}
  {as : List Action} {act : Action}

/-! ### The slot that a timer knows -/

lemma slotFor_lt (n t : ℕ) : slotFor n t < SlotNum := Nat.mod_lt _ (by decide)

lemma slotted_arm (h : Slotted w) (harm : Armed n w w' x t)
    (hmade : ∀ y < w'.made, y ≠ x → y < w.made) : Slotted w' := by
  intro y hy
  rcases eq_or_ne y x with rfl | hne
  · rw [harm.slot]; exact slotFor_lt n t
  · rw [harm.others y hne]; exact h y (hmade y hy hne)

lemma slotted_runFrom {it : ℕ} (h : Slotted s.w) : Slotted (runFrom s it).w := by
  obtain ⟨ht, hm⟩ := runFrom_frame s it
  intro y hy
  rw [ht]
  exact h y (hm ▸ hy)

lemma slotted_step (hinv : Inv due s) (h : Slotted s.w) (hs : step s act = .ok u) :
    Slotted u.w := by
  cases act with
  | addTimer now expirationTime interval =>
    obtain ⟨⟨r, w'⟩, hadd, hs⟩ := bind_ok_iff.mp hs
    obtain rfl := Except.ok.inj hs
    rcases addTimer_spec hinv.shows hadd with ⟨-, rfl⟩ | ⟨t, -, -, hmade, -, harm⟩
    · exact h
    · refine slotted_arm h harm fun y hy hne => ?_
      rw [hmade] at hy
      exact Nat.lt_of_le_of_ne (Nat.le_of_lt_succ hy) hne
  | delTimer timer =>
    obtain ⟨-, rfl⟩ := delTimer_ok hinv hs
    exact h
  | go =>
    change goOn s = .ok u at hs
    rcases hinv with ⟨hit, hc⟩ | ⟨a, z, b, hc⟩
    · obtain ⟨w', b, hok, -, hmade, htimers, -⟩ := goOn_idle hit hc
      obtain rfl := Except.ok.inj (hok.symm.trans hs)
      refine slotted_runFrom (s := { s with w := w' }) fun y hy => ?_
      dsimp only at hy ⊢
      rw [htimers]
      exact h y (hmade ▸ hy)
    · obtain ⟨w', hw', rfl⟩ := hc.goOn_ok hs
      refine slotted_runFrom (s := { s with w := w' }) ?_
      rcases hc.afterCall_cases hw' with ⟨-, rfl⟩ | ⟨-, hmade, -, harm⟩
      · exact h
      · exact slotted_arm h harm fun y hy _ => hmade ▸ hy

lemma exec_slotted (hs : exec step init as = .ok s) : ∃ due, Inv due s ∧ Slotted s.w := by
  refine exec_inv (I := fun s => ∃ due, Inv due s ∧ Slotted s.w) ?_
    ⟨fun _ => 0, inv_init _, fun x hx => absurd hx (Nat.not_lt_zero x)⟩ hs
  rintro s act u ⟨due, hinv, h⟩ hu
  obtain ⟨due', hk⟩ := step_keeps hinv hu
  exact ⟨due', hk.inv, slotted_step hinv h hu⟩

/-! ### The indices of a step -/

/-- There is a wheel for the ticks. -/
lemma pos_iff (ht : 0 < t) {pos : wheelPos} (hpos : calculatePosByTicks t SlotNum = .ok pos) :
    pos.level < 5 ↔ t < SlotNum ^ 5 := by
  obtain rfl := Except.ok.inj ((calculatePosByTicks_eq ht).symm.trans hpos)
  refine ⟨fun h => ?_, topLevel_lt⟩
  have hlt : t < 60 ^ (topLevel t + 1) := Nat.lt_pow_succ_log_self (by norm_num) t
  exact hlt.trans_le (Nat.pow_le_pow_right (by norm_num) h)

lemma safe_of_short (hinv : Inv due s) (hslot : Slotted s.w) (h : Short s act) : Safe s act := by
  have hw := hinv.shows
  have hmod : ∀ a, a % SlotNum < SlotNum := fun a => Nat.mod_lt a (by decide)
  have hwheel : ∀ l < 5, InRange s.w (.wheel l) := fun l hl => by rwa [InRange, hw.size]
  have hcur : ∀ {w : TimerWheels}, Shows s.n w → ∀ l < 5, w.slotCur l < SlotNum :=
    fun hw l hl => by rw [hw.cursor l hl]; exact hmod _
  intro i hi
  cases hi with
  | addWheel hd hmax hpos =>
    refine hwheel _ ((pos_iff ?_ hpos).mpr (lt_of_le_max ?_))
    · split <;> omega
    · unfold TimerMax at *; split <;> omega
  | addSlot hd hmax hpos => exact hmod _
  | delWheel hx => exact hwheel _ (hinv.levels _ hx)
  | delSlot hx => exact hslot _ hx
  | checkWheel hit hc =>
    have hcore := core_of_idle hinv hit
    exact hwheel _ (hc.moved (by rw [hw.size]; decide) hw hcore.placed).2.2
  | checkSlot hit hc =>
    have hcore := core_of_idle hinv hit
    obtain ⟨hmoved, -, hl⟩ := hc.moved (by rw [hw.size]; decide) hw hcore.placed
    exact hcur hmoved.shows _ hl
  | lowerWheel hit hl =>
    have := (hl.wrapped hw (core_of_idle hinv hit).placed).2.1
    exact hwheel _ (by omega)
  | lowerSlot hit hl => exact hmod _
  | runWheel => exact hwheel 0 (by decide)
  | runSlot => exact hcur hw 0 (by decide)
  | againWheel hrun hr hpos =>
    exact hwheel _ ((pos_iff (interval_pos hr) hpos).mpr (h _ hrun hr))
  | againSlot hrun hr hpos => exact hmod _
  | tickWheel hi => exact hi

lemma short_of_safe (hinv : Inv due s) (h : Safe s act) : Short s act := by
  cases act with
  | addTimer now expirationTime interval => trivial
  | delTimer timer => trivial
  | go =>
    intro x hrun hr
    have hpos := calculatePosByTicks_eq (interval_pos hr)
    have hlt : topLevel (s.w.timers x).interval_ < s.w.size := h _ (.againWheel hrun hr hpos)
    exact (pos_iff (interval_pos hr) hpos).mp (hinv.shows.size ▸ hlt)

/-- **Every index of a run is in range exactly when no callback returns of a timer that repeats
after `SlotNum ^ 5` ticks or more.** -/
theorem safe_iff (as : List Action) : Asks step Safe init as ↔ Asks step Short init as := by
  refine forall_congr' fun pre => forall_congr' fun act => forall₂_congr fun post s =>
    forall₂_congr fun _ hs => ?_
  obtain ⟨due, hinv, hslot⟩ := exec_slotted hs
  exact ⟨short_of_safe hinv, safe_of_short hinv hslot⟩

/-- A timer that repeats after `SlotNum ^ 5` ticks is placed on wheel 5. -/
theorem sixth_wheel : ¬ ∀ as, Asks step Safe init as := by
  intro h
  have hrun : (exec step init [.addTimer 0 1000 777600000, .go, .go]).toOption.map
      (fun s => (running s, repeats s 0, (s.w.timers 0).interval_, s.w.size)) =
      some (some 0, true, 777600000, 5) := by decide +kernel
  obtain ⟨s, hs, he⟩ := exec_of_map hrun
  simp only [Prod.mk.injEq] at he
  obtain ⟨hr, hrep, hint, hsize⟩ := he
  have hpos : calculatePosByTicks (s.w.timers 0).interval_ SlotNum = .ok ⟨1, 5⟩ := by
    rw [hint]; decide +kernel
  have hlt : 5 < s.w.size :=
    h [.addTimer 0 1000 777600000, .go, .go, .go] [.addTimer 0 1000 777600000, .go, .go] .go []
      s rfl hs _ (.againWheel hr hrep hpos)
  rw [hsize] at hlt
  exact absurd hlt (by decide)

end MuduoZ.WheelIndex
