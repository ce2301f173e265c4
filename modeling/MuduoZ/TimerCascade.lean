import MuduoZ.TimerOnTime

/-!
When timers are sent to lower wheels.

`checkCurSlot` is called for every higher wheel in every tick, whether or not the wheel has just
turned. A timer stands at the cursor of a higher wheel only while the cursors of all wheels below
are at 0: a slot that the cursor comes to is emptied in the tick in which it comes there, and
nothing is put at a cursor but on the wheels below one that is emptied.
-/

namespace MuduoZ.TimerCascade

open Odometer Runs Slots TimerOnTime TimerRun TimerWheels

/-- With `checkCurSlot` of the wheels `i`, …, 1 still to come in `w`, that of wheel `l` is called
in `w'`. -/
inductive Checks : ℕ → TimerWheels → ℕ → TimerWheels → Prop
  | first {i : ℕ} {w : TimerWheels} : Checks (i + 1) w (i + 1) w
  | later {i l : ℕ} {w w₁ w' : TimerWheels} :
      checkCurSlot i w = .ok w₁ → Checks i w₁ l w' → Checks (i + 1) w l w'

/-- In a tick that begins in `w`, `addTimerToLower` of wheel `level` is called in `w'`: from the
loop of `checkCurSlot`, or from the wheel above. -/
inductive Lowers (w : TimerWheels) : TimerPtr → ℕ → TimerWheels → Prop
  | loop {l : ℕ} {w₁ w₂ : TimerWheels} {timer : TimerPtr} {pre rest : List TimerPtr} :
      Checks (w.size - 1) w (l + 1) w₁ →
      w₁.slots (l + 1, w₁.slotCur (l + 1)) = pre ++ timer :: rest →
      sendToLower l pre w₁ = .ok w₂ → Lowers w timer l w₂
  | next {level : ℕ} {w₁ : TimerWheels} {timer : TimerPtr} :
      Lowers w timer (level + 1) w₁ →
      (w₁.timers timer).tickNum_ % (w₁.wheelVec_ (level + 1)).TickNOneSlot = 0 →
      Lowers w timer level w₁

variable {due : TimerPtr → ℕ} {s : Sys} {n k l level : ℕ} {w w' : TimerWheels} {x : TimerPtr}
  {as : List Action}

/-! ### The wheels at each call -/

/-- Before each call every timer stands where it should. -/
lemma Checks.moved (h : Checks k w l w') (hk : k < 5) (hw : Shows n w)
    (hp : Placed due n w w.slots) : Moved due n w w' w.slots w'.slots ∧ 0 < l ∧ l < 5 := by
  induction h with
  | first => exact ⟨Moved.refl hw hp, Nat.succ_pos _, hk⟩
  | later h₁ _ ih =>
    obtain ⟨w₂, hok, hmoved, -⟩ := checkCurSlot_spec hk hw hp
    obtain rfl := Except.ok.inj (hok.symm.trans h₁)
    obtain ⟨hmoved', hl⟩ := ih (by omega) hmoved.shows hmoved.placed
    exact ⟨hmoved.trans hmoved', hl⟩

/-- What stands at a cursor stands there when the lower wheels have wrapped. -/
lemma wrapped_of_mem (hw : Shows n w) (hp : Placed due n w w.slots) (hl : l < 5)
    (hx : x ∈ w.slots (l, w.slotCur l)) : 60 ^ l ∣ n := by
  rw [hw.cursor l hl] at hx
  exact (hp.stands hx).now.1

lemma cursor_eq_zero (hw : Shows n w) (hl : l < 5) (hd : 60 ^ l ∣ n) {j : ℕ} (hj : j < l) :
    w.slotCur j = 0 := by
  rw [hw.cursor j (hj.trans hl), digit_eq_zero hd hj]

lemma Lowers.wrapped (h : Lowers w x level w') (hw : Shows n w) (hp : Placed due n w w.slots) :
    Shows n w' ∧ level + 1 < 5 ∧ 60 ^ (level + 1) ∣ n := by
  induction h with
  | loop hcheck hslot hsend =>
    obtain ⟨hmoved, -, hl⟩ := hcheck.moved (by rw [hw.size]; decide) hw hp
    have hmem := hslot ▸ List.mem_append_right _ List.mem_cons_self
    exact ⟨hmoved.shows.still (still_sendToLower hsend), hl,
      wrapped_of_mem hmoved.shows hmoved.placed hl hmem⟩
  | next _ _ ih =>
    obtain ⟨hw', hl, hd⟩ := ih
    exact ⟨hw', by omega, (Nat.pow_dvd_pow 60 (by omega)).trans hd⟩

/-! ### Every run -/

/-- Nothing stands at the cursor of a wheel above one that has not wrapped. -/
lemma empty_of_turned (h : Inv due s) (hl : 0 < l) (hl5 : l < 5)
    (hj : ∃ j < l, s.w.slotCur j ≠ 0) : s.w.slots (l, s.w.slotCur l) = [] := by
  rcases h with ⟨-, hc⟩ | ⟨a, x, b, hc⟩
  · by_contra hne
    obtain ⟨x, hx⟩ := List.exists_mem_of_ne_nil _ hne
    obtain ⟨j, hj, hcur⟩ := hj
    exact hcur (cursor_eq_zero hc.shows hl5 (wrapped_of_mem hc.shows hc.placed hl5 hx) hj)
  · rw [hc.core.shows.cursor l hl5]
    exact hc.higher l hl hl5

/-- A tick is about to begin. -/
lemma core_of_idle (h : Inv due s) (hit : s.it = none) : Core due s s.w.slots none := by
  rcases h with ⟨-, hc⟩ | ⟨a, x, b, hc⟩
  · exact hc
  · rw [hc.it] at hit; cases hit

/-- **Cascades happen only at wrapped lower wheels**, in whatever run. Where `checkCurSlot` finds a
timer the cursors of all wheels below are 0; so is that of the lowest wheel where
`addTimerToLower` inserts into it; and in every state of the run, the middle of a tick included,
nothing stands at the cursor of a wheel above one whose cursor is not 0. -/
theorem cascades_at_wraps (hs : exec step init as = .ok s) :
    (s.it = none → ∀ l w', Checks (s.w.size - 1) s.w l w' → w'.slots (l, w'.slotCur l) ≠ [] →
      ∀ j < l, w'.slotCur j = 0) ∧
    (s.it = none → ∀ timer w', Lowers s.w timer 0 w' → w'.slotCur 0 = 0) ∧
    ∀ l, 0 < l → l < s.w.size → (∃ j < l, s.w.slotCur j ≠ 0) →
      s.w.slots (l, s.w.slotCur l) = [] := by
  obtain ⟨due, hinv⟩ := exec_init hs
  have hsize := hinv.shows.size
  refine ⟨fun hit l w' hcheck hne j hj => ?_, fun hit timer w' hlow => ?_,
    fun l hl hl5 => empty_of_turned hinv hl (hsize ▸ hl5)⟩
  · have hc := core_of_idle hinv hit
    obtain ⟨hmoved, -, hl⟩ := hcheck.moved (by rw [hsize]; decide) hc.shows hc.placed
    obtain ⟨x, hx⟩ := List.exists_mem_of_ne_nil _ hne
    exact cursor_eq_zero hmoved.shows hl (wrapped_of_mem hmoved.shows hmoved.placed hl hx) hj
  · have hc := core_of_idle hinv hit
    obtain ⟨hw', -, hd⟩ := hlow.wrapped hc.shows hc.placed
    exact cursor_eq_zero hw' (by decide) hd Nat.zero_lt_one

/-- A timer of 60 ticks, at the tick in which it is sent down. -/
theorem cascades_at_wraps_one : ∃ s,
    exec step init (.addTimer 0 60000 0 :: List.replicate 60 .go) = .ok s ∧
    s.w.slots (1, s.w.slotCur 1) = [0] ∧
    (s.it = none → ∀ l w', Checks (s.w.size - 1) s.w l w' → w'.slots (l, w'.slotCur l) ≠ [] →
      ∀ j < l, w'.slotCur j = 0) ∧
    (s.it = none → ∀ timer w', Lowers s.w timer 0 w' → w'.slotCur 0 = 0) ∧
    ∀ l, 0 < l → l < s.w.size → (∃ j < l, s.w.slotCur j ≠ 0) →
      s.w.slots (l, s.w.slotCur l) = [] := by
  have hrun : (exec step init (.addTimer 0 60000 0 :: List.replicate 60 .go)).toOption.map
      (fun s => s.w.slots (1, s.w.slotCur 1)) = some [0] := by decide +kernel
  obtain ⟨s, hs, he⟩ := exec_of_map hrun
  exact ⟨s, hs, he, cascades_at_wraps hs⟩

end MuduoZ.TimerCascade
