import MuduoZ.TimerCascade
import MuduoZ.TimerKept

/-!
Whether a timer that is sent down keeps what remains of its ticks.

A timer found at the cursor of wheel `l` has still to wait for its ticks modulo `SlotNum ^ l`.
`TickNOneSlot` is the number of ticks of a whole turn of its wheel, not of one slot, and what is
left of the ticks modulo it is not divided: on each lower wheel the timer stands for its units.
-/

namespace MuduoZ.TimerRemaining

open Function Odometer Runs Slots TimerCascade TimerKept TimerOnTime TimerRun TimerWheels

/-- The timers that the slots hold for a tick to come, or for the rest of this one. -/
def held (s : Sys) : ℕ × ℕ → List TimerPtr :=
  match s.it with
  | none => s.w.slots
  | some it => hole s (s.w.curSlot.drop (it + 1))

/-- `x` waits in a slot. -/
structure Waits (due : TimerPtr → ℕ) (s : Sys) (x : TimerPtr) : Prop where
  inv : Inv due s
  held : In (held s) x

/-- The tick at which `x` is run next, as seen in a later state. -/
def nextRun (s u : Sys) (x : TimerPtr) : Option ℕ := ((runs u x).drop (runs s x).length).head?

variable {due : TimerPtr → ℕ} {s u : Sys} {x y z : TimerPtr} {a b : List TimerPtr}
  {as bs : List Action} {l t n : ℕ} {w w' : TimerWheels}

/-! ### One step -/

lemma held_idle (h : s.it = none) : held s = s.w.slots := by rw [held, h]

lemma held_calling (h : Calling due s a z b) : held s = hole s b := by
  have hdrop : (a ++ z :: b).drop (a.length + 1) = b := by
    rw [← List.drop_drop, List.drop_left]
    rfl
  rw [held, h.it]
  dsimp only
  rw [h.curSlot_eq, hdrop]

lemma Waits.stands (h : Waits due s x) : ∃ i, Stands due s.n s.w i x := by
  obtain ⟨⟨hit, hc⟩ | ⟨a, z, b, hc⟩, i, hi⟩ := h
  · rw [held_idle hit] at hi
    exact ⟨i, hc.placed.stands hi⟩
  · rw [held_calling hc] at hi
    exact ⟨i, hc.core.placed.stands hi⟩

/-- The tick goes on: `x` is run now, or waits as before. -/
lemma runFrom_waits (h : Pass due s a b b none) (hx : In (hole s b) x) :
    (Waits due (runFrom s a.length) x ∧ runs (runFrom s a.length) x = runs s x) ∨
      (runs (runFrom s a.length) x = runs s x ++ [due x]) := by
  have hinv := runFrom_inv h
  rw [runFrom, h.curSlot_eq, List.drop_left] at hinv ⊢
  cases b with
  | nil =>
    refine .inl ⟨⟨hinv, ?_⟩, rfl⟩
    rw [held_idle rfl]
    change In (advance s.w.size 0 (s.w.setSlot 0 (s.w.slotCur 0) [])).slots x
    rw [(advance_frame _ _ _).1, slots_setSlot, cursor_zero h.core.shows]
    exact hx
  | cons y b =>
    have hlevel : (s.w.timers y).level_ = 0 := h.core.placed.take.2.2.level
    rw [nextCall, if_pos hlevel] at hinv ⊢
    dsimp only at hinv ⊢
    rw [runs_call]
    rcases eq_or_ne y x with rfl | hne
    · exact .inr (by rw [if_pos rfl, h.core.placed.take.2.2.due_now])
    · refine .inl ⟨⟨hinv, ?_⟩, by rw [if_neg hne, List.append_nil]⟩
      rw [held_calling h.call]
      exact (in_take_iff.mp hx).resolve_left hne.symm

/-- The callback returns: the others wait as before. -/
lemma after_waits (h : Calling due s a z b) (hx : In (hole s b) x)
    (hw' : s.w.afterCall z = .ok w') : In (hole { s with w := w' } b) x := by
  rcases h.afterCall_cases hw' with ⟨-, rfl⟩ | ⟨-, -, -, harm⟩
  · exact hx
  · rw [hole_arm harm, in_put_iff]
    exact .inl hx

lemma goOn_waits (h : Waits due s x) (hs : goOn s = .ok u) :
    (∃ due', Waits due' u x ∧ due' x = due x ∧ runs u x = runs s x) ∨
      runs u x = runs s x ++ [due x] := by
  obtain ⟨⟨hit, hc⟩ | ⟨a, z, b, hc⟩, hx⟩ := h
  · obtain ⟨w', b, hok, hpass, -, -, hheld⟩ := goOn_idle hit hc
    obtain rfl := Except.ok.inj (hok.symm.trans hs)
    have hslot : w'.slots (0, s.n % 60) = b := hpass.slot
    have hview : hole { s with w := w' } b = w'.slots := by
      rw [hole, ← hslot]
      exact update_eq_self ..
    rw [held_idle hit] at hx
    have hx' : In (hole { s with w := w' } b) x := by rw [hview]; exact (hheld x).mpr hx
    rcases runFrom_waits hpass hx' with ⟨hwait, hruns⟩ | hruns
    exacts [.inl ⟨due, hwait, rfl, hruns⟩, .inr hruns]
  · rw [held_calling hc] at hx
    obtain ⟨w', hw', rfl⟩ := hc.goOn_ok hs
    obtain ⟨due', hpass, -, -, -, hother, -⟩ := hc.after hw'
    have hxz : x ≠ z := by rintro rfl; exact hc.out hx
    rcases runFrom_waits hpass (after_waits hc hx hw') with ⟨hwait, hruns⟩ | hruns
    · exact .inl ⟨due', hwait, hother x hxz, hruns⟩
    · exact .inr (by rw [← hother x hxz]; exact hruns)

lemma addTimer_waits {now expirationTime : ℤ} {interval : ℕ} (h : Waits due s x)
    (hs : step s (.addTimer now expirationTime interval) = .ok u) :
    ∃ due', Waits due' u x ∧ due' x = due x ∧ runs u x = runs s x := by
  obtain ⟨i, hst⟩ := h.stands
  obtain ⟨hinv, hx⟩ := h
  obtain ⟨due', hk, hold, -⟩ := addTimer_keeps hinv hs
  obtain ⟨⟨r, w'⟩, hadd, hs⟩ := bind_ok_iff.mp hs
  obtain rfl := Except.ok.inj hs
  refine ⟨due', ⟨hk.inv, ?_⟩, hold x hst.made, rfl⟩
  rcases addTimer_spec hinv.shows hadd with ⟨-, rfl⟩ | ⟨t, -, -, -, -, harm⟩
  · exact hx
  · rw [held] at hx ⊢
    dsimp only
    cases hit : s.it with
    | none =>
      rw [hit] at hx
      change In w'.slots x
      rw [harm.slots, in_put_iff]
      exact .inl hx
    | some it =>
      rw [hit] at hx
      change In (hole { s with w := w', added := s.added } (w'.curSlot.drop (it + 1))) x
      rw [curSlot_arm hinv.shows harm, hole_arm harm, in_put_iff]
      exact .inl hx

lemma delTimer_waits (h : Waits due s x) (hy : y ≠ x) (hs : step s (.delTimer y) = .ok u) :
    Waits due u x ∧ runs u x = runs s x := by
  obtain ⟨hinv, hx⟩ := h
  have hk := (delTimer_keeps hinv hs).1.inv
  obtain ⟨hne, rfl⟩ := delTimer_ok hinv hs
  refine ⟨⟨hk, ?_⟩, rfl⟩
  rcases hinv with ⟨hit, -⟩ | ⟨a, z, b, hc⟩
  · rw [held_idle hit] at hx
    rw [held_idle (by rw [delete, hit]; rfl)]
    change In (s.w.without y).slots x
    rw [slots_without]
    exact in_remove hy.symm hx
  · rw [held_calling hc] at hx
    obtain ⟨a', b', hc', hview⟩ := hc.without_hole y fun ht he => hne ⟨ht, he ▸ hc.running⟩
    rw [held_calling hc', hview]
    exact in_remove hy.symm hx

/-- **A timer that waits** is run at the tick at which it is due, or still waits for it. -/
lemma step_waits {act : Action} (h : Waits due s x) (hd : act ≠ .delTimer x)
    (hs : step s act = .ok u) :
    (∃ due', Waits due' u x ∧ due' x = due x ∧ runs u x = runs s x) ∨
      runs u x = runs s x ++ [due x] := by
  cases act with
  | addTimer now expirationTime interval => exact .inl (addTimer_waits h hs)
  | delTimer y =>
    obtain ⟨h', hruns⟩ := delTimer_waits h (fun he => hd (congrArg Action.delTimer he)) hs
    exact .inl ⟨due, h', rfl, hruns⟩
  | go => exact goOn_waits h hs

/-! ### The run -/

lemma runFrom_runs_le (s : Sys) (it : ℕ) (x : TimerPtr) :
    runs s x <+: runs (runFrom s it) x := by
  rw [runFrom]
  split
  · rw [runs_call]; exact List.prefix_append _ _
  · exact List.prefix_rfl

/-- What has run has run. -/
lemma step_runs {act : Action} (hs : step s act = .ok u) : runs s x <+: runs u x := by
  cases act with
  | addTimer now expirationTime interval =>
    obtain ⟨r, -, hs⟩ := bind_ok_iff.mp hs
    obtain rfl := Except.ok.inj hs
    exact List.prefix_rfl
  | delTimer timer =>
    obtain ⟨r, -, hs⟩ := bind_ok_iff.mp hs
    obtain rfl := Except.ok.inj hs
    exact List.prefix_rfl
  | go =>
    change goOn s = .ok u at hs
    unfold goOn at hs
    split at hs
    · obtain ⟨w, -, hs⟩ := bind_ok_iff.mp hs
      obtain rfl := Except.ok.inj hs
      exact runFrom_runs_le { s with w := w } _ x
    · split at hs
      · cases hs
      · obtain ⟨w, -, hs⟩ := bind_ok_iff.mp hs
        obtain rfl := Except.ok.inj hs
        exact runFrom_runs_le { s with w := w } _ x

lemma exec_waits (h : Waits due s x) (hd : Action.delTimer x ∉ bs)
    (hu : exec step s bs = .ok u) :
    (∃ due', Waits due' u x ∧ due' x = due x ∧ runs u x = runs s x) ∨
      runs s x ++ [due x] <+: runs u x := by
  induction bs generalizing s due with
  | nil =>
    obtain rfl := Except.ok.inj hu
    exact .inl ⟨due, h, rfl, rfl⟩
  | cons act bs ih =>
    obtain ⟨v, hv, hu⟩ := (exec_cons_iff step).mp hu
    obtain ⟨hact, hbs⟩ := not_or.mp (mt List.mem_cons.mpr hd)
    rcases step_waits h (Ne.symm hact) hv with ⟨due', h', hdue, hruns⟩ | hruns
    · rw [← hdue, ← hruns]
      exact ih h' hbs hu
    · refine .inr (hruns ▸ ?_)
      exact exec_inv (I := fun u => runs v x <+: runs u x)
        (fun _ _ _ hp hstep => hp.trans (step_runs hstep)) List.prefix_rfl hu

/-- It is run next at that tick, and not at another. -/
lemma Waits.nextRun_iff (h : Waits due s x) (hd : Action.delTimer x ∉ bs)
    (hu : exec step s bs = .ok u) {m : ℕ} (hm : m < u.n) :
    nextRun s u x = some m ↔ due x = m := by
  rcases exec_waits h hd hu with ⟨due', h', hdue, hruns⟩ | ⟨later, hruns⟩
  · obtain ⟨i, hst⟩ := h'.stands
    have hle := hst.le_due
    rw [nextRun, hruns, List.drop_length, ← hdue]
    exact ⟨fun he => absurd he (by simp), fun he => by omega⟩
  · rw [nextRun, ← hruns, List.append_assoc, List.drop_left]
    exact ⟨Option.some.inj, congrArg some⟩

/-! ### A timer sent down -/

/-- When a timer that is found at a cursor is due. -/
lemma waits_of_checks (hinv : Inv due s) (hit : s.it = none)
    (hcheck : Checks (s.w.size - 1) s.w l w') (hx : x ∈ w'.slots (l, w'.slotCur l)) :
    Waits due s x ∧ due x = s.n + (w'.timers x).tickNum_ % 60 * ones 60 l := by
  have hc := core_of_idle hinv hit
  obtain ⟨hmoved, -, hl⟩ := hcheck.moved (by rw [hc.shows.size]; decide) hc.shows hc.placed
  have hst := hmoved.placed.stands hx
  rw [hmoved.shows.cursor l hl] at hst
  refine ⟨⟨hinv, ?_⟩, hst.now.2⟩
  rw [held_idle hit]
  exact (hmoved.held x).mp ⟨_, hx⟩

/-- It waits for its units on every wheel below. -/
lemma nextRun_sent (hinv : Inv due s) (hit : s.it = none)
    (hcheck : Checks (s.w.size - 1) s.w l w') (hx : x ∈ w'.slots (l, w'.slotCur l))
    (hu : exec step s (.go :: bs) = .ok u) (hd : Action.delTimer x ∉ bs) {k : ℕ}
    (hn : s.n + k < u.n) :
    nextRun s u x = some (s.n + k) ↔ (w'.timers x).tickNum_ % 60 * ones 60 l = k := by
  obtain ⟨hwait, hdue⟩ := waits_of_checks hinv hit hcheck hx
  rw [hwait.nextRun_iff (by simpa using hd) hu hn, hdue, Nat.add_left_cancel_iff]

/-- **A timer that is sent down keeps what remains of its ticks exactly when its digits in base
`SlotNum` are all the same below the wheel it comes from**, in whatever run. Ticks are numbered from
0, so that the one in which it is found is tick `s.n`. -/
theorem remaining_iff (hs : exec step init as = .ok s) (hit : s.it = none)
    (hcheck : Checks (s.w.size - 1) s.w l w') (hx : x ∈ w'.slots (l, w'.slotCur l))
    (ht : (w'.timers x).tickNum_ = t) (hu : exec step s (.go :: bs) = .ok u)
    (hd : Action.delTimer x ∉ bs) (hn : s.n + t % SlotNum ^ l < u.n) :
    nextRun s u x = some (s.n + t % SlotNum ^ l) ↔
      ∀ i < l, t / SlotNum ^ i % SlotNum = t % SlotNum := by
  obtain ⟨due, hinv⟩ := exec_init hs
  rw [nextRun_sent hinv hit hcheck hx hu hd hn, ht]
  exact mul_ones_eq_iff (Nat.mod_lt _ (by norm_num))

/-- A timer of a minute is found at the cursor of wheel 1 at tick 60. -/
theorem remaining_iff_minute : ∃ (s u : Sys) (w' : TimerWheels),
    exec step init (.addTimer 0 60000 0 :: List.replicate 60 .go) = .ok s ∧
    exec step s [.go, .go, .go] = .ok u ∧ 0 ∈ w'.slots (1, w'.slotCur 1) ∧
    (nextRun s u 0 = some (s.n + 60 % SlotNum ^ 1) ↔
      ∀ i < 1, 60 / SlotNum ^ i % SlotNum = 60 % SlotNum) := by
  have hrun : (exec step init (.addTimer 0 60000 0 :: List.replicate 60 .go)).toOption.map
      (fun s => ((checkCurSlot 3 s.w >>= checkCurSlot 2 >>= checkCurSlot 1).toOption.map
        (fun w => (w.slots (1, w.slotCur 1), (w.timers 0).tickNum_)),
        (exec step s [.go, .go, .go]).toOption.map Sys.n, s.n, s.it, s.w.size)) =
      some (some ([0], 60), some 62, 60, none, 5) := by decide +kernel
  obtain ⟨s, hs, he⟩ := exec_of_map hrun
  simp only [Prod.mk.injEq] at he
  obtain ⟨hw, hu, hn, hit, hsize⟩ := he
  obtain ⟨u, hu, hun⟩ := exec_of_map hu
  cases h : checkCurSlot 3 s.w >>= checkCurSlot 2 >>= checkCurSlot 1 with
  | error e => rw [h] at hw; cases hw
  | ok w' =>
    rw [h] at hw
    obtain ⟨hslot, ht⟩ := Prod.mk.inj (Option.some.inj hw)
    obtain ⟨w₂, h₂, h₁⟩ := bind_ok_iff.mp h
    obtain ⟨w₃, h₃, h₂⟩ := bind_ok_iff.mp h₂
    have hcheck : Checks (s.w.size - 1) s.w 1 w' := by
      rw [hsize]
      exact .later h₃ (.later h₂ (.later h₁ .first))
    have hx : 0 ∈ w'.slots (1, w'.slotCur 1) := by rw [hslot]; simp
    exact ⟨s, u, w', hs, hu, hx, remaining_iff hs hit hcheck hx ht hu (by simp)
      (by rw [hn, hun]; decide)⟩

/-! ### Ticks in which nothing happens -/

lemma checkCurSlot_quiet {k : ℕ} (hk : k + 1 < 5) (hw : Shows n w)
    (h : w.slots (k + 1, n / 60 ^ (k + 1) % 60) = []) :
    ∃ w', checkCurSlot k w = .ok w' ∧ Shows n w' ∧ w'.slots = w.slots ∧ w'.timers = w.timers := by
  have hcur : (w.wheelVec_ (k + 1)).slotCur_ = n / 60 ^ (k + 1) % 60 := hw.cursor _ hk
  refine ⟨w.setSlot (k + 1) (n / 60 ^ (k + 1) % 60) [], ?_, hw.setSlot, ?_, rfl⟩
  · simp only [slots] at h
    rw [checkCurSlot, hw.getWheel hk]
    simp only [ok_bind, hcur, h, sendToLower]
  · rw [slots_setSlot, ← h]
    exact update_eq_self ..

lemma checkCurSlots_quiet {k : ℕ} (hk : k < 5) (hw : Shows n w)
    (h : ∀ i < 5, w.slots (i, n / 60 ^ i % 60) = []) :
    ∃ w', checkCurSlots k w = .ok w' ∧ Shows n w' ∧ w'.slots = w.slots ∧
      w'.timers = w.timers := by
  induction k generalizing w with
  | zero => exact ⟨w, rfl, hw, rfl, rfl⟩
  | succ k ih =>
    obtain ⟨w₁, h₁, hw₁, hslots₁, htimers₁⟩ := checkCurSlot_quiet hk hw (h _ hk)
    obtain ⟨w', h', hw', hslots, htimers⟩ := ih (by omega) hw₁ fun i hi => by rw [hslots₁, h i hi]
    refine ⟨w', ?_, hw', hslots.trans hslots₁, htimers.trans htimers₁⟩
    rw [checkCurSlots, h₁]
    exact h'

/-- A tick that finds nothing at the cursors only turns the wheels. -/
lemma goOn_quiet (hit : s.it = none) (hw : Shows s.n s.w)
    (h : ∀ i < 5, s.w.slots (i, s.n / 60 ^ i % 60) = []) :
    ∃ u, goOn s = .ok u ∧ u.it = none ∧ u.n = s.n + 1 ∧ Shows u.n u.w ∧ u.w.slots = s.w.slots ∧
      u.w.timers = s.w.timers := by
  obtain ⟨w', hok, hw', hslots, htimers⟩ := checkCurSlots_quiet (k := 4) (by norm_num) hw h
  have hzero := cursor_zero (s := { s with w := w' }) hw'
  have hempty : w'.slots (0, s.n % 60) = [] := by
    have := h 0 (by norm_num)
    rwa [← hslots, pow_zero, Nat.div_one] at this
  have hcur : w'.curSlot = [] := by rw [curSlot, hzero, hempty]
  refine ⟨runFrom { s with w := w' } 0, ?_, ?_⟩
  · rw [goOn, hit, hw.size]
    dsimp only
    rw [hok]
    rfl
  · rw [runFrom]
    dsimp only
    rw [hcur, List.drop_zero, nextCall]
    refine ⟨rfl, rfl, advance_shows hw'.setSlot, ?_, ?_⟩ <;> dsimp only
    · rw [(advance_frame _ _ _).1, slots_setSlot, hzero, ← hempty, update_eq_self, hslots]
    · exact (advance_frame _ _ _).2.1.trans htimers

/-- Any number of such ticks. -/
lemma exec_quiet {k : ℕ} (hit : s.it = none) (hw : Shows s.n s.w)
    (h : ∀ m, s.n ≤ m → m < s.n + k → ∀ i < 5, s.w.slots (i, m / 60 ^ i % 60) = []) :
    ∃ u, exec step s (List.replicate k .go) = .ok u ∧ u.it = none ∧ u.n = s.n + k ∧
      Shows u.n u.w ∧ u.w.slots = s.w.slots ∧ u.w.timers = s.w.timers := by
  induction k with
  | zero => exact ⟨s, rfl, hit, rfl, hw, rfl, rfl⟩
  | succ k ih =>
    obtain ⟨v, hv, hvit, hvn, hvw, hslots, htimers⟩ := ih fun m hle hlt => h m hle (by omega)
    obtain ⟨u, hu, huit, hun, huw, hslots', htimers'⟩ := goOn_quiet hvit hvw fun i hi => by
      rw [hslots, hvn]
      exact h _ (Nat.le_add_right _ _) (by omega) i hi
    refine ⟨u, ?_, huit, by rw [hun, hvn]; omega, huw, hslots'.trans hslots,
      htimers'.trans htimers⟩
    rw [List.replicate_succ', exec_append_ok step hv,
      exec_cons_ok step (show step v .go = .ok u from hu)]
    rfl

/-- Runs that ask for nothing that depends on the state. -/
lemma good_of_allowed (h : ∀ act ∈ as, ∀ s, Allowed s act) {v : Sys} (hv : Good v)
    (hs : exec step v as = .ok s) : Good s := by
  have hasks : Asks step Allowed v as := fun pre act post t he _ => h act (by rw [he]; simp) t
  obtain ⟨s', hs', hgood⟩ := exec_total_of_asks (fun s a => step_total) hv hasks
  obtain rfl := Except.ok.inj (hs.symm.trans hs')
  exact hgood

/-- Ticks come to their end. -/
lemma ticks_end (h : Good s) (hit : s.it = none) (m : ℕ) :
    ∃ k u, exec step s (List.replicate k .go) = .ok u ∧ Good u ∧ u.it = none ∧ u.n = s.n + m := by
  induction m with
  | zero => exact ⟨0, s, rfl, h, hit, rfl⟩
  | succ m ih =>
    obtain ⟨k, v, hv, hgood, hvit, hvn⟩ := ih
    obtain ⟨j, u, hu, huit, hun⟩ := tick_ends hgood hvit
    have hgood' : Good u := good_of_allowed (fun act hact s => by
      rw [(List.mem_replicate.mp hact).2]; trivial) hgood hu
    refine ⟨k + j, u, ?_, hgood', huit, by rw [hun, hvn]; omega⟩
    rw [← List.replicate_append_replicate, exec_append_ok step hv, hu]

/-- A timer of an hour and one tick is put on wheel 2. -/
lemma hour_and_one : ∃ s, step init (.addTimer 0 3601000 0) = .ok s ∧ s.it = none ∧ s.n = 0 ∧
    Shows 0 s.w ∧ s.w.slots = put (fun _ => []) (2, 1) 0 ∧ (s.w.timers 0).tickNum_ = 3601 := by
  have hrun : (init.w.addTimer 0 3601000 0).toOption.map (fun r => (r.1, (r.2.timers 0).tickNum_)) =
      some (some 0, 3601) := rfl
  cases hadd : init.w.addTimer 0 3601000 0 with
  | error e => rw [hadd] at hrun; cases hrun
  | ok r =>
    obtain ⟨r, w'⟩ := r
    rw [hadd] at hrun
    obtain ⟨rfl, hT⟩ := Prod.mk.inj (Option.some.inj hrun)
    refine ⟨_, by rw [step, hadd]; rfl, rfl, rfl, ?_⟩
    rcases addTimer_spec shows_new hadd with ⟨hr, -⟩ | ⟨t, -, -, -, -, harm⟩
    · cases hr
    · have ht : t = 3601 := harm.tickNum.symm.trans hT
      have htop : topLevel t = 2 := (Nat.log_eq_iff (by norm_num)).mpr (by norm_num [ht])
      refine ⟨harm.shows, ?_, hT⟩
      change w'.slots = _
      rw [harm.slots, slotFor, htop, ht]
      rfl

/-- It stands there until tick 3600. -/
lemma hour_and_one_found : ∃ s w', exec step init (.addTimer 0 3601000 0 ::
      List.replicate 3600 .go) = .ok s ∧ s.it = none ∧ s.n = 3600 ∧
    Checks (s.w.size - 1) s.w 2 w' ∧ Shows 3600 w' ∧ 0 ∈ w'.slots (2, w'.slotCur 2) ∧
    (w'.timers 0).tickNum_ = 3601 := by
  obtain ⟨v, hv, hvit, hvn, hvw, hslots, hT⟩ := hour_and_one
  have hempty : ∀ i p, (i, p) ≠ (2, 1) → v.w.slots (i, p) = [] := fun i p hne => by
    rw [hslots, put_of_ne hne]
  obtain ⟨s, hs, hit, hn, hw, hslots', htimers⟩ := exec_quiet (k := 3600) hvit (hvn ▸ hvw)
    fun m _ hm i _ => hempty _ _ fun he => by
      obtain ⟨rfl, hp⟩ := Prod.mk.inj he
      rw [hvn] at hm
      omega
  rw [hvn, Nat.zero_add] at hn
  rw [hn] at hw
  obtain ⟨w₁, h₁, hw₁, hslots₁, htimers₁⟩ := checkCurSlot_quiet (k := 3) (by norm_num) hw
    (by rw [hslots']; exact hempty _ _ (by norm_num))
  obtain ⟨w₂, h₂, hw₂, hslots₂, htimers₂⟩ := checkCurSlot_quiet (k := 2) (by norm_num) hw₁
    (by rw [hslots₁, hslots']; exact hempty _ _ (by norm_num))
  refine ⟨s, w₂, (exec_cons_ok step hv).trans hs, hit, hn, ?_, hw₂, ?_, ?_⟩
  · rw [hw.size]
    exact .later h₁ (.later h₂ .first)
  · rw [hw₂.cursor 2 (by norm_num), hslots₂, hslots₁, hslots', hslots]
    simp [put]
  · rw [htimers₂, htimers₁, htimers, hT]

/-- A timer of an hour and one tick is sent down at tick 3600, and run at tick 3661. -/
theorem minute_late : ¬ ∀ (as bs : List Action) (s u : Sys) (x : TimerPtr) (l t : ℕ)
    (w' : TimerWheels), 1 ≤ l → 1 ≤ t → t ≤ TimerMax → exec step init as = .ok s → s.it = none →
    Checks (s.w.size - 1) s.w l w' → (∀ j < l, w'.slotCur j = 0) →
    x ∈ w'.slots (l, w'.slotCur l) → (w'.timers x).tickNum_ = t →
    exec step s (.go :: bs) = .ok u → Action.delTimer x ∉ bs → s.n + t % SlotNum ^ l < u.n →
    nextRun s u x = some (s.n + t % SlotNum ^ l) := by
  intro h
  obtain ⟨s, w', hs, hit, hn, hcheck, hw', hx, ht⟩ := hour_and_one_found
  obtain ⟨due, hinv⟩ := exec_init hs
  have hgood : Good s := by
    refine good_of_allowed (fun act hact s => ?_) good_init hs
    rcases List.mem_cons.mp hact with rfl | hact
    · exact ⟨by norm_num, by decide⟩
    · rw [(List.mem_replicate.mp hact).2]
      trivial
  obtain ⟨k, u, hu, -, -, hun⟩ := ticks_end hgood hit 2
  obtain ⟨k, rfl⟩ : ∃ j, k = j + 1 := by
    cases k with
    | zero => obtain rfl := Except.ok.inj hu; omega
    | succ k => exact ⟨k, rfl⟩
  have hd : Action.delTimer 0 ∉ List.replicate k Action.go := by simp
  have hlt : s.n + 3601 % SlotNum ^ 2 < u.n := by rw [hun]; exact Nat.lt_succ_self _
  have hlate := h _ _ s u 0 2 3601 w' (by decide) (by decide) (by decide) hs hit hcheck
    (fun j hj => cursor_eq_zero hw' (by decide) (by decide) hj) hx ht hu hd hlt
  rw [nextRun_sent hinv hit hcheck hx hu hd hlt, ht] at hlate
  exact absurd hlate (by decide)

end MuduoZ.TimerRemaining
