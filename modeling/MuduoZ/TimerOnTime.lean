import MuduoZ.TimerRun

/-!
Whether a one-shot timer is run on its tick.

The tick at which a timer runs is known when it is placed. It is the right one for timers of
the lowest wheel. For the others, the cursors below the wheel are not taken into account, and
a timer that is sent down stands on each lower wheel for its units, not for its digit there.
-/

namespace MuduoZ.TimerOnTime

open Finset Odometer Runs TimerRun TimerWheels

/-- What a timer of `ticks` ticks waits on the lower wheels is what is left of its ticks there,
and what they have turned. -/
def InTime (w : TimerWheels) (ticks : ℕ) : Prop :=
  ticks % 60 * ∑ i ∈ range (topLevel ticks), 60 ^ i =
    ticks % 60 ^ topLevel ticks + ∑ i ∈ range (topLevel ticks), w.slotCur i * 60 ^ i

instance (w : TimerWheels) (ticks : ℕ) : Decidable (InTime w ticks) :=
  inferInstanceAs (Decidable (_ = _))

variable {due : TimerPtr → ℕ} {s u : Sys} {x : TimerPtr} {as bs : List Action} {m t : ℕ}

/-- A one-shot timer, and the tick at which it is due. -/
def Awaits (x : TimerPtr) (m : ℕ) (s : Sys) : Prop :=
  ∃ due, Inv due s ∧ x < s.w.made ∧ repeats s x = false ∧ due x = m

lemma Awaits.step {act : Action} (h : Awaits x m s) (hs : TimerRun.step s act = .ok u) :
    Awaits x m u := by
  obtain ⟨due, hinv, hx, hr, hdue⟩ := h
  obtain ⟨due', hk⟩ := step_keeps hinv hs
  exact ⟨due', hk.inv, hx.trans_le hk.made, (hk.repeats hx).trans hr, (hk.due x hx hr).trans hdue⟩

lemma Awaits.exec (h : Awaits x m s) (hs : exec TimerRun.step s as = .ok u) : Awaits x m u :=
  exec_inv (I := Awaits x m) (fun _ _ _ hI hstep => hI.step hstep) h hs

/-- **It is run at that tick**, and not at another. -/
lemma Awaits.runs_iff (h : Awaits x m s) (hd : x ∉ s.deleted) {k : ℕ} (hk : k < s.n) :
    runs s x = [k] ↔ m = k := by
  obtain ⟨due, hinv, hx, hr, rfl⟩ := h
  have hcore : ∀ V run, Core due s V run → (runs s x = [k] ↔ due x = k) := by
    intro V run hc
    by_cases hin : Slots.In V x
    · have hle : s.n ≤ due x := by
        obtain ⟨i, hi⟩ := hin
        exact (hc.placed.stands hi).le_due
      rw [hc.waiting x hr hin]
      exact ⟨fun he => absurd he (by simp), fun he => by omega⟩
    · rw [hc.done x hx hr hd hin, List.singleton_inj]
  rcases hinv with ⟨-, hc⟩ | ⟨a, z, b, hc⟩
  exacts [hcore _ _ hc, hcore _ _ hc.core]

lemma exec_init (hs : exec TimerRun.step init as = .ok s) : ∃ due, Inv due s :=
  exec_inv (I := fun s => ∃ due, Inv due s)
    (fun _ _ _ ⟨_, hI⟩ hstep => (step_keeps hI hstep).imp fun _ hk => hk.inv)
    ⟨fun _ => 0, inv_init _⟩ hs

/-- When the timer is due is known when it is placed. -/
lemma addTimer_awaits {now expirationTime : ℤ} {w' : TimerWheels} (h : Inv due s)
    (hadd : s.w.addTimer now expirationTime 0 = .ok (some x, w'))
    (hs : TimerRun.step s (.addTimer now expirationTime 0) = .ok u) :
    Awaits x (dueAt s.n (w'.timers x).tickNum_) u := by
  obtain ⟨due', hk, -, hdue⟩ := addTimer_keeps h hs
  rcases addTimer_spec h.shows hadd with ⟨hr, -⟩ | ⟨t, -, hr, hmade, hint, harm⟩
  · cases hr
  · obtain rfl := Option.some.inj hr
    obtain ⟨⟨r, w₁⟩, hadd', hs⟩ := bind_ok_iff.mp hs
    obtain ⟨rfl, rfl⟩ := Prod.mk.inj (Except.ok.inj (hadd.symm.trans hadd'))
    obtain rfl := Except.ok.inj hs
    refine ⟨due', hk.inv, harm.made, ?_, (hdue _ le_rfl harm.made).1⟩
    rw [repeats]
    dsimp only
    rw [(w'.timers s.w.made).repeats, hint]
    rfl

/-- The tick is the right one. -/
lemma dueAt_iff (h : Shows s.n s.w) (ht : topLevel t < 5) :
    dueAt s.n t = s.n + t ↔ InTime s.w t := by
  have hcur : ∑ i ∈ range (topLevel t), s.w.slotCur i * 60 ^ i = s.n % 60 ^ topLevel t := by
    rw [← sum_digits]
    refine sum_congr rfl fun i hi => ?_
    rw [h.cursor i ((mem_range.mp hi).trans ht)]
  rw [dueAt_eq_iff, InTime, hcur, ones]

-- at the first tick, an hour and two minutes go wrong, an hour and a minute and a second do not
example : ¬ InTime TimerWheels.new 3720 ∧ InTime TimerWheels.new 3661 := by decide

/-- **A one-shot timer runs on time exactly when it was placed in time**, in whatever run. Ticks
are numbered from 0, so that after `s.n` of them the `t + 1`-st to come is `s.n + t`. -/
theorem onTime_iff {now expirationTime : ℤ} {w' : TimerWheels}
    (hs : exec TimerRun.step init as = .ok s)
    (hadd : s.w.addTimer now expirationTime 0 = .ok (some x, w'))
    (ht : (w'.timers x).tickNum_ = t)
    (hu : exec TimerRun.step s (.addTimer now expirationTime 0 :: bs) = .ok u)
    (hd : x ∉ u.deleted) (hn : s.n + t < u.n) :
    runs u x = [s.n + t] ↔ InTime s.w t := by
  obtain ⟨due, hinv⟩ := exec_init hs
  obtain ⟨v, hv, hu⟩ := (exec_cons_iff TimerRun.step).mp hu
  have hawaits := (addTimer_awaits hinv hadd hv).exec hu
  rw [hawaits.runs_iff hd hn, ht]
  refine dueAt_iff hinv.shows ?_
  rcases addTimer_spec hinv.shows hadd with ⟨hr, -⟩ | ⟨t', -, hr, -, -, harm⟩
  · cases hr
  · obtain rfl := Option.some.inj hr
    rw [← ht, harm.tickNum]; exact harm.top_lt

/-- A timer of one tick. -/
theorem onTime_iff_one : ∃ u, exec TimerRun.step init [.addTimer 0 1000 0, .go, .go, .go] = .ok u ∧
    (runs u 0 = [1] ↔ InTime init.w 1) := by
  obtain ⟨u, hu, hn, hd⟩ : ∃ u, exec TimerRun.step init [.addTimer 0 1000 0, .go, .go, .go] =
      .ok u ∧ u.n = 2 ∧ u.deleted = [] := ⟨_, rfl, rfl, rfl⟩
  obtain ⟨w', hadd, ht⟩ : ∃ w', init.w.addTimer 0 1000 0 = .ok (some 0, w') ∧
      (w'.timers 0).tickNum_ = 1 := ⟨_, rfl, rfl⟩
  refine ⟨u, hu, ?_⟩
  have := onTime_iff (s := init) (exec_nil TimerRun.step init) hadd ht hu (by simp [hd])
    (by rw [hn]; decide)
  simpa [init] using this

/-- A timer of 60 ticks that is added after one tick runs one tick early. -/
theorem sixty_ticks_early : ¬ ∀ (as bs : List Action) (s u : Sys) (now expirationTime : ℤ)
    (x : TimerPtr) (t : ℕ) (w' : TimerWheels), exec TimerRun.step init as = .ok s → s.it = none →
    s.w.addTimer now expirationTime 0 = .ok (some x, w') → (w'.timers x).tickNum_ = t →
    exec TimerRun.step s (.addTimer now expirationTime 0 :: bs) = .ok u → x ∉ u.deleted →
    s.n + t < u.n → runs u x = [s.n + t] := by
  intro h
  have hrun : (exec TimerRun.step init
      ([.go] ++ (.addTimer 0 60000 0 :: List.replicate 62 .go))).toOption.map
        (fun u => (u.n, u.deleted, u.ran)) = some (62, [], [(0, 60)]) := by decide +kernel
  obtain ⟨u, hu, he⟩ := exec_of_map hrun
  obtain ⟨hn, hd, hr⟩ : u.n = 62 ∧ u.deleted = [] ∧ u.ran = [(0, 60)] := by simpa using he
  obtain ⟨s, hs, hit, hsn, w', hadd, ht⟩ : ∃ s, exec TimerRun.step init [.go] = .ok s ∧
      s.it = none ∧ s.n = 1 ∧ ∃ w', s.w.addTimer 0 60000 0 = .ok (some 0, w') ∧
        (w'.timers 0).tickNum_ = 60 := ⟨_, rfl, rfl, rfl, _, rfl, rfl⟩
  rw [exec_append_ok TimerRun.step hs] at hu
  have := h [.go] _ s u 0 60000 0 60 w' hs hit hadd ht hu (by simp [hd]) (by rw [hsn, hn]; decide)
  rw [runs, hr, hsn] at this
  exact absurd this (by decide)

end MuduoZ.TimerOnTime
