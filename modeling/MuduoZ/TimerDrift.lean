import MuduoZ.TimerOnTime

/-!
Whether a repeating timer keeps its interval.

In the tick of its callback a repeating timer is placed anew, for its interval, and it is next run
at the tick that `dueAt` gives, whatever is done in between. That may be too early or too late, as
it may for a timer that is added in this tick.
-/

namespace MuduoZ.TimerDrift

open Finset Odometer Runs Slots TimerRun TimerWheels

/-- Any two consecutive runs are `k` ticks apart. -/
def Steady (k : ℕ) (ticks : List ℕ) : Prop := ticks.IsChain fun m m' => m' = m + k

/-- At tick `m` the units of the interval `k`, on the wheels below the one it is placed on, make up
for the rest of the interval there and for what these wheels have turned. -/
def InStep (k m : ℕ) : Prop :=
  k % 60 * ∑ i ∈ range (topLevel k), 60 ^ i = k % 60 ^ topLevel k + m % 60 ^ topLevel k

instance (k m : ℕ) : Decidable (InStep k m) := inferInstanceAs (Decidable (_ = _))

/-- A repeating timer is run when it is due, and is due again at `dueAt`. -/
structure Paced (due : TimerPtr → ℕ) (s : Sys) (x : TimerPtr) (k : ℕ) : Prop where
  chain : (runs s x).IsChain fun m m' => m' = dueAt m k
  waits : running s ≠ some x → ∀ m ∈ (runs s x).getLast?, due x = dueAt m k
  now : running s = some x → (runs s x).getLast? = some s.n

variable {due : TimerPtr → ℕ} {s u : Sys} {x : TimerPtr} {a b : List TimerPtr} {k : ℕ}
  {as : List Action}

/-! ### A tick goes on -/

/-- What is run next, and when it was due. -/
lemma runFrom_runs (h : Pass due s a b b none) :
    (running (runFrom s a.length) = none ∧ ∀ y, runs (runFrom s a.length) y = runs s y) ∨
      ∃ z, running (runFrom s a.length) = some z ∧ (runFrom s a.length).n = s.n ∧ due z = s.n ∧
        ∀ y, runs (runFrom s a.length) y = runs s y ++ if z = y then [s.n] else [] := by
  rcases runFrom_spec h with ⟨rfl, -, hit, -⟩ | ⟨z, b', rfl, hn, hc⟩
  · refine .inl ⟨by rw [running, hit]; rfl, fun y => ?_⟩
    rw [runFrom, h.curSlot_eq, List.drop_left]
    rfl
  · have hlevel : (s.w.timers z).level_ = 0 := h.core.placed.take.2.2.level
    refine .inr ⟨z, hc.running, hn, hc.stands.due_now.trans hn, fun y => ?_⟩
    rw [runFrom, h.curSlot_eq, List.drop_left, nextCall, if_pos hlevel]
    exact runs_call ..

/-- A timer that is run when it is due keeps its pace. -/
lemma runFrom_paced (h : Pass due s a b b none)
    (hchain : (runs s x).IsChain fun m m' => m' = dueAt m k)
    (hwaits : ∀ m ∈ (runs s x).getLast?, due x = dueAt m k) :
    Paced due (runFrom s a.length) x k := by
  rcases runFrom_runs h with ⟨hrun, hruns⟩ | ⟨z, hrun, hn, hdue, hruns⟩
  · have hruns := hruns x
    exact ⟨by rwa [hruns], fun _ => by rwa [hruns], fun he => by rw [hrun] at he; cases he⟩
  · have hruns := hruns x
    by_cases hz : z = x
    · subst hz
      rw [if_pos rfl] at hruns
      refine ⟨?_, fun he => absurd hrun he, fun _ => ?_⟩
      · rw [hruns, List.isChain_append]
        refine ⟨hchain, List.isChain_singleton _, fun m hm m' hm' => ?_⟩
        obtain rfl := Option.some.inj hm'
        rw [← hwaits m hm, hdue]
      · rw [hruns, List.getLast?_append, hn]
        rfl
    · rw [if_neg hz, List.append_nil] at hruns
      refine ⟨by rwa [hruns], fun _ => by rwa [hruns], fun he => ?_⟩
      exact absurd (Option.some.inj (hrun.symm.trans he)) hz

lemma goOn_paced (h : Inv due s) (hs : goOn s = .ok u) : ∃ due', Inv due' u ∧
    ∀ x, repeats s x = true → Paced due s x (s.w.timers x).interval_ →
      Paced due' u x (s.w.timers x).interval_ := by
  rcases h with ⟨hit, hcore⟩ | ⟨a, z, b, h⟩
  · obtain ⟨w', b, hok, hpass, -⟩ := goOn_idle hit hcore
    obtain rfl := Except.ok.inj (hok.symm.trans hs)
    refine ⟨due, runFrom_inv hpass, fun x _ hp => runFrom_paced hpass hp.chain (hp.waits ?_)⟩
    rw [running, hit]; simp
  · obtain ⟨w', hw', rfl⟩ := h.goOn_ok hs
    obtain ⟨due', hpass, -, -, -, hother, hself⟩ := h.after hw'
    refine ⟨due', runFrom_inv hpass, fun x hr hp => runFrom_paced hpass hp.chain fun m hm => ?_⟩
    by_cases hx : x = z
    · subst hx
      obtain rfl := Option.some.inj ((hp.now h.running).symm.trans hm)
      exact hself hr
    · rw [hother x hx]
      refine hp.waits (fun he => hx ?_) m hm
      exact Option.some.inj (he.symm.trans h.running)

/-! ### The run -/

lemma running_addTimer {now expirationTime : ℤ} {interval : ℕ} (h : Inv due s)
    (hs : step s (.addTimer now expirationTime interval) = .ok u) :
    running u = running s ∧ runs u = runs s ∧ u.n = s.n := by
  obtain ⟨⟨r, w'⟩, hadd, hs⟩ := bind_ok_iff.mp hs
  obtain rfl := Except.ok.inj hs
  refine ⟨?_, rfl, rfl⟩
  rcases addTimer_spec h.shows hadd with ⟨-, rfl⟩ | ⟨t, -, -, -, -, harm⟩
  · rfl
  · rw [running, running, curSlot_arm h.shows harm]

lemma running_delete (h : Inv due s) (hs : step s (.delTimer x) = .ok u) :
    running u = running s ∧ runs u = runs s ∧ u.n = s.n := by
  obtain ⟨hne, rfl⟩ := delTimer_ok h hs
  refine ⟨?_, rfl, rfl⟩
  rcases h with ⟨hit, -⟩ | ⟨a, z, b, h⟩
  · rw [running, running, delete, hit]; rfl
  · obtain ⟨a', b', h'⟩ := h.without x fun ht he => hne ⟨ht, he ▸ h.running⟩
    rw [h.running, h'.running]

/-- Every repeating timer keeps its pace. -/
def AllPaced (s : Sys) : Prop :=
  ∃ due, Inv due s ∧ ∀ x < s.w.made, repeats s x = true → Paced due s x (s.w.timers x).interval_

lemma Paced.congr {due' : TimerPtr → ℕ} (h : Paced due s x k) (hdue : due' x = due x)
    (hu : running u = running s ∧ runs u = runs s ∧ u.n = s.n) : Paced due' u x k := by
  obtain ⟨hrun, hruns, hn⟩ := hu
  exact ⟨by rw [hruns]; exact h.chain, by rw [hrun, hruns, hdue]; exact h.waits,
    by rw [hrun, hruns, hn]; exact h.now⟩

lemma made_of_running (h : Inv due s) (hx : running s = some x) : x < s.w.made := by
  obtain ⟨a, b, hc⟩ := calling_of_running h hx
  exact hc.stands.made

/-- A timer that is still to be made has not run. -/
lemma runs_of_made_le (h : Inv due s) (hx : s.w.made ≤ x) : runs s x = [] := by
  have hran : ∀ y m, (y, m) ∈ s.ran → y < s.w.made := by
    rcases h with ⟨-, hc⟩ | ⟨a, z, b, hc⟩
    exacts [hc.ranMade, hc.core.ranMade]
  exact runs_eq_nil fun y m hy => ((hran y m hy).trans_le hx).ne

lemma step_allPaced (s : Sys) (act : Action) (u : Sys) (h : AllPaced s)
    (hs : step s act = .ok u) : AllPaced u := by
  obtain ⟨due, hinv, hp⟩ := h
  cases act with
  | addTimer now expirationTime interval =>
    obtain ⟨due', hk, hdue, -⟩ := addTimer_keeps hinv hs
    have hu := running_addTimer hinv hs
    refine ⟨due', hk.inv, fun x hx hr => ?_⟩
    rcases Nat.lt_or_ge x s.w.made with hold | hnew
    · rw [hk.interval x hold]
      exact (hp x hold ((hk.repeats hold).symm.trans hr)).congr (hdue x hold) hu
    · have hnone : runs u x = [] := by rw [hu.2.1, runs_of_made_le hinv hnew]
      refine ⟨by rw [hnone]; exact List.isChain_nil, fun _ m hm => ?_, fun he => ?_⟩
      · rw [hnone] at hm; cases hm
      · exact absurd (made_of_running hinv (hu.1.symm.trans he)) (Nat.not_lt.mpr hnew)
  | delTimer timer =>
    obtain ⟨hk, hmade⟩ := delTimer_keeps hinv hs
    refine ⟨due, hk.inv, fun x hx hr => ?_⟩
    have hx : x < s.w.made := hmade ▸ hx
    rw [hk.interval x hx]
    exact (hp x hx ((hk.repeats hx).symm.trans hr)).congr rfl (running_delete hinv hs)
  | go =>
    obtain ⟨due', hinv', hpaced⟩ := goOn_paced hinv hs
    obtain ⟨_, hk, hmade⟩ := goOn_keeps hinv hs
    refine ⟨due', hinv', fun x hx hr => ?_⟩
    have hx : x < s.w.made := hmade ▸ hx
    have hr : repeats s x = true := (hk.repeats hx).symm.trans hr
    rw [hk.interval x hx]
    exact hpaced x hr (hp x hx hr)

lemma allPaced_init : AllPaced init :=
  ⟨fun _ => 0, inv_init _, fun x hx => absurd hx (Nat.not_lt_zero x)⟩

/-- Ticks that follow one another by a rule do so by another one exactly when the rules agree on
all of them but the last. -/
lemma isChain_iff {f g : ℕ → ℕ} {l : List ℕ} (h : l.IsChain fun m m' => m' = f m) :
    (l.IsChain fun m m' => m' = g m) ↔ ∀ m ∈ l.dropLast, f m = g m := by
  induction l with
  | nil => simp
  | cons m l ih =>
    cases l with
    | nil => simp
    | cons m' l =>
      obtain ⟨rfl, h⟩ := List.isChain_cons_cons.mp h
      rw [List.isChain_cons_cons, ih h, List.dropLast_cons_cons, List.forall_mem_cons]

/-- **A repeating timer keeps its interval exactly when every callback but the last ran in step
with it**, in any run. -/
theorem steady_iff (hs : exec step init as = .ok s) (hx : x < s.w.made)
    (hr : repeats s x = true) : Steady (s.w.timers x).interval_ (runs s x) ↔
      ∀ m ∈ (runs s x).dropLast, InStep (s.w.timers x).interval_ m := by
  obtain ⟨due, hinv, hp⟩ := exec_inv step_allPaced allPaced_init hs
  rw [Steady, isChain_iff (hp x hx hr).chain]
  exact forall₂_congr fun m _ => dueAt_eq_iff m _

/-- A timer that repeats every tick. -/
theorem steady_iff_one : ∃ s, exec step init [.addTimer 0 1000 1, .go, .go, .go, .go] = .ok s ∧
    (Steady (s.w.timers 0).interval_ (runs s 0) ↔
      ∀ m ∈ (runs s 0).dropLast, InStep (s.w.timers 0).interval_ m) := by
  have hrun : (exec step init [.addTimer 0 1000 1, .go, .go, .go, .go]).toOption.map
      (fun s => (s.w.made, repeats s 0)) = some (1, true) := by decide +kernel
  obtain ⟨s, hs, he⟩ := exec_of_map hrun
  obtain ⟨hx, hr⟩ := Prod.mk.inj he
  exact ⟨s, hs, steady_iff hs (by rw [hx]; decide) hr⟩

/-- Short intervals are kept. -/
theorem steady_of_lt (hs : exec step init as = .ok s) (hx : x < s.w.made)
    (hr : repeats s x = true) (hk : (s.w.timers x).interval_ < 60) :
    Steady (s.w.timers x).interval_ (runs s x) := by
  have htop : topLevel (s.w.timers x).interval_ = 0 := Nat.log_of_lt hk
  refine (steady_iff hs hx hr).mpr fun m _ => ?_
  rw [InStep, htop, pow_zero, Nat.mod_one, Nat.mod_one]
  rfl

/-- A timer that repeats every minute, and is first run at tick 1, is next run at tick 60. -/
theorem minute_drifts : ¬ ∀ (as : List Action) (s : Sys) (x : TimerPtr),
    exec step init as = .ok s → x < s.w.made → x ∉ s.deleted → repeats s x = true →
    (s.w.timers x).interval_ ≤ TimerMax → Steady (s.w.timers x).interval_ (runs s x) := by
  intro h
  have hrun : (exec step init (.addTimer 0 1000 60 :: List.replicate 63 .go)).toOption.map
      (fun s => decide (s.w.made = 1 ∧ s.deleted = [] ∧ repeats s 0 = true ∧
        (s.w.timers 0).interval_ = 60 ∧ s.ran = [(0, 1), (0, 60)])) = some true := by
    decide +kernel
  obtain ⟨s, hs, he⟩ := exec_of_map hrun
  obtain ⟨hm, hd, hr, hk, hran⟩ := of_decide_eq_true he
  have hsteady := h _ s 0 hs (by rw [hm]; decide) (by rw [hd]; simp) hr (by rw [hk]; decide)
  rw [hk, runs, hran] at hsteady
  exact absurd (List.isChain_cons_cons.mp hsteady).1 (by decide)

end MuduoZ.TimerDrift
