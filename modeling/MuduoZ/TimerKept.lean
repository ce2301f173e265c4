import MuduoZ.TimerOnTime

/-!
No timer is lost, and none is doubled.

The runs are those whose callbacks do not delete the timer they belong to, with intervals that
a timer can have. Every call and every tick of such a run goes through.
-/

namespace MuduoZ.TimerKept

open Runs Slots TimerOnTime TimerRun TimerWheels

/-- What the wheels are asked. The times do not overflow, and a timer that is deleted was returned
by `addTimer`, and is not the one whose callback runs. -/
def Allowed (s : Sys) : Action → Prop
  | .addTimer now expirationTime interval =>
    |now - expirationTime| < 2 ^ 63 ∧ interval ≤ TimerMax
  | .delTimer timer => timer < s.w.made ∧ running s ≠ some timer
  | .go => True

/-- A call of `tick` begins. -/
def Begins (s : Sys) : Action → Prop
  | .go => s.it = none
  | .addTimer .. | .delTimer _ => False

instance : ∀ s a, Decidable (Begins s a)
  | s, .go => inferInstanceAs (Decidable (s.it = none))
  | _, .addTimer .. | _, .delTimer _ => inferInstanceAs (Decidable False)

/-- The calls of `tick` that have begun: those that have ended, and the one whose callback runs. -/
def begun (s : Sys) : ℕ := s.n + if s.it = none then 0 else 1

/-- The timer is once in one slot of one wheel, and knows the wheel. -/
def Present (w : TimerWheels) (timer : TimerPtr) : Prop :=
  ∃ i : ℕ × ℕ, i.1 < maxLevel ∧ i.2 < SlotNum ∧ (w.slots i).count timer = 1 ∧
    (w.timers timer).level_ = i.1 ∧ ∀ j, timer ∈ w.slots j → j = i

/-- A state of such a run. -/
structure Good (s : Sys) : Prop where
  inv : ∃ due, Inv due s
  short : ∀ x < s.w.made, (s.w.timers x).interval_ ≤ TimerMax

variable {due : TimerPtr → ℕ} {s u : Sys} {x : TimerPtr} {V : ℕ × ℕ → List TimerPtr}

lemma good_init : Good init := ⟨⟨fun _ => 0, inv_init _⟩, fun x hx => absurd hx (Nat.not_lt_zero x)⟩

lemma Good.keeps {due' : TimerPtr → ℕ} (h : Good s) (hk : Keeps due s due' u)
    (hmade : u.w.made = s.w.made) : Good u :=
  ⟨⟨due', hk.inv⟩, fun x hx => (hk.interval x (hmade ▸ hx)).trans_le (h.short x (hmade ▸ hx))⟩

/-- **Every step goes through.** -/
theorem step_total {act : Action} (h : Good s) (ha : Allowed s act) :
    ∃ u, step s act = .ok u ∧ Good u := by
  obtain ⟨due, hinv⟩ := h.inv
  cases act with
  | addTimer now expirationTime interval =>
    obtain ⟨⟨r, w'⟩, hr⟩ := addTimer_total hinv.shows interval ha.1
    have hs : step s (.addTimer now expirationTime interval) = .ok
        { s with w := w', added := s.added ++ (r.map (·, s.n)).toList } := by
      rw [step, hr]; rfl
    obtain ⟨due', hk, -, hnew⟩ := addTimer_keeps hinv hs
    refine ⟨_, hs, ⟨due', hk.inv⟩, fun x hx => ?_⟩
    rcases Nat.lt_or_ge x s.w.made with hold | hge
    · exact (hk.interval x hold).trans_le (h.short x hold)
    · exact (hnew x hge hx).2.trans_le ha.2
  | delTimer timer =>
    have hs : step s (.delTimer timer) = .ok (delete s timer) := by
      rw [step_delTimer hinv ha.1, if_neg fun hr => ha.2 hr.2]
    obtain ⟨hk, hmade⟩ := delTimer_keeps hinv hs
    exact ⟨_, hs, h.keeps hk hmade⟩
  | go =>
    obtain ⟨u, hu⟩ : ∃ u, goOn s = .ok u := by
      rcases hinv with ⟨hit, hcore⟩ | ⟨a, x, b, hc⟩
      · obtain ⟨w', b, hok, -⟩ := goOn_idle hit hcore
        exact ⟨_, hok⟩
      · obtain ⟨w', hw'⟩ := afterCall_total hc.core.shows
          (lt_of_le_max (h.short x hc.stands.made))
        rw [goOn_calling hc, hw']
        exact ⟨_, rfl⟩
    obtain ⟨due', hk, hmade⟩ := goOn_keeps hinv hu
    exact ⟨u, hu, h.keeps hk hmade⟩

/-! ### Ticks end -/

lemma runFrom_begun (s : Sys) (it : ℕ) : begun (runFrom s it) = s.n + 1 := by
  unfold runFrom begun
  split <;> rfl

/-- **Ticks are counted where they begin.** -/
lemma step_begun (s : Sys) (act : Action) (u : Sys) (h : ∃ due, Inv due s)
    (hu : step s act = .ok u) :
    (∃ due, Inv due u) ∧ begun u = begun s + if Begins s act then 1 else 0 := by
  obtain ⟨due, hinv⟩ := h
  obtain ⟨due', hk⟩ := step_keeps hinv hu
  refine ⟨⟨due', hk.inv⟩, ?_⟩
  cases act with
  | addTimer now expirationTime interval =>
    obtain ⟨r, -, hu⟩ := bind_ok_iff.mp hu
    obtain rfl := Except.ok.inj hu
    rfl
  | delTimer timer =>
    obtain ⟨-, rfl⟩ := delTimer_ok hinv hu
    unfold begun delete
    simp [Begins]
  | go =>
    rcases hinv with ⟨hit, hcore⟩ | ⟨a, x, b, hc⟩
    · obtain ⟨w', b, hok, -⟩ := goOn_idle hit hcore
      obtain rfl := Except.ok.inj (hok.symm.trans hu)
      rw [runFrom_begun, begun, if_pos hit, if_pos (show Begins s .go from hit)]
    · obtain ⟨w', -, rfl⟩ := hc.goOn_ok hu
      have hit : s.it ≠ none := by rw [hc.it]; exact Option.some_ne_none _
      rw [runFrom_begun, begun, if_neg hit, if_neg (show ¬ Begins s .go from hit)]

lemma exec_go {k : ℕ} (hu : goOn s = .ok u) :
    exec step s (List.replicate (k + 1) .go) = exec step u (List.replicate k .go) := by
  rw [List.replicate_succ, exec_cons_ok step (show step s .go = .ok u from hu)]

/-- After a callback comes the next one of the slot, or the end of the tick. -/
lemma calling_go {a b : List TimerPtr} (h : Good s) (hc : Calling due s a x b) :
    ∃ u, goOn s = .ok u ∧ Good u ∧ ((b = [] ∧ u.it = none ∧ u.n = s.n + 1) ∨
      ∃ due' y b', b = y :: b' ∧ u.n = s.n ∧ Calling due' u (a ++ [x]) y b') := by
  obtain ⟨u, hu, hgood⟩ : ∃ u, step s .go = .ok u ∧ Good u := step_total h trivial
  obtain ⟨w', hw'⟩ := afterCall_total hc.core.shows (lt_of_le_max (h.short x hc.stands.made))
  obtain ⟨due', hpass, -⟩ := hc.after hw'
  have hrun : goOn s = .ok (runFrom { s with w := w' } (a ++ [x]).length) := by
    rw [goOn_calling hc, hw']; rfl
  obtain rfl := Except.ok.inj (hrun.symm.trans hu)
  refine ⟨_, hrun, hgood, ?_⟩
  rcases runFrom_spec hpass with ⟨hb, hn, hit, -⟩ | ⟨y, b', hb, hn, hc'⟩
  · exact .inl ⟨hb, hit, hn⟩
  · exact .inr ⟨due', y, b', hb, hn, hc'⟩

/-- The callbacks of the tick run one after the other. -/
lemma calling_ends {a b : List TimerPtr} (h : Good s) (hc : Calling due s a x b) :
    ∃ k u, exec step s (List.replicate k .go) = .ok u ∧ u.it = none ∧ u.n = s.n + 1 := by
  induction b generalizing s due a x with
  | nil =>
    obtain ⟨u, hu, -, ⟨-, hit, hn⟩ | ⟨_, _, _, hb, -⟩⟩ := calling_go h hc
    · exact ⟨1, u, exec_go hu, hit, hn⟩
    · cases hb
  | cons y b ih =>
    obtain ⟨u, hu, hgood, ⟨hb, -⟩ | ⟨due', z, b', hb, hn, hc'⟩⟩ := calling_go h hc
    · cases hb
    · obtain ⟨rfl, rfl⟩ := List.cons.inj hb
      obtain ⟨k, v, hv, hit, hn'⟩ := ih hgood hc'
      exact ⟨k + 1, v, (exec_go hu).trans hv, hit, by rw [hn', hn]⟩

/-- **A tick ends**, if its callbacks leave the wheels alone. -/
theorem tick_ends (h : Good s) (hit : s.it = none) :
    ∃ k u, exec step s (List.replicate k .go) = .ok u ∧ u.it = none ∧ u.n = s.n + 1 := by
  obtain ⟨due, hinv⟩ := h.inv
  rcases hinv with ⟨-, hcore⟩ | ⟨a, x, b, hc⟩
  · obtain ⟨w', b, hok, hpass, -⟩ := goOn_idle hit hcore
    obtain ⟨u, hu, hgood⟩ : ∃ u, step s .go = .ok u ∧ Good u := step_total h trivial
    obtain rfl := Except.ok.inj (hok.symm.trans hu)
    rcases runFrom_spec hpass with ⟨-, hn, hit', -⟩ | ⟨y, b', -, hn, hc⟩
    · exact ⟨1, _, exec_go hok, hit', hn⟩
    · obtain ⟨k, v, hv, hit', hn'⟩ := calling_ends hgood hc
      exact ⟨k + 1, v, (exec_go hok).trans hv, hit', by rw [hn']; exact congrArg (· + 1) hn⟩
  · exact calling_ends h hc

/-! ### Where the timers are -/

/-- What waits is where it should be. -/
lemma present_of_in (hp : Placed due s.n s.w s.w.slots) (h : In s.w.slots x) : Present s.w x := by
  obtain ⟨i, hi⟩ := h
  have hst := hp.stands hi
  obtain ⟨m, hm, -⟩ := hst.serves
  refine ⟨i, hst.le_top.trans_lt hst.top_lt, ?_, ?_, hst.level, fun j hj => hp.unique hj hi⟩
  · rw [← hm.2.2.1]; exact Nat.mod_lt _ (by norm_num)
  · exact List.count_eq_one_of_mem (hp.nodup i) hi

/-- Between ticks a timer that repeats, or that has not run, waits. -/
lemma in_of_core (h : Core due s V none) (hx : x < s.w.made) (hd : x ∉ s.deleted)
    (hwaits : repeats s x = true ∨ runs s x = []) : In V x := by
  cases hr : repeats s x with
  | true =>
    rcases h.alive x hx hr hd with hin | he
    · exact hin
    · cases he
  | false =>
    by_contra hin
    have hran := h.done x hx hr hd hin
    rcases hwaits with hr' | hnone
    · exact absurd (hr.symm.trans hr') (by decide)
    · rw [hran] at hnone; cases hnone

/-- A one-shot timer has run by the time all wheels have turned. -/
lemma runs_of_core {run : Option TimerPtr} {n₀ : ℕ} (h : Core due s V run)
    (hx : (x, n₀) ∈ s.added) (hr : repeats s x = false) (hd : x ∉ s.deleted)
    (hn : n₀ + SlotNum ^ 5 ≤ s.n) :
    ∃ m, n₀ ≤ m ∧ m < n₀ + SlotNum ^ 5 ∧ runs s x = [m] := by
  obtain ⟨hmade, hb⟩ := h.added x n₀ hx
  obtain ⟨hle, hlt⟩ := hb hr
  refine ⟨due x, hle, hlt, h.done x hmade hr hd fun ⟨i, hi⟩ => ?_⟩
  have := (h.placed.stands hi).le_due
  unfold SlotNum at hn
  omega

/-- **No timer is lost or doubled.** The run goes through, the ticks are counted as they begin, and
a tick ends if its callbacks leave the wheels alone. Between ticks a timer that was not deleted,
and that repeats or has not run, is once in one slot; and a one-shot timer that was not deleted
runs once before `SlotNum ^ 5` ticks have ended. -/
theorem neither_lost_nor_doubled (as : List Action) (h : Asks step Allowed init as) :
    ∃ s, exec step init as = .ok s ∧ begun s = tally step Begins init as ∧
      (s.it = none → ∃ k u, exec step s (List.replicate k .go) = .ok u ∧ u.it = none ∧
        u.n = s.n + 1) ∧
      (s.it = none → ∀ x < s.w.made, x ∉ s.deleted → repeats s x = true ∨ runs s x = [] →
        Present s.w x) ∧
      ∀ x n₀, (x, n₀) ∈ s.added → repeats s x = false → x ∉ s.deleted →
        n₀ + SlotNum ^ 5 ≤ s.n → ∃ m, n₀ ≤ m ∧ m < n₀ + SlotNum ^ 5 ∧ runs s x = [m] := by
  obtain ⟨s, hs, hgood⟩ := exec_total_of_asks (fun s a => step_total) good_init h
  obtain ⟨due, hinv⟩ := hgood.inv
  refine ⟨s, hs, ?_, tick_ends hgood, fun hit x hx hd hwaits => ?_, fun x n₀ hx hr hd hn => ?_⟩
  · have hcount := exec_add_tally step_begun ⟨fun _ => 0, inv_init _⟩ hs
    exact hcount.trans (Nat.zero_add _)
  · rcases hinv with ⟨-, hc⟩ | ⟨a, z, b, hc⟩
    · exact present_of_in hc.placed (in_of_core hc hx hd hwaits)
    · rw [hc.it] at hit; cases hit
  · rcases hinv with ⟨-, hc⟩ | ⟨a, z, b, hc⟩
    exacts [runs_of_core hc hx hr hd hn, runs_of_core hc.core hx hr hd hn]

/-- A timer of 62 ticks, which goes down a wheel when 60 have passed, and one that repeats every two
ticks. -/
def cascade : List Action :=
  [.addTimer 0 62000 0, .addTimer 0 1000 2] ++ List.replicate 98 .go

theorem neither_lost_nor_doubled_cascade : ∃ s, exec step init cascade = .ok s ∧
    runs s 0 = [62] ∧ begun s = tally step Begins init cascade ∧
    (s.it = none → ∃ k u, exec step s (List.replicate k .go) = .ok u ∧ u.it = none ∧
      u.n = s.n + 1) ∧
    (s.it = none → ∀ x < s.w.made, x ∉ s.deleted → repeats s x = true ∨ runs s x = [] →
      Present s.w x) ∧
    ∀ x n₀, (x, n₀) ∈ s.added → repeats s x = false → x ∉ s.deleted →
      n₀ + SlotNum ^ 5 ≤ s.n → ∃ m, n₀ ≤ m ∧ m < n₀ + SlotNum ^ 5 ∧ runs s x = [m] := by
  have hran : (exec step init cascade).toOption.map (runs · 0) = some [62] := by decide +kernel
  obtain ⟨s, hs, h⟩ := neither_lost_nor_doubled cascade fun pre a post t he _ => by
    have ha : a ∈ cascade := by rw [he]; simp
    rcases List.mem_append.mp ha with ha | ha
    · rcases List.mem_pair.mp ha with rfl | rfl
      · exact ⟨by norm_num, by decide⟩
      · exact ⟨by norm_num, by decide⟩
    · obtain rfl := List.eq_of_mem_replicate ha
      trivial
  rw [hs] at hran
  exact ⟨s, hs, Option.some.inj hran, h⟩

end MuduoZ.TimerKept
