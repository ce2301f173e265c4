import MuduoZ.TimerOnTime

/-!
Whether `delTimer` cancels a timer.

`delTimer` looks in the slot that `level_` and `slot_` name. Nothing sets `slot_` when a timer
is sent to a lower wheel, and in a tick a timer that has run is still in the slot until the
slot is cleared. A timer that is in no slot stays in none, whatever is done.
-/

namespace MuduoZ.TimerCancel

open Runs Slots TimerOnTime TimerRun TimerWheels

/-- `delTimer` goes through, and then the timer is in no slot and is not run any more. -/
def Cancels (s : Sys) (timer : TimerPtr) : Prop :=
  ∃ u, step s (.delTimer timer) = .ok u ∧ ¬ In u.w.slots timer ∧
    ∀ bs v, exec step u bs = .ok v → runs v timer = runs u timer

/-- The timers in the slot that the loop of `runSlot` has passed. -/
def passed (s : Sys) : List TimerPtr :=
  match s.it with
  | none => []
  | some it => s.w.curSlot.take it

/-- The timer is in no slot; or its callback does not run and, if it repeats, has not run in
this tick, and `slot_` is right: the timer was not sent to a lower wheel, or by chance. -/
def Found (s : Sys) (timer : TimerPtr) : Prop :=
  ¬ In s.w.slots timer ∨ running s ≠ some timer ∧
    ¬ (timer ∈ passed s ∧ repeats s timer = true) ∧
    ((s.w.timers timer).level_ = topLevel (s.w.timers timer).tickNum_ ∨
      (s.w.timers timer).slot_ = (s.w.timers timer).tickNum_ % SlotNum)

variable {due : TimerPtr → ℕ} {s u : Sys} {x y : TimerPtr} {i : ℕ × ℕ} {as bs : List Action}
  {a b : List TimerPtr}

/-! ### A timer that is in no slot -/

lemma nextCall_mem {w : TimerWheels} {l : List TimerPtr} {it : ℕ} {r : ℕ × TimerPtr}
    (h : w.nextCall l it = some r) : r.2 ∈ l := by
  induction l generalizing it with
  | nil => cases h
  | cons y l ih =>
    rw [nextCall] at h
    split at h
    · obtain rfl := Option.some.inj h; exact List.mem_cons_self
    · exact List.mem_cons_of_mem _ (ih h)

lemma runFrom_absent (h : ¬ In s.w.slots x) (it : ℕ) :
    ¬ In (runFrom s it).w.slots x ∧ runs (runFrom s it) x = runs s x := by
  rw [runFrom]
  split
  · rename_i it' y hy
    have hne : y ≠ x := by
      rintro rfl
      exact h ⟨_, List.mem_of_mem_drop (nextCall_mem hy)⟩
    exact ⟨h, by rw [runs_call, if_neg hne, List.append_nil]⟩
  · refine ⟨fun hin => h ?_, rfl⟩
    dsimp only at hin
    rw [(advance_frame _ _ _).1, slots_setSlot] at hin
    exact hin.sub (sub_update (List.nil_sublist _))

lemma goOn_absent (hinv : Inv due s) (h : ¬ In s.w.slots x) (hs : goOn s = .ok u) :
    ¬ In u.w.slots x ∧ runs u x = runs s x := by
  rcases hinv with ⟨hit, hc⟩ | ⟨a, z, b, hc⟩
  · obtain ⟨w', b, hok, -, -, -, hheld⟩ := goOn_idle hit hc
    obtain rfl := Except.ok.inj (hok.symm.trans hs)
    exact runFrom_absent (s := { s with w := w' }) (fun hin => h ((hheld x).mp hin)) 0
  · have hz : z ≠ x := by
      rintro rfl
      exact h ⟨(0, s.n % 60), by rw [hc.slot]; simp⟩
    obtain ⟨w', hw', rfl⟩ := hc.goOn_ok hs
    refine runFrom_absent (s := { s with w := w' }) (fun hin => ?_) _
    rcases hc.afterCall_cases hw' with ⟨-, rfl⟩ | ⟨-, -, -, harm⟩
    · exact h hin
    · change In w'.slots x at hin
      rw [harm.slots, in_put_iff] at hin
      exact hin.elim h hz.symm

/-- **A timer in no slot** is put in none, and is not run. -/
lemma step_absent (hinv : Inv due s) (hx : x < s.w.made) (h : ¬ In s.w.slots x) {act : Action}
    (hs : step s act = .ok u) : ¬ In u.w.slots x ∧ runs u x = runs s x := by
  cases act with
  | addTimer now expirationTime interval =>
    obtain ⟨⟨r, w'⟩, hadd, hs⟩ := bind_ok_iff.mp hs
    obtain rfl := Except.ok.inj hs
    refine ⟨fun hin => ?_, rfl⟩
    rcases addTimer_spec hinv.shows hadd with ⟨-, rfl⟩ | ⟨t, -, -, -, -, harm⟩
    · exact h hin
    · change In w'.slots x at hin
      rw [harm.slots, in_put_iff] at hin
      exact hin.elim h hx.ne
  | delTimer timer =>
    obtain ⟨-, rfl⟩ := delTimer_ok hinv hs
    refine ⟨fun hin => h ?_, rfl⟩
    rw [delete, slots_without] at hin
    exact hin.sub remove_sub
  | go => exact goOn_absent hinv h hs

lemma exec_absent (hinv : Inv due s) (hx : x < s.w.made) (h : ¬ In s.w.slots x)
    (hs : exec step s bs = .ok u) : runs u x = runs s x := by
  let I : Sys → Prop := fun u =>
    (∃ due, Inv due u) ∧ x < u.w.made ∧ ¬ In u.w.slots x ∧ runs u x = runs s x
  have hstep : ∀ t act v, I t → step t act = .ok v → I v := by
    rintro t act v ⟨⟨due, hinv⟩, hx, h, hr⟩ hv
    obtain ⟨due', hk⟩ := step_keeps hinv hv
    obtain ⟨h', hr'⟩ := step_absent hinv hx h hv
    exact ⟨⟨due', hk.inv⟩, hx.trans_le hk.made, h', hr'.trans hr⟩
  exact (exec_inv hstep ⟨⟨due, hinv⟩, hx, h, rfl⟩ hs).2.2.2

/-! ### A timer in a slot -/

lemma passed_calling (h : Calling due s a y b) : passed s = a := by
  rw [passed, h.it]
  dsimp only
  rw [h.curSlot_eq, List.take_left]

/-- A timer that can still be found stands where it is. -/
lemma stands_of_mem (hinv : Inv due s) (hi : x ∈ s.w.slots i) (hrun : running s ≠ some x)
    (hpass : ¬ (x ∈ passed s ∧ repeats s x = true)) : Stands due s.n s.w i x := by
  rcases hinv with ⟨-, hc⟩ | ⟨a, z, b, hc⟩
  · exact hc.placed.stands hi
  · rcases eq_or_ne i (0, s.n % 60) with rfl | hne
    · rw [hc.slot] at hi
      rw [passed_calling hc] at hpass
      rw [hc.running] at hrun
      rcases List.mem_append.mp hi with hi | hi
      · have hr : repeats s x = false := by simpa using fun hr => hpass ⟨hi, hr⟩
        exact ((hc.spent x hi).once hr).2
      · rcases List.mem_cons.mp hi with rfl | hi
        · exact absurd rfl hrun
        · exact hc.core.placed.stands (i := (0, s.n % 60)) (by simpa [hole] using hi)
    · refine hc.core.placed.stands (i := i) ?_
      rw [hole, Function.update_of_ne hne]; exact hi

/-- `level_` is right, and when `slot_` is. -/
lemma told_iff {n : ℕ} {w : TimerWheels} (h : Stands due n w i x) : i = w.told x ↔
    (w.timers x).level_ = topLevel (w.timers x).tickNum_ ∨
      (w.timers x).slot_ = (w.timers x).tickNum_ % SlotNum := by
  obtain ⟨l, p⟩ := i
  have hl : (w.timers x).level_ = l := h.level
  have hslot := h.slot
  dsimp only at hslot
  rw [told, Prod.mk.injEq, hl]
  split at hslot
  · rename_i htop
    exact ⟨fun _ => .inl htop, fun _ => ⟨rfl, hslot⟩⟩
  · rename_i htop
    rw [hslot]
    exact ⟨fun he => .inr he.2.symm, fun he => ⟨rfl, (he.resolve_left htop).symm⟩⟩

lemma told_of_cancels (hinv : Inv due s) (hx : x < s.w.made) (h : Cancels s x) :
    ¬ (s.w.told x = (0, s.n % 60) ∧ running s = some x) ∧
      ∀ i, x ∈ s.w.slots i → i = s.w.told x := by
  obtain ⟨u, hu, hout, -⟩ := h
  rw [step_delTimer hinv hx] at hu
  split at hu
  · cases hu
  · rename_i hne
    obtain rfl := Except.ok.inj hu
    refine ⟨hne, fun i hi => ?_⟩
    by_contra hne'
    refine hout ⟨i, ?_⟩
    rw [delete, slots_without]
    exact mem_remove_iff.mpr ⟨hi, fun he => absurd he hne'⟩

lemma found_of_cancels (hinv : Inv due s) (hx : x < s.w.made) (h : Cancels s x) : Found s x := by
  by_cases hin : In s.w.slots x
  swap
  · exact .inl hin
  obtain ⟨hfault, htold⟩ := told_of_cancels hinv hx h
  have hrun : running s ≠ some x := by
    intro hrun
    obtain ⟨a, b, hc⟩ := calling_of_running hinv hrun
    refine hfault ⟨(htold (0, s.n % 60) ?_).symm, hrun⟩
    rw [hc.slot]; simp
  have hpass : ¬ (x ∈ passed s ∧ repeats s x = true) := by
    rintro ⟨hp, hr⟩
    rcases hinv with ⟨hit, -⟩ | ⟨a, z, b, hc⟩
    · rw [passed, hit] at hp; cases hp
    · rw [passed_calling hc] at hp
      have hcur := htold (0, s.n % 60) (by rw [hc.slot]; exact List.mem_append_left _ hp)
      obtain ⟨hl, hslot⟩ := Prod.mk.inj hcur
      exact (hc.spent x hp).again hr ⟨hl.symm, hslot.symm⟩
  obtain ⟨i, hi⟩ := hin
  exact .inr ⟨hrun, hpass, (told_iff (stands_of_mem hinv hi hrun hpass)).mp (htold i hi)⟩

lemma cancels_of_found (hinv : Inv due s) (hx : x < s.w.made) (h : Found s x) : Cancels s x := by
  have htold : ∀ i, x ∈ s.w.slots i → running s ≠ some x ∧ i = s.w.told x := by
    intro i hi
    rcases h with hout | ⟨hrun, hpass, hslot⟩
    · exact absurd ⟨i, hi⟩ hout
    · exact ⟨hrun, (told_iff (stands_of_mem hinv hi hrun hpass)).mpr hslot⟩
  have hrun : running s ≠ some x := by
    intro hrun
    obtain ⟨a, b, hc⟩ := calling_of_running hinv hrun
    exact (htold (0, s.n % 60) (by rw [hc.slot]; simp)).1 hrun
  have hok : step s (.delTimer x) = .ok (delete s x) := by
    rw [step_delTimer hinv hx, if_neg fun hh => hrun hh.2]
  have hout : ¬ In (delete s x).w.slots x := by
    rintro ⟨i, hi⟩
    rw [delete, slots_without, mem_remove_iff] at hi
    exact hi.2 (htold i hi.1).2 rfl
  obtain ⟨hk, hmade⟩ := delTimer_keeps hinv hok
  exact ⟨_, hok, hout, fun bs v hv => exec_absent hk.inv (hx.trans_le hk.made) hout hv⟩

/-- **`delTimer` cancels a timer exactly when it finds it.** -/
theorem cancels_iff (hs : exec step init as = .ok s) (hx : x < s.w.made) :
    Cancels s x ↔ Found s x := by
  obtain ⟨due, hinv⟩ := exec_init hs
  exact ⟨found_of_cancels hinv hx, cancels_of_found hinv hx⟩

/-- A timer that was just added. -/
theorem cancels_iff_one : ∃ s, exec step init [.addTimer 0 1000 0] = .ok s ∧
    (Cancels s 0 ↔ Found s 0) := by
  obtain ⟨s, hs, hx⟩ : ∃ s, exec step init [.addTimer 0 1000 0] = .ok s ∧ 0 < s.w.made :=
    ⟨_, rfl, by decide⟩
  exact ⟨s, hs, cancels_iff hs hx⟩

/-- A timer of 62 ticks is not found after 61 of them: it is on the lowest wheel, in slot 2. -/
theorem sent_down_not_cancelled : ¬ ∀ (as : List Action) (s : Sys) (x : TimerPtr),
    exec step init as = .ok s → x < s.w.made → Cancels s x := by
  intro h
  have hrun : (exec step init (.addTimer 0 62000 0 :: List.replicate 61 .go)).toOption.map
      (fun s => (s.w.made, s.w.slots (0, 2), s.w.told 0)) = some (1, [0], (0, 1)) := by
    decide +kernel
  obtain ⟨s, hs, he⟩ := exec_of_map hrun
  obtain ⟨hm, hslot, htold⟩ : s.w.made = 1 ∧ s.w.slots (0, 2) = [0] ∧ s.w.told 0 = (0, 1) := by
    simpa using he
  have hx : 0 < s.w.made := by rw [hm]; decide
  obtain ⟨due, hinv⟩ := exec_init hs
  have := (told_of_cancels hinv hx (h _ s 0 hs hx)).2 (0, 2) (by rw [hslot]; simp)
  rw [htold] at this
  exact absurd this (by decide)

end MuduoZ.TimerCancel
