import MuduoZ.Lib.Run
import MuduoZ.TimerDue

/-!
Runs of the timer wheels: calls of `addTimer` and `delTimer`, between ticks and from
callbacks, and ticks.

A tick goes from callback to callback, so that each callback may use the wheels. The wheels
are kept with a record of what was added, deleted and run, and at which tick.
-/

namespace MuduoZ.TimerRun

open Function Odometer Slots TimerWheels Runs

structure Sys where
  w : TimerWheels
  -- the place of the loop of `runSlot` while a callback runs
  it : Option ℕ
  -- the ticks that have ended
  n : ℕ
  added : List (TimerPtr × ℕ)
  deleted : List TimerPtr
  ran : List (TimerPtr × ℕ)

def init : Sys := ⟨TimerWheels.new, none, 0, [], [], []⟩

inductive Action
  | addTimer (now expirationTime : ℤ) (interval : ℕ)
  | delTimer (timer : TimerPtr)
  | go

/-- `runSlot` from `it` on: it comes to a callback, or the tick ends. -/
def runFrom (s : Sys) (it : ℕ) : Sys :=
  match s.w.nextCall (s.w.curSlot.drop it) it with
  | some (it, timer) => { s with it := some it, ran := s.ran ++ [(timer, s.n)] }
  | none =>
    let w := s.w.setSlot 0 (s.w.slotCur 0) []
    { s with w := advance w.size 0 w, it := none, n := s.n + 1 }

/-- Begins a tick, or returns from a callback. -/
def goOn (s : Sys) : Result Sys :=
  match s.it with
  | none => do
    let w ← checkCurSlots (s.w.size - 1) s.w
    .ok (runFrom { s with w := w } 0)
  | some it => match s.w.curSlot[it]? with
    | none => .error .iterator
    | some timer => do
      let w ← s.w.afterCall timer
      .ok (runFrom { s with w := w } (it + 1))

def step (s : Sys) : Action → Result Sys
  | .addTimer now expirationTime interval => do
    let (r, w) ← s.w.addTimer now expirationTime interval
    .ok { s with w := w, added := s.added ++ (r.map (·, s.n)).toList }
  | .delTimer timer => do
    let (w, it) ← s.w.delTimer s.it timer
    .ok { s with w := w, it := it, deleted := s.deleted ++ [timer] }
  | .go => goOn s

/-- The ticks at which `timer` was run. -/
def runs (s : Sys) (timer : TimerPtr) : List ℕ :=
  (s.ran.filter (·.1 = timer)).map (·.2)

def repeats (s : Sys) (timer : TimerPtr) : Bool := (s.w.timers timer).repeat_

/-! ### The invariant -/

/-- The timers held in `V` wait to be run; `running` is the one whose callback runs. -/
structure Core (due : TimerPtr → ℕ) (s : Sys) (V : ℕ × ℕ → List TimerPtr)
    (running : Option TimerPtr) : Prop where
  shows : Shows s.n s.w
  placed : Placed due s.n s.w V
  levels : ∀ x < s.w.made, (s.w.timers x).level_ < 5
  added : ∀ x n₀, (x, n₀) ∈ s.added → x < s.w.made ∧
    (repeats s x = false → n₀ ≤ due x ∧ due x < n₀ + 60 ^ 5)
  ranMade : ∀ x m, (x, m) ∈ s.ran → x < s.w.made
  waiting : ∀ x, repeats s x = false → In V x → runs s x = []
  done : ∀ x, x < s.w.made → repeats s x = false → x ∉ s.deleted → ¬ In V x → runs s x = [due x]
  alive : ∀ x, x < s.w.made → repeats s x = true → x ∉ s.deleted → In V x ∨ running = some x

/-- A timer that the tick has run, and that is still in the slot. -/
structure Spent (due : TimerPtr → ℕ) (s : Sys) (V : ℕ × ℕ → List TimerPtr) (x : TimerPtr) :
    Prop where
  made : x < s.w.made
  once : repeats s x = false → ¬ In V x ∧ Stands due s.n s.w (0, s.n % 60) x
  again : repeats s x = true →
    ¬ ((s.w.timers x).level_ = 0 ∧ (s.w.timers x).slot_ = s.n % 60)

/-- What the slot holds while a tick has `b` of it still to run. -/
abbrev hole (s : Sys) (b : List TimerPtr) : ℕ × ℕ → List TimerPtr :=
  update s.w.slots (0, s.n % 60) b

/-- In a tick: `a` was run, and the slot holds `rest` after it, of which `b` is to be run. -/
structure Pass (due : TimerPtr → ℕ) (s : Sys) (a rest b : List TimerPtr)
    (running : Option TimerPtr) : Prop where
  core : Core due s (hole s b) running
  slot : s.w.slots (0, s.n % 60) = a ++ rest
  nodup : (a ++ rest).Nodup
  higher : ∀ i, 0 < i → i < 5 → s.w.slots (i, s.n / 60 ^ i % 60) = []
  spent : ∀ y ∈ a, Spent due s (hole s b) y

/-- The callback of `x` runs. -/
structure Calling (due : TimerPtr → ℕ) (s : Sys) (a : List TimerPtr) (x : TimerPtr)
    (b : List TimerPtr) : Prop extends Pass due s a (x :: b) b (some x) where
  it : s.it = some a.length
  stands : Stands due s.n s.w (0, s.n % 60) x
  out : ¬ In (hole s b) x

inductive Inv (due : TimerPtr → ℕ) (s : Sys) : Prop
  | idle (it : s.it = none) (core : Core due s s.w.slots none)
  | calling (a : List TimerPtr) (x : TimerPtr) (b : List TimerPtr) (h : Calling due s a x b)

/-- What a step keeps. -/
structure Keeps (due : TimerPtr → ℕ) (s : Sys) (due' : TimerPtr → ℕ) (s' : Sys) : Prop where
  inv : Inv due' s'
  due : ∀ x < s.w.made, repeats s x = false → due' x = due x
  interval : ∀ x < s.w.made, (s'.w.timers x).interval_ = (s.w.timers x).interval_
  made : s.w.made ≤ s'.w.made

lemma Keeps.repeats {due due' : TimerPtr → ℕ} {s s' : Sys} (h : Keeps due s due' s')
    {x : TimerPtr} (hx : x < s.w.made) : repeats s' x = TimerRun.repeats s x := by
  rw [TimerRun.repeats, TimerRun.repeats, (s'.w.timers x).repeats, (s.w.timers x).repeats,
    h.interval x hx]

variable {due due' : TimerPtr → ℕ} {s s' : Sys} {V V' : ℕ × ℕ → List TimerPtr} {x y : TimerPtr}
  {a b : List TimerPtr} {run : Option TimerPtr}

/-! ### The cursors -/

lemma shows_new : Shows 0 TimerWheels.new := by
  refine ⟨rfl, fun i hi => ?_, reads_zero⟩
  interval_cases i <;> rfl

lemma advance_shows {n : ℕ} {w : TimerWheels} (h : Shows n w) :
    Shows (n + 1) (advance w.size 0 w) := by
  obtain ⟨hsize, hunit⟩ := advance_wheels w.size 0 w
  refine ⟨hsize.trans h.size, fun j hj => (hunit j).trans (h.unit j hj), ?_⟩
  rw [h.size, slotCur_advance]
  exact Reads.turn (by decide) h.cursor

lemma runFrom_cursors (s : Sys) (it : ℕ) : (runFrom s it).n = s.n ∧ Still s.w (runFrom s it).w ∨
    (runFrom s it).n = s.n + 1 ∧ ∃ w, Still s.w w ∧ (runFrom s it).w = advance w.size 0 w := by
  rw [runFrom]
  split
  · exact .inl ⟨rfl, .refl _⟩
  · exact .inr ⟨rfl, _, still_setSlot .., rfl⟩

/-- **The wheels are turned at the end of a tick**, and only there. -/
lemma goOn_cursors (h : goOn s = .ok s') : s'.n = s.n ∧ Still s.w s'.w ∨
    s'.n = s.n + 1 ∧ ∃ w, Still s.w w ∧ s'.w = advance w.size 0 w := by
  obtain ⟨w, it, hw, rfl⟩ : ∃ w it, Still s.w w ∧ s' = runFrom { s with w := w } it := by
    unfold goOn at h
    split at h
    · obtain ⟨w, hw, h⟩ := bind_ok_iff.mp h
      exact ⟨w, _, still_checkCurSlots hw, (Except.ok.inj h).symm⟩
    · split at h
      · cases h
      · obtain ⟨w, hw, h⟩ := bind_ok_iff.mp h
        exact ⟨w, _, still_afterCall hw, (Except.ok.inj h).symm⟩
  rcases runFrom_cursors { s with w := w } it with ⟨hn, hstill⟩ | ⟨hn, w', hstill, hw'⟩
  · exact .inl ⟨hn, hw.trans hstill⟩
  · exact .inr ⟨hn, w', hw.trans hstill, hw'⟩

/-! ### A tick -/

lemma runs_call (s : Sys) (x y : TimerPtr) (it : Option ℕ) (m : ℕ) :
    runs { s with it := it, ran := s.ran ++ [(x, m)] } y =
      runs s y ++ if x = y then [m] else [] := by
  by_cases h : x = y <;> simp [runs, h]

/-- The next callback of the tick. -/
lemma Pass.call (h : Pass due s a (x :: b) (x :: b) none) :
    Calling due { s with it := some a.length, ran := s.ran ++ [(x, s.n)] } a x b := by
  obtain ⟨hplaced, hout, hst⟩ := h.core.placed.take
  have hin : ∀ y, In (hole s (x :: b)) y ↔ y = x ∨ In (hole s b) y := fun y => in_take_iff
  refine ⟨⟨⟨h.core.shows, hplaced, h.core.levels, h.core.added, ?_, ?_, ?_, ?_⟩, h.slot, h.nodup,
    h.higher, ?_⟩, rfl, hst, hout⟩
  · intro y m hy
    rcases List.mem_append.mp hy with hy | hy
    · exact h.core.ranMade y m hy
    · obtain ⟨rfl, -⟩ := Prod.mk.inj (List.mem_singleton.mp hy)
      exact hst.made
  · intro y hr hy
    have hne : x ≠ y := by rintro rfl; exact hout hy
    rw [runs_call, h.core.waiting y hr ((hin y).mpr (.inr hy)), if_neg hne]
    rfl
  · intro y hm hr hd hy
    rw [runs_call]
    rcases eq_or_ne x y with rfl | hne
    · rw [h.core.waiting x hr ((hin x).mpr (.inl rfl)), if_pos rfl]
      rw [hst.due_now]; rfl
    · rw [if_neg hne, List.append_nil]
      refine h.core.done y hm hr hd fun hy' => ?_
      rcases (hin y).mp hy' with rfl | hy'
      exacts [hne rfl, hy hy']
  · intro y hm hr hd
    rcases h.core.alive y hm hr hd with hy | hy
    · rcases (hin y).mp hy with rfl | hy
      exacts [.inr rfl, .inl hy]
    · cases hy
  · intro y hy
    obtain ⟨hm, honce, hagain⟩ := h.spent y hy
    exact ⟨hm, fun hr => ⟨fun hy' => (honce hr).1 ((hin y).mpr (.inr hy')), (honce hr).2⟩, hagain⟩

lemma runs_eq_nil (h : ∀ y m, (y, m) ∈ s.ran → y ≠ x) : runs s x = [] := by
  have hnone : s.ran.filter (·.1 = x) = [] :=
    List.filter_eq_nil_iff.mpr fun e he => by simpa using h e.1 e.2 he
  exact congrArg _ hnone

lemma cursor_zero (h : Shows s.n s.w) : s.w.slotCur 0 = s.n % 60 := by
  rw [h.cursor 0 (by norm_num), pow_zero, Nat.div_one]

lemma Pass.curSlot_eq {rest : List TimerPtr} (h : Pass due s a rest b run) :
    s.w.curSlot = a ++ rest := by
  rw [curSlot, cursor_zero h.core.shows, h.slot]

/-- The end of a tick. -/
lemma Pass.finish (h : Pass due s a [] [] none) :
    Inv due { s with
      w := advance s.w.size 0 (s.w.setSlot 0 (s.w.slotCur 0) []), it := none, n := s.n + 1 } := by
  have hset : (s.w.setSlot 0 (s.w.slotCur 0) []).slots = hole s [] := by
    rw [slots_setSlot, cursor_zero h.core.shows]
  have h1 : Shows (s.n + 1) (advance s.w.size 0 (s.w.setSlot 0 (s.w.slotCur 0) [])) :=
    advance_shows h.core.shows.setSlot
  rw [h.core.shows.size] at h1 ⊢
  obtain ⟨h2, h3, h4⟩ := advance_frame 5 0 (s.w.setSlot 0 (s.w.slotCur 0) [])
  have hslots := h2.trans hset
  have hnone : ∀ i < 5, hole s [] (i, s.n / 60 ^ i % 60) = [] := by
    intro i hi
    rcases Nat.eq_zero_or_pos i with rfl | hpos
    · simp [hole]
    · have hne : (i, s.n / 60 ^ i % 60) ≠ (0, s.n % 60) := by
        intro he; have := congrArg Prod.fst he; dsimp only at this; omega
      rw [hole, update_of_ne hne, h.higher i hpos hi]
  have hrep : ∀ y, ((advance 5 0 (s.w.setSlot 0 (s.w.slotCur 0) [])).timers y).repeat_ =
      repeats s y := fun y => by rw [h3]; rfl
  have hmade : (advance 5 0 (s.w.setSlot 0 (s.w.slotCur 0) [])).made = s.w.made := h4
  refine .idle rfl ⟨h1, ?_, ?_, ?_, ?_, ?_, ?_, ?_⟩ <;> dsimp only
  · rw [hslots]
    exact (h.core.placed.advance hnone).congr (fun y _ => congrFun h3 y) hmade.ge fun _ _ => rfl
  · intro y hy; rw [h3]; exact h.core.levels y (hmade ▸ hy)
  · intro y n₀ hy
    obtain ⟨hm, hb⟩ := h.core.added y n₀ hy
    exact ⟨hmade.symm ▸ hm, fun hr => hb ((hrep y).symm.trans hr)⟩
  · intro y m hy; rw [hmade]; exact h.core.ranMade y m hy
  · intro y hr hy
    rw [hslots] at hy
    exact h.core.waiting y ((hrep y).symm.trans hr) hy
  · intro y hm hr hd hy
    rw [hslots] at hy
    exact h.core.done y (hmade ▸ hm) ((hrep y).symm.trans hr) hd hy
  · intro y hm hr hd
    rw [hslots]
    exact h.core.alive y (hmade ▸ hm) ((hrep y).symm.trans hr) hd

/-- **A tick goes on** to the next callback, or ends. -/
theorem runFrom_spec (h : Pass due s a b b none) :
    (b = [] ∧ (runFrom s a.length).n = s.n + 1 ∧ (runFrom s a.length).it = none ∧
        Inv due (runFrom s a.length)) ∨
      ∃ x b', b = x :: b' ∧ (runFrom s a.length).n = s.n ∧
        Calling due (runFrom s a.length) a x b' := by
  rw [runFrom, h.curSlot_eq, List.drop_left]
  cases b with
  | nil => exact .inl ⟨rfl, rfl, rfl, h.finish⟩
  | cons x b =>
    have hlevel : (s.w.timers x).level_ = 0 := h.core.placed.take.2.2.level
    rw [nextCall, if_pos hlevel]
    exact .inr ⟨x, b, rfl, rfl, h.call⟩

lemma runFrom_inv (h : Pass due s a b b none) : Inv due (runFrom s a.length) := by
  rcases runFrom_spec h with ⟨-, -, -, h⟩ | ⟨x, b', -, -, h⟩
  exacts [h, .calling a x b' h]

/-- Timers sent to lower wheels. -/
lemma Core.moved {w' : TimerWheels} (h : Core due s V run)
    (hm : Moved due s.n s.w w' V V') : Core due { s with w := w' } V' run := by
  have hrep : ∀ y, (w'.timers y).repeat_ = repeats s y := fun y => by rw [hm.timers]; rfl
  refine ⟨hm.shows, hm.placed, fun y hy => ?_, ?_, ?_, ?_, ?_, ?_⟩
  · exact (hm.levels y).trans_lt (h.levels y (hm.made ▸ hy))
  · intro y n₀ hy
    obtain ⟨hy, hb⟩ := h.added y n₀ hy
    exact ⟨hm.made.symm ▸ hy, fun hr => hb ((hrep y).symm.trans hr)⟩
  · intro y m hy; rw [hm.made]; exact h.ranMade y m hy
  · intro y hr hy
    exact h.waiting y ((hrep y).symm.trans hr) ((hm.held y).mp hy)
  · intro y hy hr hd hout
    exact h.done y (hm.made ▸ hy) ((hrep y).symm.trans hr) hd fun hin => hout ((hm.held y).mpr hin)
  · intro y hy hr hd
    rw [hm.held]
    exact h.alive y (hm.made ▸ hy) ((hrep y).symm.trans hr) hd

/-- A timer is placed anew. It is new, or it repeats. -/
lemma Core.arm {w' : TimerWheels} {t : ℕ} {run' : Option TimerPtr}
    {added : List (TimerPtr × ℕ)} (h : Core due s V run) (harm : Armed s.n s.w w' x t)
    (hout : ¬ In V x) (hmade : ∀ y < w'.made, y ≠ x → y < s.w.made)
    (hold : x < s.w.made → (w'.timers x).repeat_ = true)
    (hadded : ∀ e ∈ added, e ∈ s.added ∨ e = (x, s.n))
    (hrun : ∀ y ≠ x, run = some y → run' = some y) :
    Core (update due x (dueAt s.n t)) { s with w := w', added := added }
      (put V (topLevel t, slotFor s.n t) x) run' := by
  have hrep : ∀ y ≠ x, (w'.timers y).repeat_ = repeats s y :=
    fun y hy => by rw [harm.others y hy]; rfl
  have hdue : ∀ y ≠ x, update due x (dueAt s.n t) y = due y := fun y hy => update_of_ne hy ..
  have hself : update due x (dueAt s.n t) x = dueAt s.n t := update_self ..
  have hin : ∀ y, In (put V (topLevel t, slotFor s.n t) x) y ↔ In V y ∨ y = x := fun _ => in_put_iff
  have hnever : (w'.timers x).repeat_ = false → ∀ y m, (y, m) ∈ s.ran → y ≠ x := by
    rintro hr y m hy rfl
    exact absurd ((hold (h.ranMade y m hy)).symm.trans hr) (by decide)
  refine ⟨harm.shows, ?_, ?_, ?_, ?_, ?_, ?_, ?_⟩
  · refine (h.placed.congr (fun y hy => ?_) harm.made_le fun y hy => ?_).put hout
      (harm.stands hself)
    · exact harm.others y (by rintro rfl; exact hout hy)
    · exact hdue y (by rintro rfl; exact hout hy)
  · intro y hy
    rcases eq_or_ne y x with rfl | hne
    · rw [harm.level]; exact harm.top_lt
    · rw [harm.others y hne]; exact h.levels y (hmade y hy hne)
  · intro y n₀ hy
    rcases eq_or_ne y x with rfl | hne
    · refine ⟨harm.made, fun hr => ?_⟩
      rcases hadded _ hy with hy | hy
      · exact absurd ((hold (h.added y n₀ hy).1).symm.trans hr) (by decide)
      · obtain rfl := (Prod.mk.inj hy).2
        rw [hself]
        have hle : 60 ^ (topLevel t + 1) ≤ 60 ^ 5 := Nat.pow_le_pow_right (by norm_num) harm.top_lt
        have hlt := dueAt_lt s.n t
        exact ⟨le_dueAt s.n harm.pos, by omega⟩
    · rcases hadded _ hy with hy | hy
      · obtain ⟨hm, hb⟩ := h.added y n₀ hy
        rw [hdue y hne]
        exact ⟨hm.trans_le harm.made_le, fun hr => hb ((hrep y hne).symm.trans hr)⟩
      · exact absurd (Prod.mk.inj hy).1 hne
  · intro y m hy; exact (h.ranMade y m hy).trans_le harm.made_le
  · intro y hr hy
    rcases eq_or_ne y x with rfl | hne
    · exact runs_eq_nil (s := s) (hnever hr)
    · exact h.waiting y ((hrep y hne).symm.trans hr) (((hin y).mp hy).resolve_right hne)
  · intro y hm hr hd hy
    have hne : y ≠ x := fun he => hy ((hin y).mpr (.inr he))
    rw [hdue y hne]
    exact h.done y (hmade y hm hne) ((hrep y hne).symm.trans hr) hd
      fun hy' => hy ((hin y).mpr (.inl hy'))
  · intro y hm hr hd
    rw [hin]
    rcases eq_or_ne y x with rfl | hne
    · exact .inl (.inr rfl)
    · rcases h.alive y (hmade y hm hne) ((hrep y hne).symm.trans hr) hd with hy | hy
      exacts [.inl (.inl hy), .inr (hrun y hne hy)]

lemma slot_ne {t : ℕ} (ht : 0 < t) (i : ℕ) :
    (topLevel t, slotFor s.n t) ≠ (i, s.n / 60 ^ i % 60) := by
  rintro he
  obtain ⟨rfl, he⟩ := Prod.mk.inj he
  exact slotFor_ne s.n ht he

lemma slot_ne_zero {t : ℕ} (ht : 0 < t) : (topLevel t, slotFor s.n t) ≠ (0, s.n % 60) := by
  have := slot_ne (s := s) ht 0
  rwa [pow_zero, Nat.div_one] at this

/-- The slot that the tick runs stays as it is. -/
lemma curSlot_arm {w' : TimerWheels} {t : ℕ} (hw : Shows s.n s.w) (harm : Armed s.n s.w w' x t) :
    w'.curSlot = s.w.curSlot := by
  rw [curSlot, curSlot, cursor_zero hw, harm.shows.cursor 0 (by norm_num), harm.slots, pow_zero,
    Nat.div_one, put_of_ne (slot_ne_zero harm.pos).symm]

lemma hole_arm {w' : TimerWheels} {t : ℕ} {added : List (TimerPtr × ℕ)}
    (harm : Armed s.n s.w w' x t) : hole { s with w := w', added := added } b =
      put (hole s b) (topLevel t, slotFor s.n t) x := by
  rw [hole, hole, put_update (slot_ne_zero harm.pos), ← harm.slots]

/-- The same in a tick, for a timer that the tick has not run before. -/
lemma Pass.arm {w' : TimerWheels} {t : ℕ} {rest : List TimerPtr} {run' : Option TimerPtr}
    {added : List (TimerPtr × ℕ)} (h : Pass due s a rest b run) (harm : Armed s.n s.w w' x t)
    (hout : ¬ In (hole s b) x) (hxa : x ∉ a) (hmade : ∀ y < w'.made, y ≠ x → y < s.w.made)
    (hold : x < s.w.made → (w'.timers x).repeat_ = true)
    (hadded : ∀ e ∈ added, e ∈ s.added ∨ e = (x, s.n))
    (hrun : ∀ y ≠ x, run = some y → run' = some y) :
    Pass (update due x (dueAt s.n t)) { s with w := w', added := added } a rest b run' := by
  refine ⟨?_, ?_, h.nodup, fun i hi hi5 => ?_, fun y hy => ?_⟩
  · rw [hole_arm harm]; exact h.core.arm harm hout hmade hold hadded hrun
  · change w'.slots _ = _
    rw [harm.slots, put_of_ne (slot_ne_zero harm.pos).symm, h.slot]
  · change w'.slots _ = _
    rw [harm.slots, put_of_ne (slot_ne harm.pos i).symm, h.higher i hi hi5]
  · have hne : y ≠ x := by rintro rfl; exact hxa hy
    have hT := harm.others y hne
    obtain ⟨hm, honce, hagain⟩ := h.spent y hy
    refine ⟨hm.trans_le harm.made_le, fun hr => ?_, fun hr => ?_⟩
    · rw [repeats, hT] at hr
      obtain ⟨hy', hst⟩ := honce hr
      rw [hole_arm harm, in_put_iff]
      exact ⟨not_or.mpr ⟨hy', hne⟩, hst.congr hT harm.made_le (update_of_ne hne ..)⟩
    · rw [repeats, hT] at hr
      rw [hT]; exact hagain hr

/-- The callback of `x` has returned. -/
lemma Pass.shift (h : Pass due s a (x :: b) b run) (hx : Spent due s (hole s b) x) :
    Pass due s (a ++ [x]) b b run := by
  refine ⟨h.core, by rw [h.slot]; simp, by simpa using h.nodup, h.higher, fun y hy => ?_⟩
  rcases List.mem_append.mp hy with hy | hy
  · exact h.spent y hy
  · obtain rfl := List.mem_singleton.mp hy; exact hx

/-- After its callback a timer is placed anew if it repeats. -/
lemma Calling.afterCall_cases (h : Calling due s a x b) {w' : TimerWheels}
    (hw' : s.w.afterCall x = .ok w') :
    repeats s x = false ∧ w' = s.w ∨ repeats s x = true ∧ w'.made = s.w.made ∧
      (w'.timers x).interval_ = (s.w.timers x).interval_ ∧
      Armed s.n s.w w' x (s.w.timers x).interval_ := by
  cases hr : (s.w.timers x).repeat_ with
  | false => exact .inl ⟨hr, Except.ok.inj (hw'.symm.trans (afterCall_once hr))⟩
  | true => exact .inr ⟨hr, afterCall_repeat h.core.shows h.stands.made hr hw'⟩

/-- **`afterCall`** ends the call of `x` in the tick. -/
lemma Calling.after (h : Calling due s a x b) {w' : TimerWheels} (hw' : s.w.afterCall x = .ok w') :
    ∃ due', Pass due' { s with w := w' } (a ++ [x]) b b none ∧ w'.made = s.w.made ∧
      (∀ y, (w'.timers y).interval_ = (s.w.timers y).interval_) ∧
      (∀ y, repeats s y = false → due' y = due y) ∧ (∀ y ≠ x, due' y = due y) ∧
      (repeats s x = true → due' x = dueAt s.n (s.w.timers x).interval_) := by
  have hxa : x ∉ a := by
    have := (List.nodup_append.mp h.nodup).2.2
    exact fun hx => this x hx x (by simp) rfl
  rcases h.afterCall_cases hw' with ⟨hr, rfl⟩ | ⟨hr, hmade, hint, harm⟩
  · have hcore : Core due s (hole s b) none := by
      refine { h.core with alive := fun y hm hy hd => ?_ }
      rcases h.core.alive y hm hy hd with hin | he
      · exact .inl hin
      · obtain rfl := Option.some.inj he
        exact absurd (hy.symm.trans hr) (by decide)
    have hpass : Pass due s a (x :: b) b none := { h.toPass with core := hcore }
    exact ⟨due, hpass.shift ⟨h.stands.made, fun _ => ⟨h.out, h.stands⟩, fun hy =>
      absurd (hy.symm.trans hr) (by decide)⟩, rfl, fun _ => rfl, fun _ _ => rfl, fun _ _ => rfl,
      fun hy => absurd (hy.symm.trans hr) (by decide)⟩
  · have hrep : (w'.timers x).repeat_ = true := by
      rw [(w'.timers x).repeats, hint, ← (s.w.timers x).repeats]
      exact hr
    have hpass : Pass (update due x (dueAt s.n _)) { s with w := w' } a (x :: b) b none :=
      h.toPass.arm harm h.out hxa (fun y hy _ => hmade ▸ hy) (fun _ => hrep) (fun _ => .inl)
        fun y hy he => absurd (Option.some.inj he).symm hy
    refine ⟨_, hpass.shift ⟨harm.made, fun hy => ?_, fun _ => ?_⟩, hmade, fun y => ?_,
      fun y hy => ?_, fun y hy => update_of_ne hy .., fun _ => update_self ..⟩
    · exact absurd (hrep.symm.trans hy) (by decide)
    · rintro ⟨hl, hs⟩
      refine slot_ne_zero (s := s) harm.pos (Prod.ext ?_ ?_)
      · exact harm.level.symm.trans hl
      · exact harm.slot.symm.trans hs
    · rcases eq_or_ne y x with rfl | hne
      · exact hint
      · rw [harm.others y hne]
    · refine update_of_ne ?_ ..
      rintro rfl
      exact absurd (hr.symm.trans hy) (by decide)

lemma runFrom_frame (s : Sys) (it : ℕ) :
    (runFrom s it).w.timers = s.w.timers ∧ (runFrom s it).w.made = s.w.made := by
  rw [runFrom]
  split
  · exact ⟨rfl, rfl⟩
  · exact (advance_frame _ _ _).2

/-- **A tick begins**: the timers that are due stand in the slot to be run. -/
lemma goOn_idle (hit : s.it = none) (h : Core due s s.w.slots none) : ∃ w', ∃ b,
    goOn s = .ok (runFrom { s with w := w' } 0) ∧ Pass due { s with w := w' } [] b b none ∧
      w'.made = s.w.made ∧
      (∀ y, w'.timers y = { s.w.timers y with level_ := (w'.timers y).level_ }) ∧
      ∀ y, In w'.slots y ↔ In s.w.slots y := by
  obtain ⟨w', hok, hmoved, -, hnone⟩ :=
    checkCurSlots_spec (k := 4) (by norm_num) h.shows h.placed
  have hview : hole { s with w := w' } (w'.slots (0, s.n % 60)) = w'.slots := update_eq_self ..
  refine ⟨w', w'.slots (0, s.n % 60), ?_, ?_, hmoved.made, hmoved.timers, hmoved.held⟩
  · rw [goOn, hit]
    dsimp only
    rw [h.shows.size, hok]; rfl
  · refine ⟨?_, rfl, hmoved.placed.nodup _, fun i hi hi5 => hnone i hi (by omega), by simp⟩
    rw [hview]; exact h.moved hmoved

/-- **A callback returns.** -/
lemma goOn_calling (h : Calling due s a x b) :
    goOn s = (s.w.afterCall x).map fun w => runFrom { s with w := w } (a ++ [x]).length := by
  have hx : s.w.curSlot[a.length]? = some x := by rw [h.curSlot_eq]; simp
  rw [goOn, h.it]
  simp only [hx, List.length_append, List.length_singleton]
  rfl

lemma Calling.goOn_ok (h : Calling due s a x b) (hs : goOn s = .ok s') :
    ∃ w', s.w.afterCall x = .ok w' ∧ s' = runFrom { s with w := w' } (a ++ [x]).length := by
  rw [goOn_calling h] at hs
  cases hw' : s.w.afterCall x with
  | error e => rw [hw'] at hs; cases hs
  | ok w' =>
    rw [hw'] at hs
    exact ⟨w', rfl, (Except.ok.inj hs).symm⟩

theorem goOn_keeps (h : Inv due s) (hs : goOn s = .ok s') :
    ∃ due', Keeps due s due' s' ∧ s'.w.made = s.w.made := by
  have hend : ∀ {w' : TimerWheels} {due' a b}, Pass due' { s with w := w' } a b b none →
      w'.made = s.w.made → (∀ y, (w'.timers y).interval_ = (s.w.timers y).interval_) →
      (∀ y, repeats s y = false → due' y = due y) →
      Keeps due s due' (runFrom { s with w := w' } a.length) ∧
        (runFrom { s with w := w' } a.length).w.made = s.w.made := by
    intro w' due' a b hpass hmade hint hdue
    obtain ⟨ht, hm⟩ := runFrom_frame { s with w := w' } a.length
    refine ⟨⟨runFrom_inv hpass, fun y _ => hdue y, fun y _ => ?_, (hm.trans hmade).ge⟩,
      hm.trans hmade⟩
    rw [ht]; exact hint y
  rcases h with ⟨hit, hcore⟩ | ⟨a, x, b, h⟩
  · obtain ⟨w', b, hok, hpass, hmade, htimers, -⟩ := goOn_idle hit hcore
    obtain rfl := Except.ok.inj (hok.symm.trans hs)
    exact ⟨due, hend hpass hmade (fun y => by rw [htimers]) fun _ _ => rfl⟩
  · obtain ⟨w', hw', rfl⟩ := h.goOn_ok hs
    obtain ⟨due', hpass, hmade, hint, hdue, -⟩ := h.after hw'
    exact ⟨due', hend hpass hmade hint hdue⟩

/-! ### The other steps -/

/-- The state after `delTimer`. -/
def delete (s : Sys) (x : TimerPtr) : Sys :=
  { s with w := s.w.without x, it := s.it.map (s.w.itWithout x), deleted := s.deleted ++ [x] }

@[simp] lemma delete_n : (delete s x).n = s.n := rfl

lemma Core.without (h : Core due s V run) (x : TimerPtr) (i : ℕ × ℕ) :
    Core due (delete s x) (remove V i x) run := by
  have hin : ∀ y, In (remove V i x) y → In V y := fun _ => In.sub remove_sub
  refine ⟨h.shows.setSlot, ?_, h.levels, h.added, h.ranMade, ?_, ?_, ?_⟩
  · exact (h.placed.sub remove_sub).congr (fun _ _ => rfl) le_rfl fun _ _ => rfl
  · exact fun y hr hy => h.waiting y hr (hin y hy)
  · intro y hm hr hd hy
    obtain ⟨hd, hne⟩ : y ∉ s.deleted ∧ y ≠ x := by simpa [delete] using hd
    exact h.done y hm hr hd fun hy' => hy (in_remove hne hy')
  · intro y hm hr hd
    obtain ⟨hd, hne⟩ : y ∉ s.deleted ∧ y ≠ x := by simpa [delete] using hd
    exact (h.alive y hm hr hd).imp_left (in_remove hne)

lemma Spent.without (h : Spent due s V y) (x : TimerPtr) (i : ℕ × ℕ) :
    Spent due (delete s x) (remove V i x) y :=
  ⟨h.made, fun hr => ⟨fun hy => (h.once hr).1 (hy.sub remove_sub),
    (h.once hr).2.congr rfl le_rfl rfl⟩, h.again⟩

/-- The part of the slot before the running timer, and the part after it, lose the timer. -/
lemma Calling.without_hole (h : Calling due s a x b) (y : TimerPtr)
    (hne : s.w.told y = (0, s.n % 60) → y ≠ x) :
    ∃ a' b', Calling due (delete s y) a' x b' ∧
      hole (delete s y) b' = remove (hole s b) (s.w.told y) y := by
  have hslots : (delete s y).w.slots = remove s.w.slots (s.w.told y) y := slots_without
  have hzero := cursor_zero h.core.shows
  have hhigher : ∀ i, 0 < i → i < 5 → (delete s y).w.slots (i, s.n / 60 ^ i % 60) = [] := by
    intro i hi hi5
    have hsub : (remove s.w.slots (s.w.told y) y (i, s.n / 60 ^ i % 60)).Sublist _ := remove_sub _
    rw [h.higher i hi hi5] at hsub
    rw [hslots, List.sublist_nil.mp hsub]
  have hit : (delete s y).it = some (s.w.itWithout y a.length) := by
    rw [delete, h.it]; rfl
  have hst : Stands due s.n (delete s y).w (0, s.n % 60) x := h.stands.congr rfl le_rfl rfl
  by_cases htold : s.w.told y = (0, s.n % 60)
  · have hyx := hne htold
    have hview : hole (delete s y) (b.filter (· ≠ y)) =
        remove (hole s b) (s.w.told y) y := by
      rw [hole, hslots, htold]
      simp [remove, hole, delete]
    have hfilter : (a ++ x :: b).filter (· ≠ y) =
        a.filter (· ≠ y) ++ x :: b.filter (· ≠ y) := by
      simp [hyx.symm]
    refine ⟨a.filter (· ≠ y), b.filter (· ≠ y), ⟨⟨?_, ?_, ?_, hhigher, ?_⟩, ?_, hst, ?_⟩, hview⟩
    · rw [hview]; exact h.core.without y _
    · rw [hslots, htold, remove, delete_n, update_self, h.slot, hfilter]
    · rw [← hfilter]; exact h.nodup.filter _
    · intro z hz
      rw [hview]; exact (h.spent z (List.mem_of_mem_filter hz)).without y _
    · rw [hit, itWithout, if_pos (by rw [htold, hzero]), h.curSlot_eq, List.take_left]
    · rw [hview]; exact fun hx => h.out (hx.sub remove_sub)
  · have hview : hole (delete s y) b = remove (hole s b) (s.w.told y) y := by
      rw [hole, hslots, remove, remove, hole, delete_n, update_comm htold, update_of_ne htold]
    refine ⟨a, b, ⟨⟨?_, ?_, h.nodup, hhigher, ?_⟩, ?_, hst, ?_⟩, hview⟩
    · rw [hview]; exact h.core.without y _
    · rw [hslots, remove, delete_n, update_of_ne (Ne.symm htold), h.slot]
    · intro z hz; rw [hview]; exact (h.spent z hz).without y _
    · rw [hit, itWithout, if_neg (by rwa [hzero])]
    · rw [hview]; exact fun hx => h.out (hx.sub remove_sub)

lemma Calling.without (h : Calling due s a x b) (y : TimerPtr)
    (hne : s.w.told y = (0, s.n % 60) → y ≠ x) :
    ∃ a' b', Calling due (delete s y) a' x b' := by
  obtain ⟨a', b', h', -⟩ := h.without_hole y hne
  exact ⟨a', b', h'⟩

lemma Inv.levels (h : Inv due s) : ∀ x < s.w.made, (s.w.timers x).level_ < 5 := by
  rcases h with ⟨-, h⟩ | ⟨a, x, b, h⟩
  exacts [h.levels, h.core.levels]

lemma Inv.shows (h : Inv due s) : Shows s.n s.w := by
  rcases h with ⟨-, h⟩ | ⟨a, x, b, h⟩
  exacts [h.shows, h.core.shows]

/-- The timer whose callback runs. -/
def running (s : Sys) : Option TimerPtr := s.it.bind (s.w.curSlot[·]?)

lemma Calling.running (h : Calling due s a x b) : running s = some x := by
  rw [TimerRun.running, h.it, h.curSlot_eq]; simp

lemma calling_of_running (h : Inv due s) (hx : running s = some x) :
    ∃ a b, Calling due s a x b := by
  rcases h with ⟨hit, -⟩ | ⟨a, z, b, h⟩
  · rw [running, hit] at hx; cases hx
  · obtain rfl := Option.some.inj (h.running.symm.trans hx)
    exact ⟨a, b, h⟩

/-- `delTimer` erases a node, unless it is the one the loop of `runSlot` stands on. -/
lemma step_delTimer (h : Inv due s) (hx : x < s.w.made) :
    step s (.delTimer x) =
      if s.w.told x = (0, s.n % 60) ∧ running s = some x then .error .iterator
      else .ok (delete s x) := by
  have hrun : (∃ pos, s.it = some pos ∧ s.w.curSlot[pos]? = some x) ↔ running s = some x := by
    rw [running, Option.bind_eq_some_iff]
  rw [step, delTimer_eq h.shows hx (h.levels x hx), cursor_zero h.shows]
  simp only [hrun]
  split <;> rfl

lemma delTimer_ok (h : Inv due s) (hs : step s (.delTimer x) = .ok s') :
    ¬ (s.w.told x = (0, s.n % 60) ∧ running s = some x) ∧ s' = delete s x := by
  have hx : x < s.w.made := by
    by_contra hx
    simp [step, delTimer, Nat.not_lt.mp hx] at hs
  rw [step_delTimer h hx] at hs
  split at hs
  · cases hs
  · rename_i hne
    exact ⟨hne, (Except.ok.inj hs).symm⟩

theorem delTimer_keeps (h : Inv due s) (hs : step s (.delTimer x) = .ok s') :
    Keeps due s due s' ∧ s'.w.made = s.w.made := by
  obtain ⟨hne, rfl⟩ := delTimer_ok h hs
  refine ⟨⟨?_, fun _ _ _ => rfl, fun _ _ => rfl, le_rfl⟩, rfl⟩
  rcases h with ⟨hit, hcore⟩ | ⟨a, z, b, h⟩
  · refine .idle (by rw [delete, hit]; rfl) ?_
    rw [delete, slots_without]
    exact hcore.without x _
  · obtain ⟨a', b', h'⟩ := h.without x fun ht he => hne ⟨ht, he ▸ h.running⟩
    exact .calling a' z b' h'

/-- **`addTimer`** makes a timer that waits for its ticks. -/
theorem addTimer_keeps {now expirationTime : ℤ} {interval : ℕ} (h : Inv due s)
    (hs : step s (.addTimer now expirationTime interval) = .ok s') :
    ∃ due', Keeps due s due' s' ∧ (∀ y < s.w.made, due' y = due y) ∧
      ∀ y, s.w.made ≤ y → y < s'.w.made →
        due' y = dueAt s.n (s'.w.timers y).tickNum_ ∧ (s'.w.timers y).interval_ = interval := by
  obtain ⟨⟨r, w'⟩, hadd, hs⟩ := bind_ok_iff.mp hs
  obtain rfl := Except.ok.inj hs
  rcases addTimer_spec h.shows hadd with ⟨rfl, rfl⟩ | ⟨t, -, rfl, hmade, hint, harm⟩
  · refine ⟨due, ⟨?_, fun _ _ _ => rfl, fun _ _ => rfl, le_rfl⟩, fun _ _ => rfl,
      fun y hy hlt => ?_⟩
    · simpa using h
    · exact absurd hlt (Nat.not_lt.mpr hy)
  · have hfresh : ∀ {V}, Placed due s.n s.w V → ¬ In V s.w.made :=
      fun hp ⟨i, hi⟩ => Nat.lt_irrefl _ (hp.stands hi).made
    have hsucc : ∀ y < w'.made, y ≠ s.w.made → y < s.w.made := fun y hy hne => by
      rw [hmade] at hy
      exact Nat.lt_of_le_of_ne (Nat.le_of_lt_succ hy) hne
    have hold : s.w.made < s.w.made → (w'.timers s.w.made).repeat_ = true :=
      fun hlt => absurd hlt (Nat.lt_irrefl _)
    have hadded : ∀ e ∈ s.added ++ [(s.w.made, s.n)], e ∈ s.added ∨ e = (s.w.made, s.n) :=
      fun e he => by simpa using he
    have hne : ∀ y < s.w.made, y ≠ s.w.made := fun y hy => Nat.ne_of_lt hy
    refine ⟨update due s.w.made (dueAt s.n t), ⟨?_, fun y hy _ => update_of_ne (hne y hy) ..,
      fun y hy => ?_, harm.made_le⟩, fun y hy => update_of_ne (hne y hy) .., fun y hy hlt => ?_⟩
    · rcases h with ⟨hit, hcore⟩ | ⟨a, z, b, h⟩
      · refine .idle hit ?_
        change Core _ _ w'.slots none
        rw [harm.slots]
        exact hcore.arm harm (hfresh hcore.placed) hsucc hold hadded fun _ _ => id
      · have hza : ∀ y ∈ a, y ≠ s.w.made := fun y hy => hne y (h.spent y hy).made
        have hzm := hne z h.stands.made
        have hpass := h.toPass.arm harm (hfresh h.core.placed) (fun hx => hza _ hx rfl) hsucc hold
          hadded fun _ _ => id
        refine .calling a z b ⟨hpass, h.it, ?_, ?_⟩
        · exact h.stands.congr (harm.others z hzm) harm.made_le (update_of_ne hzm ..)
        · rw [hole_arm harm, in_put_iff]
          exact not_or.mpr ⟨h.out, hzm⟩
    · change (w'.timers y).interval_ = _
      rw [harm.others y (hne y hy)]
    · change y < w'.made at hlt
      rw [hmade] at hlt
      obtain rfl : y = s.w.made := Nat.le_antisymm (Nat.le_of_lt_succ hlt) hy
      refine ⟨?_, hint⟩
      change _ = dueAt s.n (w'.timers s.w.made).tickNum_
      rw [harm.tickNum, update_self]

theorem step_keeps (h : Inv due s) {act : Action} (hs : step s act = .ok s') :
    ∃ due', Keeps due s due' s' := by
  cases act with
  | addTimer now expirationTime interval =>
    obtain ⟨due', h', -⟩ := addTimer_keeps h hs
    exact ⟨due', h'⟩
  | delTimer timer => exact ⟨due, (delTimer_keeps h hs).1⟩
  | go => exact (goOn_keeps h hs).imp fun _ hk => hk.1

lemma inv_init (due : TimerPtr → ℕ) : Inv due init := by
  have hnot : ∀ x, ¬ x < init.w.made := fun x => Nat.not_lt_zero x
  refine .idle rfl ⟨shows_new, ⟨once_empty, fun hi => absurd hi List.not_mem_nil⟩, ?_, ?_, ?_, ?_,
    ?_, ?_⟩
  · exact fun x hx => absurd hx (hnot x)
  · exact fun _ _ hx => absurd hx List.not_mem_nil
  · exact fun _ _ hx => absurd hx List.not_mem_nil
  · exact fun _ _ ⟨_, hx⟩ => absurd hx List.not_mem_nil
  · exact fun x hx => absurd hx (hnot x)
  · exact fun x hx => absurd hx (hnot x)

end MuduoZ.TimerRun
