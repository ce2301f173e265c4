import MuduoZ.TimerRun

/-!
The cursors of any number of wheels.

Whatever is done with the timers, between the ticks and in their callbacks, the cursors count the
ticks that have ended. The calls are those of `TimerRun`, and `delAll`.
-/

namespace MuduoZ.TimerOdometer

open Odometer Runs TimerRun TimerWheels

inductive Action
  | call (act : TimerRun.Action)
  | delAll

/-- New wheels, as many as are asked for. -/
def start (maxLevel : ℕ) : Sys := { init with w := construct maxLevel }

def step (s : Sys) : Action → Result Sys
  | .call act => TimerRun.step s act
  | .delAll => match s.it with
    -- while a callback runs, the loop of `runSlot` stands on a node that is erased
    | some _ => .error .iterator
    | none => .ok { s with w := s.w.delAll, deleted := s.deleted ++ List.range s.w.made }

variable {L : ℕ} {s s' : Sys} {as : List Action}

/-- `L` wheels that show the ticks. -/
structure Counts (L : ℕ) (s : Sys) : Prop where
  size : s.w.size = L
  reads : Reads SlotNum L s.n s.w.slotCur

lemma counts_start : Counts L (start L) := ⟨rfl, reads_zero⟩

/-- While the wheels stand still, so does the number of ticks. -/
lemma Counts.still (h : Counts L s) (hw : Still s.w s'.w) (hn : s'.n = s.n) : Counts L s' :=
  ⟨hw.size.trans h.size, by rw [hn, hw.cursor]; exact h.reads⟩

lemma Counts.turned (h : Counts L s) {w : TimerWheels} (hw : Still s.w w)
    (hs' : s'.w = advance w.size 0 w) (hn : s'.n = s.n + 1) : Counts L s' := by
  have hsize : w.size = L := hw.size.trans h.size
  refine ⟨?_, ?_⟩
  · rw [hs', (advance_wheels _ _ _).1, hsize]
  · rw [hs', hsize, slotCur_advance, hw.cursor, hn]
    exact h.reads.turn (by decide)

lemma step_counts (s : Sys) (act : Action) (s' : Sys) (h : Counts L s)
    (hs : step s act = .ok s') : Counts L s' := by
  cases act with
  | call act =>
    cases act with
    | addTimer now expirationTime interval =>
      obtain ⟨⟨r, w⟩, hw, hs⟩ := bind_ok_iff.mp hs
      obtain rfl := Except.ok.inj hs
      exact h.still (still_addTimer hw) rfl
    | delTimer timer =>
      obtain ⟨⟨w, it⟩, hw, hs⟩ := bind_ok_iff.mp hs
      obtain rfl := Except.ok.inj hs
      exact h.still (still_delTimer hw) rfl
    | go =>
      rcases goOn_cursors hs with ⟨hn, hw⟩ | ⟨hn, w, hw, hs'⟩
      · exact h.still hw hn
      · exact h.turned hw hs' hn
  | delAll =>
    simp only [step] at hs
    split at hs
    · cases hs
    · obtain rfl := Except.ok.inj hs
      exact h.still (still_delAll s.w) rfl

/-- **The wheels are an odometer**, however many they are: in every state of a run, the middle of a
tick included, the cursor of wheel `i` is digit `i` of the number of ticks. -/
theorem cursors_count (hs : exec step (start L) as = .ok s) :
    s.w.size = L ∧ ∀ i < L, s.w.slotCur i = s.n / SlotNum ^ i % SlotNum := by
  have h := exec_inv step_counts counts_start hs
  exact ⟨h.size, h.reads⟩

/-- Two wheels and a timer of 61 ticks, in its callback. -/
theorem cursors_count_two : ∃ s, exec step (start 2)
      (.call (.addTimer 0 61000 0) :: List.replicate 62 (.call .go)) = .ok s ∧
    (s.n = 61 ∧ s.it = some 0) ∧
    s.w.size = 2 ∧ ∀ i < 2, s.w.slotCur i = s.n / SlotNum ^ i % SlotNum := by
  have hrun : (exec step (start 2)
      (.call (.addTimer 0 61000 0) :: List.replicate 62 (.call .go))).toOption.map
      (fun s => (s.n, s.it)) = some (61, some 0) := by decide +kernel
  obtain ⟨s, hs, he⟩ := exec_of_map hrun
  exact ⟨s, hs, Prod.mk.inj he, cursors_count hs⟩

end MuduoZ.TimerOdometer
