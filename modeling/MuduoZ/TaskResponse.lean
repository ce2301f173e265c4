import MuduoZ.TaskOrder

/-!
How long a queued function waits.

The functions are numbered as they are pushed, and run in that order. So the loop has to return from
those in front of a function, and to come round to the swap once; what is pushed meanwhile, by other
threads or by the functions themselves, goes behind it.
-/

namespace MuduoZ.TaskResponse

open EventLoop (Action)
open Runs TaskOrder

/-- The steps of the loop thread in a run, but for those inside `queueInLoop`. -/
abbrev loopSteps : Sys → List Action → ℕ :=
  tally step fun s a => a = .loop ∧ s.l.calling = false

/-- Steps of the loop until it takes the queue. -/
def untilSwap (l : EventLoop) : ℕ :=
  match l.pc with
  | .poll => 4
  | .handleEvents true => 3
  | .handleEvents false => 2
  | .swap => 1
  | .run functions => functions.length + 5

/-- Steps of the loop until function `f` has returned. -/
def left (s : Sys) (f : ℕ) : ℕ :=
  if f < s.returned.length then 0
  else if f < s.returned.length + (batch s.l).length then f + 1 - s.returned.length
  else untilSwap s.l + (f + 1 - s.returned.length - (batch s.l).length)

variable {s t : Sys} {a : Action} {as bs : List Action} {f : ℕ}

/-- The numbers of the functions that have returned. -/
lemma returned_eq (h : Inv s) : s.returned = List.range s.returned.length := by
  have hpre : s.returned <+: List.range s.l.next := by
    rw [← h.numbers, ← h.pushed, ← h.swapped, List.append_assoc]
    exact List.prefix_append _ _
  obtain ⟨rest, hrest⟩ := hpre
  have htake := congrArg (List.take s.returned.length) hrest
  rw [List.take_left, List.take_range] at htake
  have hle := congrArg List.length hrest
  rw [List.length_append, List.length_range] at hle
  rw [min_eq_left (by omega)] at htake
  exact htake

lemma length_queue (h : Inv s) :
    s.returned.length + (batch s.l).length + s.l.pendingFunctions_.length = s.l.next := by
  have := congrArg List.length h.numbers
  rw [← h.pushed, ← h.swapped, List.length_range] at this
  simpa [Nat.add_assoc] using this

lemma next_le (h : Inv s) (hs : step s a = .ok t) : s.l.next ≤ t.l.next := by
  have hpushed : t.pushed = s.pushed ++ pushes s.l a := by
    obtain ⟨l, -, ht⟩ := bind_ok_iff.mp hs
    obtain rfl := Except.ok.inj ht
    rfl
  have hlen := congrArg List.length hpushed
  rw [h.numbers, (step_inv s a t h hs).numbers] at hlen
  simp only [List.length_append, List.length_range] at hlen
  omega

lemma untilSwap_le (l : EventLoop) : 0 < untilSwap l ∧ untilSwap l ≤ (batch l).length + 5 := by
  unfold untilSwap batch
  rcases l.pc with _ | ⟨_ | _⟩ | _ | functions <;> simp

/-- A step of the loop leads to the swap, or takes the queue, or returns from a function. -/
lemma loop_cases (l : EventLoop) (hc : l.calling = false) :
    (batch l = [] ∧ running l = [] ∧ batch l.loop = [] ∧ untilSwap l.loop + 1 ≤ untilSwap l) ∨
    (batch l = [] ∧ running l = [] ∧ batch l.loop = l.pendingFunctions_ ∧ untilSwap l = 1) ∨
    ∃ g, batch l = g :: batch l.loop ∧ running l = [g] ∧ untilSwap l.loop + 1 = untilSwap l := by
  obtain ⟨wakeupFd_, calling, pending, pc, calls, next⟩ := l
  have hloop : (EventLoop.mk wakeupFd_ calling pending pc calls next).loop = _ :=
    if_neg (by simpa using hc)
  rw [hloop]
  rcases pc with _ | ⟨_ | _⟩ | _ | ⟨_ | ⟨g, functions⟩⟩
  case poll =>
    refine .inl ⟨rfl, rfl, rfl, ?_⟩
    cases decide (0 < wakeupFd_) <;> simp [untilSwap]
  case swap => exact .inr (.inl ⟨rfl, rfl, rfl, rfl⟩)
  case run.cons => exact .inr (.inr ⟨g, rfl, rfl, by simp [untilSwap]⟩)
  all_goals exact .inl ⟨rfl, rfl, rfl, by simp [untilSwap]⟩

/-- A step of the loop brings every function nearer. -/
lemma loop_left (h : Inv s) (hc : s.l.calling = false) (hf : f < s.l.next)
    (hs : step s .loop = .ok t) : left t f ≤ left s f - 1 := by
  have hq := length_queue h
  have hl : t.l = s.l.loop := by obtain rfl := Except.ok.inj hs; rfl
  have hr : t.returned = s.returned ++ running s.l := by
    obtain rfl := Except.ok.inj hs
    simp [returns, hc]
  rw [left, left, hl, hr, List.length_append]
  rcases loop_cases s.l hc with ⟨hb, hrun, hb', hu⟩ | ⟨hb, hrun, hb', hu⟩ | ⟨g, hb, hrun, hu⟩
  · rw [hb, hrun, hb', List.length_nil]
    split_ifs <;> omega
  · rw [hb, List.length_nil] at hq
    rw [hb, hrun, hb', hu, List.length_nil]
    split_ifs <;> omega
  · rw [hb, hrun]
    simp only [List.length_cons, List.length_nil]
    split_ifs <;> omega

/-- Any other step leaves it where it is. -/
lemma other_left (h : s.l.calling = true ∨ a ≠ .loop) (hs : step s a = .ok t) :
    left t f = left s f := by
  have hframe : t.returned = s.returned ∧ t.l.pc = s.l.pc := by
    cases a with
    | queueInLoop inLoop =>
      obtain rfl := Except.ok.inj hs
      refine ⟨by simp [returns], ?_⟩
      dsimp only [EventLoop.queueInLoop]
      split_ifs <;> rfl
    | call i =>
      obtain rfl := Except.ok.inj hs
      exact ⟨by simp [returns], (TaskOrder.advance_frame s.l i).1⟩
    | loop =>
      have hc := h.resolve_right (not_not.mpr rfl)
      obtain rfl := Except.ok.inj hs
      exact ⟨by simp [returns, hc], by rw [EventLoop.loop, if_pos hc]⟩
  rw [left, left, untilSwap, batch, hframe.1, hframe.2]
  rfl

lemma step_left (s : Sys) (a : Action) (t : Sys) (h : Inv s ∧ f < s.l.next) (_ : True)
    (hs : step s a = .ok t) : (Inv t ∧ f < t.l.next) ∧
      left t f ≤ left s f - if a = .loop ∧ s.l.calling = false then 1 else 0 := by
  obtain ⟨hinv, hf⟩ := h
  refine ⟨⟨step_inv s a t hinv hs, hf.trans_le (next_le hinv hs)⟩, ?_⟩
  by_cases hloop : a = .loop ∧ s.l.calling = false
  · obtain ⟨rfl, hc⟩ := hloop
    rw [if_pos ⟨rfl, hc⟩]
    exact loop_left hinv hc hf hs
  · rw [if_neg hloop, Nat.sub_zero]
    exact (other_left (by simpa [or_comm, imp_iff_not_or] using hloop) hs).le

/-- **No function is starved**: a function that was pushed has returned when the loop has returned
from the functions pushed before it and made six more steps, whatever else is pushed meanwhile. -/
theorem returned_in_time (hs : exec step start as = .ok s) (hf : f < s.l.next)
    (ht : exec step s bs = .ok t) (hn : f + 6 ≤ s.returned.length + loopSteps s bs) :
    f ∈ t.returned := by
  have hinv := exec_inv step_inv start_inv hs
  have heach : Each step (fun _ _ => True) s bs := each_of_forall (fun _ _ _ => trivial) s
  obtain ⟨⟨hinv', -⟩, hle⟩ : (Inv t ∧ f < t.l.next) ∧ left t f ≤ left s f - loopSteps s bs :=
    exec_le_sub step_left ⟨hinv, hf⟩ heach ht
  have hleft : left s f ≤ f + 6 - s.returned.length := by
    have := (untilSwap_le s.l).2
    rw [left]
    split_ifs <;> omega
  have hzero : left t f = 0 := by omega
  rw [returned_eq hinv', List.mem_range]
  by_contra hge
  have := (untilSwap_le t.l).1
  rw [left, if_neg hge] at hzero
  split_ifs at hzero <;> omega

/-- A function waits while another one is pushed. -/
theorem returned_in_time_one : ∃ s t, exec step start [.queueInLoop false] = .ok s ∧ 0 < s.l.next ∧
    exec step s [.loop, .queueInLoop false, .call 0, .loop, .call 1, .loop, .call 0, .loop,
      .call 0, .loop, .loop] = .ok t ∧ 0 ∈ t.returned := by
  obtain ⟨s, t, hs, hf, ht, hn⟩ : ∃ s t, exec step start [.queueInLoop false] = .ok s ∧
      0 < s.l.next ∧ exec step s [.loop, .queueInLoop false, .call 0, .loop, .call 1, .loop,
        .call 0, .loop, .call 0, .loop, .loop] = .ok t ∧
      0 + 6 ≤ s.returned.length + loopSteps s [.loop, .queueInLoop false, .call 0, .loop, .call 1,
        .loop, .call 0, .loop, .call 0, .loop, .loop] :=
    ⟨_, _, rfl, by decide, rfl, by decide⟩
  exact ⟨s, t, hs, hf, ht, returned_in_time hs hf ht hn⟩

end MuduoZ.TaskResponse
