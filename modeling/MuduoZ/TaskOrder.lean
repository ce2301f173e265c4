import MuduoZ.EventLoop

/-!
The order in which queued functions run.

What was pushed is at every moment what has returned, then the batch that is being run, then
the queue.
-/

namespace MuduoZ.TaskOrder

open EventLoop Runs

/-- The loop, with all functions that were pushed, those that had been pushed at the last swap,
and those that have returned. -/
structure Sys where
  l : EventLoop
  pushed : List ℕ
  swapped : List ℕ
  returned : List ℕ

def start : Sys := ⟨.new, [], [], []⟩

/-- The function that a step pushes. -/
def pushes (l : EventLoop) : Action → List ℕ
  | .queueInLoop inLoop => if l.canCall inLoop then [l.next] else []
  | _ => []

/-- The step takes the queue away. -/
def swaps (l : EventLoop) (a : Action) : Bool := a = .loop && !l.calling && l.pc = .swap

/-- The function that runs. -/
def running (l : EventLoop) : List ℕ :=
  match l.pc with
  | .run (f :: _) => [f]
  | _ => []

/-- The function that returns in a step. -/
def returns (l : EventLoop) (a : Action) : List ℕ :=
  if a = .loop && !l.calling then running l else []

def step (s : Sys) (a : Action) : Result Sys := do
  let l ← EventLoop.step s.l a
  .ok ⟨l, s.pushed ++ pushes s.l a, if swaps s.l a then s.pushed else s.swapped,
    s.returned ++ returns s.l a⟩

/-- All that `doPendingFunctions` has called so far. -/
def executed (s : Sys) : List ℕ := s.returned ++ running s.l

/-- What is left of the batch, with the function that runs. -/
def batch (l : EventLoop) : List ℕ :=
  match l.pc with
  | .run functions => functions
  | _ => []

structure Inv (s : Sys) : Prop where
  swapped : s.returned ++ batch s.l = s.swapped
  pushed : s.swapped ++ s.l.pendingFunctions_ = s.pushed
  numbers : s.pushed = List.range s.l.next

variable {s : Sys}

lemma start_inv : Inv start := ⟨rfl, rfl, rfl⟩

lemma running_first (l : EventLoop) : running l <+: batch l := by
  unfold running batch
  rcases l.pc with _ | _ | _ | _ | ⟨f, functions⟩
  case run.cons => exact ⟨functions, rfl⟩
  all_goals exact List.nil_prefix

lemma push_inv (h : Inv s) (inLoop : Bool) :
    Inv ⟨s.l.queueInLoop inLoop, s.pushed ++ pushes s.l (.queueInLoop inLoop), s.swapped,
      s.returned⟩ := by
  obtain ⟨hs, hp, hn⟩ := h
  simp only [queueInLoop, pushes]
  by_cases hc : s.l.canCall inLoop
  · rw [if_pos hc, if_pos hc]
    refine ⟨hs, ?_, ?_⟩
    · dsimp only
      rw [← List.append_assoc, hp]
    · dsimp only
      rw [hn, List.range_succ]
  · rw [if_neg hc, if_neg hc, List.append_nil]
    exact ⟨hs, hp, hn⟩

/-- A step inside a call of `queueInLoop` moves no function. -/
lemma advance_frame (l : EventLoop) (i : ℕ) : (l.advance i).pc = l.pc ∧
    (l.advance i).pendingFunctions_ = l.pendingFunctions_ ∧ (l.advance i).next = l.next := by
  unfold advance
  split
  · exact ⟨rfl, rfl, rfl⟩
  · split <;> exact ⟨rfl, rfl, rfl⟩

/-- The swap makes the queue the batch; a function that returns leaves the batch. -/
lemma loop_inv (h : Inv s) (hc : s.l.calling = false) :
    Inv ⟨s.l.loop, s.pushed, if s.l.pc = .swap then s.pushed else s.swapped,
      s.returned ++ running s.l⟩ := by
  obtain ⟨hs, hp, hn⟩ := h
  unfold loop running
  rw [if_neg (by simp [hc])]
  unfold batch at hs
  rcases hpc : s.l.pc with _ | ⟨_ | _⟩ | _ | ⟨_ | ⟨f, functions⟩⟩ <;> rw [hpc] at hs
  case swap =>
    -- between two batches all that was swapped has returned
    refine ⟨?_, List.append_nil _, hn⟩
    simp only [List.append_nil] at hs ⊢
    simp only [batch, if_true, hs, hp]
  case run.cons => exact ⟨by simpa [batch] using hs, hp, hn⟩
  all_goals exact ⟨by simpa [batch] using hs, hp, hn⟩

lemma step_inv (s : Sys) (a : Action) (s' : Sys) (h : Inv s) (hs : step s a = .ok s') :
    Inv s' := by
  cases a with
  | queueInLoop inLoop =>
    obtain rfl := Except.ok.inj hs
    simpa [swaps, returns] using push_inv h inLoop
  | call i =>
    obtain rfl := Except.ok.inj hs
    obtain ⟨hpc, hpend, hnext⟩ := advance_frame s.l i
    refine ⟨?_, ?_, ?_⟩
    · have := h.swapped
      simpa [batch, hpc, swaps, returns] using this
    · simpa [hpend, swaps, pushes] using h.pushed
    · simpa [hnext, pushes] using h.numbers
  | loop =>
    obtain rfl := Except.ok.inj hs
    cases hc : s.l.calling with
    | false => simpa [swaps, returns, pushes, hc] using loop_inv h hc
    | true =>
      have hstay : s.l.loop = s.l := by rw [loop, if_pos hc]
      simpa [swaps, returns, pushes, hc, hstay] using h

lemma step_total (s : Sys) (a : Action) : ∃ t, step s a = .ok t := by
  cases a <;> exact ⟨_, rfl⟩

/-- **Functions run once each, in the order in which they were pushed**; and when a call of
`doPendingFunctions` is over, all that had been pushed before its swap has returned. -/
theorem in_order (as : List Action) : ∃ s, exec step start as = .ok s ∧
    executed s <+: s.pushed ∧ (executed s).Nodup ∧
    ((∀ f functions, s.l.pc ≠ .run (f :: functions)) → s.returned = s.swapped) := by
  obtain ⟨s, hs, h⟩ := exec_total (I := Inv) (s := start)
    (fun s a hI => (step_total s a).imp fun t ht => ⟨ht, step_inv s a t hI ht⟩) start_inv as
  have hpre : executed s <+: s.pushed := by
    rw [← h.pushed, ← h.swapped, executed, List.append_assoc]
    exact List.prefix_append_right_inj _ |>.mpr ((running_first s.l).trans (List.prefix_append ..))
  refine ⟨s, hs, hpre, hpre.sublist.nodup ?_, fun hpc => ?_⟩
  · rw [h.numbers]; exact List.nodup_range
  · have hb : batch s.l = [] := by
      unfold batch
      rcases hp : s.l.pc with _ | _ | _ | ⟨_ | ⟨f, functions⟩⟩
      case run.cons => exact absurd hp (hpc f functions)
      all_goals rfl
    rw [← h.swapped, hb, List.append_nil]

end MuduoZ.TaskOrder
