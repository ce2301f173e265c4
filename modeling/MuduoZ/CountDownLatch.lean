import MuduoZ.Lib.Monitor

/-!
A latch that any number of threads count down, and any number wait for.

`count_` goes down forever: who counts down below zero wakes nobody. It is an `int`, which overflows
below `-2 ^ 31`; the runs of the code are those that do not count down further than that.
-/

namespace MuduoZ.CountDownLatch

open Runs Monitor

/-- `wait` waits while `count_` is positive, and `countDown` notifies when it has come to zero. -/
def latch : Spec ℤ Unit where
  ready count_ := !decide (0 < count_)
  update _ count_ := count_ - 1
  notifies _ count_ := count_ == 0
  rings _ count_ h h' := by
    simp only [Bool.not_eq_false', decide_eq_true_eq, Bool.not_eq_true', decide_eq_false_iff_not,
      beq_iff_eq] at h h' ⊢
    omega

def wait : Call Unit := .wait

def countDown : Call Unit := .update ()

/-- The latch, with the threads that use it. -/
abbrev Latch (T : Type*) := Sys T ℤ Unit

abbrev new (T : Type*) (count : ℤ) : Latch T := start count

variable {T : Type*} [DecidableEq T] {count : ℤ} {s s' : Latch T} {as bs : List (Action T Unit)}

lemma run_eq (count : ℤ) (us : List Unit) : latch.run count us = count - us.length := by
  induction us generalizing count with
  | nil => simp [Spec.run]
  | cons u us ih =>
    rw [Spec.run, List.foldl_cons, ← Spec.run, ih, List.length_cons]
    simp only [latch]
    push_cast
    ring

lemma stable : latch.Stable := fun _ count_ h => by
  simp only [latch, Bool.not_eq_true', decide_eq_false_iff_not] at h ⊢
  omega

lemma prompt : latch.Prompt := fun _ count_ h => by
  simp only [latch, beq_iff_eq, Bool.not_eq_true', decide_eq_false_iff_not] at h ⊢
  omega

omit [DecidableEq T] in
/-- Every call has counted down once, so an `int` holds `count_` for `count + 2 ^ 31` calls. -/
lemma count_eq (h : Inv latch count s) : s.data = count - s.updates.length :=
  h.data.trans (run_eq ..)

omit [DecidableEq T] in
/-- The latch is open when it was counted down as often as it was set to. -/
lemma ready_iff (h : Inv latch count s) :
    latch.ready s.data = true ↔ count ≤ s.updates.length := by
  rw [count_eq h]
  simp [latch]

/-- **No wait returns early**: in every run, when a thread leaves `wait`, the latch was counted
down as often as it was set to, and the thread is alone under the lock. -/
theorem wait_returns_open (h : exec (step latch) (new T count) as = .ok s) {t : T}
    (ht : s.place t = .unlock wait) :
    count ≤ s.updates.length ∧ ∀ u, (s.place u).holds = true → u = t := by
  have hinv := exec_inv h
  refine ⟨(ready_iff hinv).mp (hinv.passed t ht), fun u hu => ?_⟩
  exact hinv.eq_of_holds (by rw [ht]; rfl) hu

/-- Two count down and one waits, which is woken for no reason in between. -/
theorem wait_returns_open_two : ∃ s : Latch (Fin 3),
    exec (step latch) (new (Fin 3) 2)
      [.call 0 wait, .go 0, .go 0, .call 1 countDown, .go 1, .wake 0, .go 1, .go 1, .go 1, .go 0,
        .go 0, .call 2 countDown, .go 2, .go 2, .go 2, .go 2, .go 0, .go 0] = .ok s ∧
    s.place 0 = .unlock wait ∧ 2 ≤ (s.updates.length : ℤ) ∧
    ∀ u, (s.place u).holds = true → u = 0 := by
  obtain ⟨s, hs, hp⟩ : ∃ s : Latch (Fin 3), exec (step latch) (new (Fin 3) 2)
      [.call 0 wait, .go 0, .go 0, .call 1 countDown, .go 1, .wake 0, .go 1, .go 1, .go 1, .go 0,
        .go 0, .call 2 countDown, .go 2, .go 2, .go 2, .go 2, .go 0, .go 0] = .ok s ∧
      s.place 0 = .unlock wait := ⟨_, rfl, rfl⟩
  exact ⟨s, hs, hp, wait_returns_open hs hp⟩

variable [Fintype T]

/-- **No wakeup is lost**: once the latch was counted down as often as it was set to, every call
that has begun ends, whatever the threads do. They take a bounded number of steps, and when no
thread can go on, all have returned. -/
theorem all_return (h : exec (step latch) (new T count) as = .ok s)
    (hcount : count ≤ s.updates.length) (hbs : ∀ b ∈ bs, b.isCall = false)
    (hs : exec (step latch) s bs = .ok s') :
    bs.length ≤ 4 * Fintype.card T ∧
      ((∀ t, ∃ e, step latch s' (.go t) = .error e) → ∀ t, s'.place t = .outside) := by
  have hinv := exec_inv h
  have hready := (ready_iff hinv).mpr hcount
  obtain ⟨hlen, hend⟩ := calls_end stable prompt hinv hready hbs hs
  exact ⟨hlen.trans (Sys.left_le hready), hend⟩

/-- Two wait, and one counts down and wakes them. -/
theorem all_return_two : ∃ s s' : Latch (Fin 3),
    exec (step latch) (new (Fin 3) 1)
      [.call 0 wait, .go 0, .go 0, .call 1 wait, .go 1, .go 1, .call 2 countDown, .go 2, .go 2] =
        .ok s ∧
    exec (step latch) s
      [.go 2, .go 2, .go 1, .go 1, .go 1, .go 0, .go 0, .go 0] = .ok s' ∧
    8 ≤ 4 * Fintype.card (Fin 3) ∧
      ((∀ t, ∃ e, step latch s' (.go t) = .error e) → ∀ t, s'.place t = .outside) := by
  obtain ⟨s, s', hs, hs', hcount⟩ : ∃ s s' : Latch (Fin 3), exec (step latch) (new (Fin 3) 1)
      [.call 0 wait, .go 0, .go 0, .call 1 wait, .go 1, .go 1, .call 2 countDown, .go 2, .go 2] =
        .ok s ∧
      exec (step latch) s
        [.go 2, .go 2, .go 1, .go 1, .go 1, .go 0, .go 0, .go 0] = .ok s' ∧
      (1 : ℤ) ≤ s.updates.length := ⟨_, _, rfl, rfl, by decide⟩
  exact ⟨s, s', hs, hs', all_return hs hcount (by simp [Action.isCall]) hs'⟩

end MuduoZ.CountDownLatch
