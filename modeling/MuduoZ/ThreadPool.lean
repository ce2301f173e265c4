import Mathlib.Data.Int.CardIntervalMod
import MuduoZ.Fault

/-!
The pool of loop threads, and the order in which it hands out its loops.

`getLoop` computes a remainder that it throws away. The index comes back to 0 by the comparison
after it, so the remainder matters for a divisor of 0 alone.
-/

namespace MuduoZ

/-- `loops_` are the loops that the threads of the pool have published. -/
structure EventLoopThreadPool (Loop : Type) where
  baseLoop_ : Loop
  threadNum_ : ℕ
  nextLoopIndex_ : ℕ
  loops_ : List Loop
  deriving DecidableEq, Repr

namespace EventLoopThreadPool

variable {Loop : Type}

def new (baseLoop : Loop) (threadNum : ℕ) : EventLoopThreadPool Loop :=
  ⟨baseLoop, threadNum, 0, []⟩

variable (p : EventLoopThreadPool Loop)

/-- `thread i` is what `start` of the thread `i` returns. -/
def start (thread : ℕ → Loop) : EventLoopThreadPool Loop :=
  { p with loops_ := p.loops_ ++ (List.range p.threadNum_).map thread }

def getLoop : Result (Loop × EventLoopThreadPool Loop) :=
  if p.loops_.isEmpty then .ok (p.baseLoop_, p)
  else match p.loops_[p.nextLoopIndex_]? with
    | none => .error .index
    | some loop =>
      let nextLoopIndex := p.nextLoopIndex_ + 1
      -- `(++nextLoopIndex_)%threadNum_`
      if p.threadNum_ = 0 then .error .zero
      else .ok (loop, { p with
        nextLoopIndex_ := if p.loops_.length ≤ nextLoopIndex then 0 else nextLoopIndex })

/-- The loops handed out by a number of calls. -/
def getLoops : ℕ → EventLoopThreadPool Loop → Result (List Loop × EventLoopThreadPool Loop)
  | 0, p => .ok ([], p)
  | k + 1, p => do
    let (loops, p) ← getLoops k p
    let (loop, p) ← p.getLoop
    .ok (loops ++ [loop], p)

/-- The pool was started, and hands out loops of its threads. -/
structure Running : Prop where
  threads : p.loops_ ≠ []
  divisor : p.threadNum_ ≠ 0
  index : p.nextLoopIndex_ < p.loops_.length

variable {p}

lemma start_running (b : Loop) {n : ℕ} (hn : n ≠ 0) (thread : ℕ → Loop) :
    ((new b n).start thread).Running := by
  refine ⟨?_, hn, ?_⟩
  · simpa [start, new] using hn
  · simp only [start, new, List.nil_append, List.length_map, List.length_range]
    omega

/-- One call: the loop at the index, and the index goes around. -/
lemma Running.getLoop (h : p.Running) : ∃ loop p', p.getLoop = .ok (loop, p') ∧
    p.loops_[p.nextLoopIndex_]? = some loop ∧
    p' = { p with nextLoopIndex_ := (p.nextLoopIndex_ + 1) % p.loops_.length } := by
  have hne : p.loops_.isEmpty = false := by simpa using h.threads
  have hget := List.getElem?_eq_getElem h.index
  have hnext : (if p.loops_.length ≤ p.nextLoopIndex_ + 1 then 0 else p.nextLoopIndex_ + 1) =
      (p.nextLoopIndex_ + 1) % p.loops_.length := by
    have hi := h.index
    split_ifs with hle
    · rw [show p.nextLoopIndex_ + 1 = p.loops_.length by omega, Nat.mod_self]
    · rw [Nat.mod_eq_of_lt (by omega)]
  refine ⟨_, _, ?_, hget, rfl⟩
  simp only [EventLoopThreadPool.getLoop, hne, hget, hnext, if_neg h.divisor]
  rfl

/-- **Round robin**: however often it is called, `getLoop` hands out the loops in turn. -/
lemma Running.getLoops (h : p.Running) (k : ℕ) : ∃ loops p', p.getLoops k = .ok (loops, p') ∧
    p' = { p with nextLoopIndex_ := (p.nextLoopIndex_ + k) % p.loops_.length } ∧
    loops.length = k ∧
    ∀ i < k, loops[i]? = p.loops_[(p.nextLoopIndex_ + i) % p.loops_.length]? := by
  induction k with
  | zero =>
    refine ⟨[], p, rfl, ?_, rfl, fun i hi => absurd hi (Nat.not_lt_zero i)⟩
    rw [Nat.add_zero, Nat.mod_eq_of_lt h.index]
  | succ k ih =>
    obtain ⟨loops, q, hloops, rfl, hlen, hget⟩ := ih
    have hpos : 0 < p.loops_.length := (Nat.zero_le _).trans_lt h.index
    have hq : Running { p with nextLoopIndex_ := (p.nextLoopIndex_ + k) % p.loops_.length } :=
      ⟨h.threads, h.divisor, Nat.mod_lt _ hpos⟩
    obtain ⟨loop, q', hcall, hloop, rfl⟩ := hq.getLoop
    dsimp only at hcall
    rw [Nat.mod_add_mod, Nat.add_assoc] at hcall
    refine ⟨loops ++ [loop], _, ?_, rfl, by simp [hlen], fun i hi => ?_⟩
    · simp only [EventLoopThreadPool.getLoops, hloops, ok_bind, hcall]
    · rcases Nat.lt_succ_iff_lt_or_eq.mp hi with hi | rfl
      · rw [List.getElem?_append_left (by omega), hget i hi]
      · rw [← hlen, List.getElem?_concat_length, hlen, ← hloop]

/-- How often a loop is handed out, by the places at which it stands. -/
lemma count_eq [DecidableEq Loop] {loops : List Loop} {loop : Loop} {n j k : ℕ} (hn : 0 < n)
    (hlen : loops.length = k)
    (h : ∀ i < k, loops[i]? = some loop ↔ i ≡ j [MOD n]) :
    loops.count loop = k / n + if j % n < k % n then 1 else 0 := by
  rw [← Nat.count_modEq_card k hn j]
  induction k generalizing loops with
  | zero => rw [List.eq_nil_of_length_eq_zero hlen]; rfl
  | succ k ih =>
    obtain ⟨init, last, rfl⟩ : ∃ init last, loops = init ++ [last] := by
      rcases List.eq_nil_or_concat loops with rfl | ⟨init, last, rfl⟩
      · cases hlen
      · exact ⟨init, last, List.concat_eq_append ..⟩
    rw [List.length_append, List.length_singleton, Nat.add_left_inj] at hlen
    have hinit : ∀ i < k, init[i]? = some loop ↔ i ≡ j [MOD n] := fun i hi => by
      rw [← h i (by omega), List.getElem?_append_left (by omega)]
    have hlast : last = loop ↔ k ≡ j [MOD n] := by
      rw [← h k (Nat.lt_succ_self k), ← hlen, List.getElem?_concat_length, Option.some.injEq]
    rw [List.count_append, ih hlen hinit, Nat.count_succ]
    by_cases hl : last = loop
    · rw [if_pos (hlast.mp hl), hl, List.count_singleton_self]
    · rw [if_neg (mt hlast.mpr hl), List.count_singleton, if_neg (by simpa using hl)]

/-- **The loops are handed out evenly**: a pool that was started with `n` threads never fails, and
of `k` calls each of its loops gets `k / n`, or one more. -/
theorem getLoops_even [DecidableEq Loop] (b : Loop) {n : ℕ} (hn : n ≠ 0) {thread : ℕ → Loop}
    (hthread : ∀ i < n, ∀ j < n, thread i = thread j → i = j) (k : ℕ) :
    ∃ loops p', ((new b n).start thread).getLoops k = .ok (loops, p') ∧ loops.length = k ∧
      (∀ i < k, loops[i]? = some (thread (i % n))) ∧
      ∀ j < n, loops.count (thread j) = k / n + if j < k % n then 1 else 0 := by
  obtain ⟨loops, p', hcall, -, hlen, hget⟩ := (start_running b hn thread).getLoops k
  have hloops : ((new b n).start thread).loops_ = (List.range n).map thread := by
    simp [start, new]
  have hget' : ∀ i < k, loops[i]? = some (thread (i % n)) := fun i hi => by
    have hlt := Nat.mod_lt i (Nat.pos_of_ne_zero hn)
    rw [hget i hi, hloops]
    simp [start, new, hlt]
  refine ⟨loops, p', hcall, hlen, hget', fun j hj => ?_⟩
  rw [count_eq (j := j) (Nat.pos_of_ne_zero hn) hlen fun i hi => ?_, Nat.mod_eq_of_lt hj]
  rw [hget' i hi, Option.some.injEq, Nat.ModEq, Nat.mod_eq_of_lt hj]
  exact ⟨hthread _ (Nat.mod_lt _ (Nat.pos_of_ne_zero hn)) _ hj, congrArg thread⟩

/-- Five connections and three threads. -/
theorem getLoops_even_three : ∃ loops p',
    ((new 9 3).start (fun i => i)).getLoops 5 = .ok (loops, p') ∧ loops.length = 5 ∧
      (∀ i < 5, loops[i]? = some (i % 3)) ∧
      ∀ j < 3, loops.count j = 5 / 3 + if j < 5 % 3 then 1 else 0 :=
  getLoops_even 9 (by decide) (fun _ _ _ _ h => h) 5

end EventLoopThreadPool

end MuduoZ
