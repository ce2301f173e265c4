import MuduoZ.Fault
import MuduoZ.Lib.Run

/-!
The event loop, and the calls of `queueInLoop` that go on beside it.

One thread runs the loop; any thread may call `queueInLoop`. A call pushes its function under
the lock, then decides whether to wake the loop, then writes to the event descriptor, then
returns; the steps of all threads interleave.
-/

namespace MuduoZ

namespace EventLoop

/-- Where a call of `queueInLoop` is, once it has pushed. -/
inductive Stage
  | decide | write | ret
  deriving DecidableEq, Repr

structure Call where
  function : ℕ
  inLoop : Bool
  stage : Stage
  deriving DecidableEq, Repr

/-- Where the loop thread is. Handling events, it has the wakeup channel before it or not;
running functions, it is in the first of those left. -/
inductive Pc
  | poll
  | handleEvents (wakeup : Bool)
  | swap
  | run (functions : List ℕ)
  deriving DecidableEq, Repr

end EventLoop

open EventLoop in
/-- `wakeupFd_` is the counter behind the descriptor. Functions are numbered in the order in
which they are pushed. -/
structure EventLoop where
  wakeupFd_ : ℕ
  callingPendingFunctors_ : Bool
  pendingFunctions_ : List ℕ
  pc : Pc
  calls : List Call
  next : ℕ
  deriving DecidableEq, Repr

namespace EventLoop

open Runs

def new : EventLoop := ⟨0, false, [], .poll, [], 0⟩

variable (l : EventLoop)

/-- `write` on the event descriptor adds to the counter. -/
def writeFd (t : ℕ) : EventLoop := { l with wakeupFd_ := l.wakeupFd_ + t }

/-- `read` on the event descriptor clears the counter. -/
def readFd : EventLoop := { l with wakeupFd_ := 0 }

def wakeup : EventLoop :=
  let t := 0
  l.writeFd t

/-- The loop thread is inside a call of `queueInLoop`. -/
def calling : Bool := l.calls.any Call.inLoop

/-- User code may run in the loop thread: an event callback or a queued function. -/
def inCallBack : Bool :=
  match l.pc with
  | .handleEvents _ => !l.calling
  | .run (_ :: _) => !l.calling
  | _ => false

/-- The loop thread, or another one, can begin a call. -/
def canCall (inLoop : Bool) : Bool := !inLoop || l.inCallBack

/-- The push with which a call begins, if it can begin. -/
def queueInLoop (inLoop : Bool) : EventLoop :=
  if l.canCall inLoop then
    { l with
      pendingFunctions_ := l.pendingFunctions_ ++ [l.next]
      calls := l.calls ++ [⟨l.next, inLoop, .decide⟩]
      next := l.next + 1 }
  else l

/-- The next step of a call of `queueInLoop`. -/
def advance (i : ℕ) : EventLoop :=
  match l.calls[i]? with
  | none => l
  | some c => match c.stage with
    | .decide =>
      let stage := if !c.inLoop || l.callingPendingFunctors_ then Stage.write else Stage.ret
      { l with calls := l.calls.set i { c with stage := stage } }
    | .write => { l.wakeup with calls := l.calls.set i { c with stage := .ret } }
    | .ret => { l with calls := l.calls.eraseIdx i }

/-- The next step of `loop` in the loop thread, which waits for the call it is in. -/
def loop : EventLoop :=
  if l.calling then l
  else match l.pc with
    | .poll => { l with pc := .handleEvents (0 < l.wakeupFd_) }
    | .handleEvents true => { l.readFd with pc := .handleEvents false }
    | .handleEvents false => { l with pc := .swap, callingPendingFunctors_ := true }
    | .swap => { l with pc := .run l.pendingFunctions_, pendingFunctions_ := [] }
    | .run (_ :: functions) => { l with pc := .run functions }
    | .run [] => { l with pc := .poll }

inductive Action
  | queueInLoop (inLoop : Bool)
  | call (i : ℕ)
  | loop
  deriving DecidableEq, Repr

def step (l : EventLoop) : Action → Result EventLoop
  | .queueInLoop inLoop => .ok (l.queueInLoop inLoop)
  | .call i => .ok (l.advance i)
  | .loop => .ok l.loop

/-- In front of `poll`, with functions queued by calls that have returned, the descriptor is
readable. -/
def Woken : Prop :=
  l.pc = .poll → l.pendingFunctions_ ≠ [] →
    (∀ c ∈ l.calls, c.function ∉ l.pendingFunctions_) → 0 < l.wakeupFd_

/-- The loop thread is between its return from `poll` and the swap. -/
def BeforeSwap : Prop := (∃ wakeup, l.pc = .handleEvents wakeup) ∨ l.pc = .swap

/-- A push comes before the swap of a round. -/
def InTime : Action → Prop
  | .queueInLoop inLoop => l.canCall inLoop = true → l.BeforeSwap
  | _ => True

variable {l}

/-! ### The calls in progress -/

/-- `l'` is a later state of the loop in the same round, with the same queue. -/
structure SameQueue (l l' : EventLoop) : Prop where
  pending : l'.pendingFunctions_ = l.pendingFunctions_
  pc : l'.pc = l.pc

lemma SameQueue.trans {l l' l'' : EventLoop} (h : SameQueue l l') (h' : SameQueue l' l'') :
    SameQueue l l'' :=
  ⟨h'.pending.trans h.pending, h'.pc.trans h.pc⟩

/-- A call that goes on leaves the queue and the loop alone, and adds 0 to the counter. -/
lemma advance_frame (l : EventLoop) (i : ℕ) :
    SameQueue l (l.advance i) ∧ (l.advance i).wakeupFd_ = l.wakeupFd_ := by
  unfold advance
  split
  · exact ⟨⟨rfl, rfl⟩, rfl⟩
  · split <;> exact ⟨⟨rfl, rfl⟩, rfl⟩

/-! ### The descriptor is never readable -/

lemma step_counter (l : EventLoop) (a : Action) (l' : EventLoop) (hl : l.wakeupFd_ = 0)
    (h : step l a = .ok l') : l'.wakeupFd_ = 0 := by
  cases a with
  | queueInLoop inLoop =>
    obtain rfl := Except.ok.inj h
    simp only [queueInLoop]
    split_ifs <;> exact hl
  | call i =>
    obtain rfl := Except.ok.inj h
    exact (advance_frame l i).2.trans hl
  | loop =>
    obtain rfl := Except.ok.inj h
    simp only [loop]
    split_ifs
    · exact hl
    · split <;> first | exact hl | rfl

/-! ### Pushes in time -/

/-- Outside its window the queue is empty. -/
def Idle (l : EventLoop) : Prop := ¬ l.BeforeSwap → l.pendingFunctions_ = []

lemma step_idle (l : EventLoop) (a : Action) (l' : EventLoop) (hl : l.Idle) (ha : l.InTime a)
    (h : step l a = .ok l') : l'.Idle := by
  cases a with
  | queueInLoop inLoop =>
    obtain rfl := Except.ok.inj h
    simp only [queueInLoop]
    split_ifs with hc
    · exact fun hn => absurd (ha hc) hn
    · exact hl
  | call i =>
    obtain rfl := Except.ok.inj h
    obtain ⟨hpending, hpc⟩ := (advance_frame l i).1
    intro hn
    rw [hpending]
    exact hl (by rwa [BeforeSwap, hpc] at hn)
  | loop =>
    obtain rfl := Except.ok.inj h
    simp only [loop]
    split_ifs
    · exact hl
    · cases hpc : l.pc with
      | poll => exact fun hn => absurd (.inl ⟨_, rfl⟩) hn
      | handleEvents wakeup =>
        cases wakeup
        · exact fun hn => absurd (.inr rfl) hn
        · exact fun hn => absurd (.inl ⟨_, rfl⟩) hn
      | swap => exact fun _ => rfl
      | run functions =>
        have hempty : l.pendingFunctions_ = [] := hl (by simp [BeforeSwap, hpc])
        cases functions <;> exact fun _ => hempty

/-! ### A push at another time -/

/-- The first call in progress returns. -/
lemma return_first {c : Call} {cs : List Call} (hc : l.calls = c :: cs) :
    ∃ n l', exec step l (List.replicate n (.call 0)) = .ok l' ∧ SameQueue l l' ∧ l'.calls = cs := by
  obtain ⟨function, inLoop, stage⟩ := c
  cases stage with
  | ret => exact ⟨1, _, rfl, (advance_frame ..).1, by simp [advance, hc]⟩
  | write =>
    refine ⟨2, _, rfl, (advance_frame ..).1.trans (advance_frame ..).1, ?_⟩
    simp [advance, hc, wakeup, writeFd]
  | decide =>
    cases hw : !inLoop || l.callingPendingFunctors_
    · refine ⟨2, _, rfl, (advance_frame ..).1.trans (advance_frame ..).1, ?_⟩
      simp [advance, hc, hw]
    · refine ⟨3, _, rfl,
        ((advance_frame ..).1.trans (advance_frame ..).1).trans (advance_frame ..).1, ?_⟩
      simp [advance, hc, hw, wakeup, writeFd]

/-- All calls in progress return. -/
lemma return_all : ∃ n l', exec step l (List.replicate n (.call 0)) = .ok l' ∧
    SameQueue l l' ∧ l'.calls = [] := by
  generalize hcs : l.calls = cs
  induction cs generalizing l with
  | nil => exact ⟨0, l, rfl, ⟨rfl, rfl⟩, hcs⟩
  | cons c cs ih =>
    obtain ⟨n, l1, h1, hq1, hc1⟩ := return_first hcs
    obtain ⟨m, l2, h2, hq2, hc2⟩ := ih hc1
    refine ⟨n + m, l2, ?_, hq1.trans hq2, hc2⟩
    rw [List.replicate_add, exec_append_ok _ h1, h2]

/-- The functions of the round return, and the loop is in front of `poll`. -/
lemma finish_round (functions : List ℕ) : ∀ l : EventLoop, l.calls = [] →
    l.pc = .run functions → ∃ n l', exec step l (List.replicate n .loop) = .ok l' ∧
      l'.pendingFunctions_ = l.pendingFunctions_ ∧ l'.calls = [] ∧ l'.pc = .poll := by
  induction functions with
  | nil =>
    intro l hc hpc
    have hloop : l.loop = { l with pc := .poll } := by simp [loop, calling, hc, hpc]
    refine ⟨1, _, rfl, ?_, ?_, ?_⟩ <;> simp [hloop, hc]
  | cons f fs ih =>
    intro l hc hpc
    have hloop : step l .loop = .ok { l with pc := .run fs } := by
      simp [step, loop, calling, hc, hpc]
    obtain ⟨n, l', hn, hl'⟩ := ih { l with pc := .run fs } hc rfl
    exact ⟨n + 1, l', by rw [List.replicate_succ, exec_cons_ok _ hloop, hn], hl'⟩

/-- From a state after a push at another time the loop comes to `poll` without being woken. -/
lemma reaches_poll (hl : ¬ l.BeforeSwap) : ∃ bs l', (∀ inLoop, .queueInLoop inLoop ∉ bs) ∧
    exec step l bs = .ok l' ∧ l'.pc = .poll ∧ l'.calls = [] ∧
      l'.pendingFunctions_ = l.pendingFunctions_ := by
  obtain ⟨n, l1, h1, hq, hc⟩ := return_all (l := l)
  rcases hpc : l.pc with _ | wakeup | _ | functions
  · exact ⟨_, l1, by simp, h1, hq.pc.trans hpc, hc, hq.pending⟩
  · exact absurd (.inl ⟨wakeup, hpc⟩) hl
  · exact absurd (.inr hpc) hl
  · obtain ⟨m, l2, h2, hp2, hc2, hpc2⟩ := finish_round functions l1 hc (hq.pc.trans hpc)
    refine ⟨List.replicate n (.call 0) ++ List.replicate m .loop, l2, by simp, ?_, hpc2, hc2,
      hp2.trans hq.pending⟩
    rw [exec_append_ok _ h1, h2]

/-- A push at another time can be the last one, and its wakeup is lost. -/
lemma push_lost {inLoop : Bool} (hzero : l.wakeupFd_ = 0) (hcan : l.canCall inLoop = true)
    (hout : ¬ l.BeforeSwap) : ∃ bs l', (∀ inLoop, .queueInLoop inLoop ∉ bs) ∧
      exec step (l.queueInLoop inLoop) bs = .ok l' ∧ ¬ l'.Woken := by
  have hpush : (l.queueInLoop inLoop).pc = l.pc ∧
      (l.queueInLoop inLoop).pendingFunctions_ = l.pendingFunctions_ ++ [l.next] ∧
      (l.queueInLoop inLoop).wakeupFd_ = l.wakeupFd_ := by
    simp [queueInLoop, hcan]
  have hout' : ¬ (l.queueInLoop inLoop).BeforeSwap := by
    rwa [BeforeSwap, hpush.1]
  obtain ⟨bs, l', hno, hbs, hpc, hcalls, hpend⟩ := reaches_poll hout'
  have hzero' : l'.wakeupFd_ = 0 := exec_inv step_counter (hpush.2.2.trans hzero) hbs
  refine ⟨bs, l', hno, hbs, fun hwoken => ?_⟩
  have := hwoken hpc (by rw [hpend, hpush.2.1]; simp) (by simp [hcalls])
  omega

/-- **No wakeup is lost when every push comes before the swap of its round**; and a run with a
push at another time can, up to that push, go on to a lost wakeup without another push. -/
theorem woken_of_inTime (as : List Action) :
    (Each step InTime new as → Along step Woken new as) ∧
    (¬ Each step InTime new as → ∃ pre post bs, as = pre ++ post ∧
      (∀ inLoop, .queueInLoop inLoop ∉ bs) ∧ ¬ Along step Woken new (pre ++ bs)) := by
  constructor
  · refine along_of_each step_idle (fun l hl hpc hne => ?_) (fun _ => rfl)
    exact absurd (hl (by simp [BeforeSwap, hpc])) hne
  · intro h
    simp only [Each, not_forall] at h
    obtain ⟨pre, a, post, l, l', he, hl, ha, hbad⟩ := h
    cases a with
    | call i => exact absurd trivial hbad
    | loop => exact absurd trivial hbad
    | queueInLoop inLoop =>
      obtain ⟨hcan, hout⟩ := Classical.not_imp.mp hbad
      obtain ⟨bs, l2, hno, hbs, hlost⟩ := push_lost (exec_inv step_counter rfl hl) hcan hout
      refine ⟨pre ++ [.queueInLoop inLoop], post, bs, by simp [he], hno, fun halong => ?_⟩
      refine hlost (halong.last ?_)
      rw [List.append_assoc, exec_append_ok _ hl]
      exact (exec_cons_ok _ rfl).trans hbs

/-- Another thread queues a function while the loop waits in `poll`; the call returns. -/
theorem wakeup_writes_zero :
    ¬ Along step Woken new [.queueInLoop false, .call 0, .call 0, .call 0] := by
  intro h
  exact absurd (h.last rfl rfl (by decide) (by decide)) (by decide)

end EventLoop

end MuduoZ
