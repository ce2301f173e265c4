import MuduoZ.Fault
import MuduoZ.Lib.Run

/-!
A loop in a thread of its own, and its owner who ends it.

`EventLoopThread` and `TimerWheelsThread` are the same but for two things. `start` returns when the
thread has published its loop, and the loop sets `quit_` to false when it begins, which is later. A
request that comes in between is overwritten.
-/

namespace MuduoZ.QuitLoop

open Runs

/-- What the constructor of the loop sets `quit_` to, and whether a callback may run between the
publication of the loop and its run. -/
structure Kind where
  quit_ : Bool
  cb_ : Bool

def eventLoopThread : Kind := ⟨false, true⟩
def timerWheelsThread : Kind := ⟨true, false⟩

/-- Where `threadFunc` is, with the loop it calls. -/
inductive Stage
  | idle       -- the thread was not started
  | construct
  | publish
  | callBack
  | enter      -- in front of `quit_ = false`
  | test       -- in front of `while(!quit_)`
  | body
  | leave
  | done
  deriving DecidableEq

/-- Where the owner is. -/
inductive Owner
  | start
  | wait
  | started    -- `start` has returned
  | quit       -- the destructor has seen that there is a loop
  | join
  | done
  deriving DecidableEq

/-- Both threads. `loop_` says that the pointer to the loop is not null. -/
structure LoopThread where
  quit_ : Bool
  loop_ : Bool
  thread : Stage
  owner : Owner
  iterations : ℕ
  deriving DecidableEq

def new : LoopThread := ⟨false, false, .idle, .start, 0⟩

variable (k : Kind) (s : LoopThread)

/-- The next step of `threadFunc`: `loop` of an `EventLoop`, or `run` of a `TimerWheels`, from
`enter` on. -/
def threadFunc : LoopThread :=
  match s.thread with
  | .idle => s
  | .construct => { s with quit_ := k.quit_, thread := .publish }
  | .publish => { s with loop_ := true, thread := if k.cb_ then .callBack else .enter }
  | .callBack => { s with thread := .enter }
  | .enter => { s with quit_ := false, thread := .test }
  | .test => { s with thread := if s.quit_ then .leave else .body }
  | .body => { s with iterations := s.iterations + 1, thread := .test }
  | .leave => { s with loop_ := false, thread := .done }
  | .done => s

/-- The next step of the owner: `start`, then the destructor. `quitLoop` of an `EventLoop` and
`stop` of a `TimerWheels` set `quit_`. -/
def ownerFunc : LoopThread :=
  match s.owner with
  | .start => { s with thread := .construct, owner := .wait }
  | .wait => { s with owner := if s.loop_ then .started else .wait }
  | .started => { s with owner := if s.loop_ then .quit else .done }
  | .quit => { s with quit_ := true, owner := .join }
  | .join => { s with owner := if s.thread = .done then .done else .join }
  | .done => s

inductive Action
  | thread
  | owner
  deriving DecidableEq

def step (s : LoopThread) : Action → Result LoopThread
  | .thread => .ok (threadFunc k s)
  | .owner => .ok (ownerFunc s)

/-- The loop has returned. -/
def Returned (s : LoopThread) : Prop := s.thread = .leave ∨ s.thread = .done

/-- The request that the owner is about to make is kept: whatever both threads do then, at most
one more iteration ends, and the loop has returned after two steps of its thread. -/
def Kept (s : LoopThread) : Prop :=
  ∀ as t, exec (step k) s (.owner :: as) = .ok t →
    t.iterations ≤ s.iterations + 1 ∧ (2 ≤ as.count .thread → Returned t)

/-- The loop has set `quit_` to false. -/
def Looping (s : LoopThread) : Prop :=
  s.thread = .test ∨ s.thread = .body ∨ s.thread = .leave ∨ s.thread = .done

variable {k : Kind} {s t : LoopThread} {as : List Action}

/-! ### A request that is kept -/

/-- Steps of the thread until the loop has returned, if it is to end. -/
def stepsLeft : Stage → ℕ
  | .test => 1
  | .body => 2
  | _ => 0

/-- The loop is to end, after at most the iterations given. -/
structure Ending (m : ℕ) (s : LoopThread) : Prop where
  quit : s.quit_ = true
  owner : s.owner = .join ∨ s.owner = .done
  looping : Looping s
  iterations : s.iterations ≤ m
  body : s.thread = .body → s.iterations + 1 ≤ m

lemma Ending.thread {m : ℕ} (h : Ending m s) : Ending m (threadFunc k s) ∧
    stepsLeft (threadFunc k s).thread ≤ stepsLeft s.thread - 1 := by
  obtain ⟨hquit, howner, hloop, hit, hbody⟩ := h
  rcases hloop with ht | ht | ht | ht <;> simp only [threadFunc, ht, hquit]
  · exact ⟨⟨rfl, howner, by simp [Looping], hit, by simp⟩, by simp [stepsLeft]⟩
  · exact ⟨⟨rfl, howner, by simp [Looping], hbody ht, by simp⟩, by simp [stepsLeft]⟩
  · exact ⟨⟨rfl, howner, by simp [Looping], hit, by simp⟩, by simp [stepsLeft]⟩
  · exact ⟨⟨hquit, howner, .inr (.inr (.inr ht)), hit, hbody⟩, by simp [stepsLeft]⟩

lemma Ending.ownerFunc {m : ℕ} (h : Ending m s) : Ending m (ownerFunc s) ∧
    (QuitLoop.ownerFunc s).thread = s.thread := by
  obtain ⟨hquit, howner, hloop, hit, hbody⟩ := h
  rcases howner with ho | ho <;> simp only [QuitLoop.ownerFunc, ho]
  · refine ⟨⟨hquit, ?_, hloop, hit, hbody⟩, trivial⟩
    dsimp only
    split
    exacts [.inr rfl, .inl rfl]
  · exact ⟨⟨hquit, .inr ho, hloop, hit, hbody⟩, trivial⟩

lemma Ending.exec {m : ℕ} (h : Ending m s) (ht : exec (step k) s as = .ok t) :
    Ending m t ∧ stepsLeft t.thread ≤ stepsLeft s.thread - as.count .thread := by
  induction as generalizing s with
  | nil =>
    obtain rfl := Except.ok.inj ht
    exact ⟨h, by simp⟩
  | cons a as ih =>
    obtain ⟨u, hu, ht⟩ := (exec_cons_iff _).mp ht
    cases a with
    | thread =>
      obtain rfl := Except.ok.inj hu
      obtain ⟨h', hleft⟩ := h.thread (k := k)
      obtain ⟨hend, hleft'⟩ := ih h' ht
      refine ⟨hend, ?_⟩
      rw [List.count_cons_self]
      omega
    | owner =>
      obtain rfl := Except.ok.inj hu
      obtain ⟨h', hthread⟩ := h.ownerFunc
      obtain ⟨hend, hleft⟩ := ih h' ht
      rw [hthread] at hleft
      exact ⟨hend, by rwa [List.count_cons_of_ne (by decide)]⟩

lemma kept_of_looping (hq : s.owner = .quit) (h : Looping s) : Kept k s := by
  intro as t ht
  obtain ⟨u, hu, ht⟩ := (exec_cons_iff _).mp ht
  obtain rfl := Except.ok.inj hu
  have hend : Ending (s.iterations + 1) (ownerFunc s) := by
    rw [ownerFunc, hq]
    exact ⟨rfl, .inl rfl, h, Nat.le_succ _, fun _ => le_rfl⟩
  obtain ⟨⟨-, -, hloop, hit, -⟩, hleft⟩ := hend.exec ht
  refine ⟨hit, fun hcount => ?_⟩
  have hmax : stepsLeft (ownerFunc s).thread ≤ 2 := by
    cases (ownerFunc s).thread <;> decide
  have hnone : stepsLeft t.thread = 0 := by omega
  rcases hloop with h | h | h | h
  · rw [h] at hnone; cases hnone
  · rw [h] at hnone; cases hnone
  · exact .inl h
  · exact .inr h

/-! ### A request that is lost -/

lemma enter_lost (h : s.thread = .enter) : ∃ t,
    exec (step k) s (List.replicate 5 .thread) = .ok t ∧ t.iterations = s.iterations + 2 := by
  obtain ⟨quit, loop, stage, owner, iterations⟩ := s
  obtain rfl : stage = .enter := h
  exact ⟨_, rfl, rfl⟩

/-- The thread comes to the beginning of its loop. -/
lemma reaches_enter (hidle : s.thread ≠ .idle) (h : ¬ Looping s) : ∃ n t,
    exec (step k) s (List.replicate n .thread) = .ok t ∧ t.thread = .enter ∧
      t.iterations = s.iterations := by
  obtain ⟨quit, loop, stage, owner, iterations⟩ := s
  obtain ⟨ctor, cb⟩ := k
  cases stage with
  | idle => exact absurd rfl hidle
  | construct => cases cb; exacts [⟨2, _, rfl, rfl, rfl⟩, ⟨3, _, rfl, rfl, rfl⟩]
  | publish => cases cb; exacts [⟨1, _, rfl, rfl, rfl⟩, ⟨2, _, rfl, rfl, rfl⟩]
  | callBack => exact ⟨1, _, rfl, rfl, rfl⟩
  | enter => exact ⟨0, _, rfl, rfl, rfl⟩
  | test => exact absurd (.inl rfl) h
  | body => exact absurd (.inr (.inl rfl)) h
  | leave => exact absurd (.inr (.inr (.inl rfl))) h
  | done => exact absurd (.inr (.inr (.inr rfl))) h

lemma looping_of_kept (hidle : s.thread ≠ .idle) (hq : s.owner = .quit) (h : Kept k s) :
    Looping s := by
  by_contra hloop
  have hu : ownerFunc s = { s with quit_ := true, owner := .join } := by rw [ownerFunc, hq]
  obtain ⟨n, t, ht, henter, hit⟩ := reaches_enter (k := k)
    (s := { s with quit_ := true, owner := .join }) hidle hloop
  obtain ⟨v, hv, hit'⟩ := enter_lost (k := k) henter
  have hrun : exec (step k) s (.owner :: (List.replicate n .thread ++ List.replicate 5 .thread)) =
      .ok v := by
    rw [exec_cons_ok _ (show step k s .owner = .ok _ from congrArg _ hu), exec_append_ok _ ht, hv]
  have := (h _ v hrun).1
  dsimp only at hit
  omega

/-! ### The run -/

/-- A thread that was started stays so. -/
lemma threadFunc_started (h : s.thread ≠ .idle) : (threadFunc k s).thread ≠ .idle := by
  cases hst : s.thread <;> simp only [threadFunc, hst]
  case idle => exact absurd hst h
  case publish => split <;> decide
  case test => split <;> decide
  all_goals decide

lemma threadFunc_owner : (threadFunc k s).owner = s.owner := by
  cases hst : s.thread <;> simp only [threadFunc, hst]

lemma ownerFunc_started (h : s.owner ≠ .start → s.thread ≠ .idle) :
    (ownerFunc s).thread ≠ .idle := by
  cases ho : s.owner <;> simp only [ownerFunc, ho]
  case start => decide
  all_goals exact h (by rw [ho]; decide)

/-- Beyond its first step, the owner has started the thread. -/
lemma step_started (s : LoopThread) (a : Action) (t : LoopThread)
    (hs : s.owner ≠ .start → s.thread ≠ .idle) (h : step k s a = .ok t) :
    t.owner ≠ .start → t.thread ≠ .idle := by
  cases a with
  | thread =>
    obtain rfl := Except.ok.inj h
    rw [threadFunc_owner]
    exact fun ho => threadFunc_started (hs ho)
  | owner =>
    obtain rfl := Except.ok.inj h
    exact fun _ => ownerFunc_started hs

/-- **A request to quit is kept exactly when the loop has set `quit_` to false before**, in any
run, for both classes. -/
theorem kept_iff (hs : exec (step k) new as = .ok s) (hq : s.owner = .quit) :
    Kept k s ↔ Looping s := by
  have hidle := exec_inv step_started (I := fun s => s.owner ≠ .start → s.thread ≠ .idle)
    (by simp [new]) hs (by rw [hq]; decide)
  exact ⟨looping_of_kept hidle hq, kept_of_looping hq⟩

/-- The thread of an event loop iterates already. -/
theorem kept_iff_one : ∃ s, exec (step eventLoopThread) new
      [.owner, .thread, .thread, .owner, .thread, .thread, .owner] = .ok s ∧ s.owner = .quit ∧
    (Kept eventLoopThread s ↔ Looping s) := by
  obtain ⟨s, hs, hq⟩ : ∃ s, exec (step eventLoopThread) new
      [.owner, .thread, .thread, .owner, .thread, .thread, .owner] = .ok s ∧ s.owner = .quit :=
    ⟨_, rfl, rfl⟩
  exact ⟨s, hs, hq, kept_iff hs hq⟩

/-- The destructor is called when `start` has just returned. -/
def quickOwner : List Action := [.owner, .thread, .thread, .owner, .owner]

/-- Then both loops go on. -/
theorem quit_lost :
    (∃ s, exec (step eventLoopThread) new quickOwner = .ok s ∧ s.owner = .quit ∧
      ¬ Kept eventLoopThread s) ∧
    ∃ s, exec (step timerWheelsThread) new quickOwner = .ok s ∧ s.owner = .quit ∧
      ¬ Kept timerWheelsThread s := by
  constructor
  · refine ⟨_, rfl, rfl, fun h => ?_⟩
    exact absurd (h (List.replicate 8 .thread) _ rfl).1 (by decide)
  · refine ⟨_, rfl, rfl, fun h => ?_⟩
    exact absurd (h (List.replicate 8 .thread) _ rfl).1 (by decide)

end MuduoZ.QuitLoop
