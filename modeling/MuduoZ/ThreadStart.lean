import MuduoZ.CountDownLatch
import MuduoZ.Lib.Rendezvous
import MuduoZ.QuitLoop

/-!
How a thread with a loop is started and ended, down to the locks.

`Thread::start` waits at a latch until the thread has written its number, then `start` of
`EventLoopThread` or of `TimerWheelsThread` waits at a condition until the thread has published its
loop. Each is a rendezvous of the two threads.
-/

namespace MuduoZ.ThreadStart

open Runs
open Monitor (Party Phase Rendezvous Spec)
open CountDownLatch (latch Latch)

/-- The pointer to the loop, null or not, under its lock. Who sets it notifies. -/
def cell : Spec Bool Bool where
  ready loop_ := loop_
  update b _ := b
  notifies _ loop_ := loop_
  rings _ _ _ h := h

/-- Where the owner is, in `start` and then in the destructor. -/
inductive Owner
  | create      -- in front of `pthread_create`
  | latch       -- in `latch_.wait()`
  | assertTid   -- in front of `assert(tid_ > 0)`
  | wait        -- in the critical section of `start`
  | started     -- `start` has returned
  | quit        -- the destructor has seen that there is a loop
  | join
  | done
  deriving DecidableEq

/-- Where the thread is, in `ThreadData::run`, in `threadFunc` and in the loop. -/
inductive Stage
  | idle        -- there is no thread
  | setTid
  | countDown   -- in `latch_->countDown()`
  | construct
  | publish     -- in the critical section that sets `loop_`
  | callBack
  | enter       -- in front of `quit_ = false`
  | test        -- in front of `while(!quit_)`
  | body
  | leave       -- in the critical section that clears `loop_`
  | done
  deriving DecidableEq

/-- Both threads, with what they share. `returned` is what `start` has read from `loop_`. -/
structure Sys where
  latch_ : Latch Party
  loop_ : Monitor.Sys Party Bool Bool
  tid_ : ℤ
  quit_ : Bool
  owner : Owner
  thread : Stage
  returned : Bool
  iterations : ℕ

inductive Stop
  | blocked
  | aborted
  deriving DecidableEq

inductive Action
  | owner
  | thread      -- a step of the thread before its loop, or behind it
  | iterate     -- a step of the callback or of the loop
  | wakeLatch   -- the owner wakes for no reason
  | wakeCond
  deriving DecidableEq

def start : Sys := ⟨Monitor.start 1, Monitor.start false, 0, false, .create, .idle, false, 0⟩

def locked {σ : Type} (r : Except Monitor.Blocked σ) : Except Stop σ :=
  r.mapError fun _ => .blocked

/-- The next step of the owner. `created` says whether `pthread_create` goes through. -/
def ownerStep (created : Bool) (s : Sys) : Except Stop Sys :=
  match s.owner with
  | .create =>
    if created then do
      let latch_ ← locked (Monitor.step latch s.latch_ (.call .waiter .wait))
      .ok { s with latch_ := latch_, owner := .latch, thread := .setTid }
    else do
      let loop_ ← locked (Monitor.step cell s.loop_ (.call .waiter .wait))
      .ok { s with loop_ := loop_, owner := .wait }
  | .latch =>
    if s.latch_.place .waiter = .outside then .ok { s with owner := .assertTid }
    else do .ok { s with latch_ := ← locked (Monitor.step latch s.latch_ (.go .waiter)) }
  | .assertTid =>
    if 0 < s.tid_ then do
      let loop_ ← locked (Monitor.step cell s.loop_ (.call .waiter .wait))
      .ok { s with loop_ := loop_, owner := .wait }
    else .error .aborted
  | .wait =>
    if s.loop_.place .waiter = .outside then .ok { s with owner := .started }
    else do
      let loop_ ← locked (Monitor.step cell s.loop_ (.go .waiter))
      -- `loop = loop_` comes last under the lock
      let returned := if s.loop_.place .waiter = .unlock .wait then s.loop_.data else s.returned
      .ok { s with loop_ := loop_, returned := returned }
  | .started => .ok { s with owner := if s.loop_.data then .quit else .done }
  | .quit => .ok { s with quit_ := true, owner := .join }
  | .join => if s.thread = .done then .ok { s with owner := .done } else .error .blocked
  | .done => .error .blocked

/-- The next step of the thread outside its loop. `tid` is the number it gets. -/
def threadStep (k : QuitLoop.Kind) (tid : ℤ) (s : Sys) : Except Stop Sys :=
  match s.thread with
  | .setTid => do
    let latch_ ← locked (Monitor.step latch s.latch_ (.call .changer (.update ())))
    .ok { s with latch_ := latch_, tid_ := tid, thread := .countDown }
  | .countDown =>
    if s.latch_.place .changer = .outside then .ok { s with thread := .construct }
    else do .ok { s with latch_ := ← locked (Monitor.step latch s.latch_ (.go .changer)) }
  | .construct => do
    let loop_ ← locked (Monitor.step cell s.loop_ (.call .changer (.update true)))
    .ok { s with loop_ := loop_, quit_ := k.quit_, thread := .publish }
  | .publish =>
    if s.loop_.place .changer = .outside then
      .ok { s with thread := if k.cb_ then .callBack else .enter }
    else do .ok { s with loop_ := ← locked (Monitor.step cell s.loop_ (.go .changer)) }
  | .leave =>
    if s.loop_.place .changer = .outside then .ok { s with thread := .done }
    else do .ok { s with loop_ := ← locked (Monitor.step cell s.loop_ (.go .changer)) }
  | .idle | .callBack | .enter | .test | .body | .done => .error .blocked

/-- The next step of the callback or of the loop. -/
def iterate (s : Sys) : Except Stop Sys :=
  match s.thread with
  | .callBack => .ok { s with thread := .enter }
  | .enter => .ok { s with quit_ := false, thread := .test }
  | .test =>
    if s.quit_ then do
      let loop_ ← locked (Monitor.step cell s.loop_ (.call .changer (.update false)))
      .ok { s with loop_ := loop_, thread := .leave }
    else .ok { s with thread := .body }
  | .body => .ok { s with iterations := s.iterations + 1, thread := .test }
  | .idle | .setTid | .countDown | .construct | .publish | .leave | .done => .error .blocked

def step (k : QuitLoop.Kind) (created : Bool) (tid : ℤ) (s : Sys) : Action → Except Stop Sys
  | .owner => ownerStep created s
  | .thread => threadStep k tid s
  | .iterate => iterate s
  | .wakeLatch => do
    .ok { s with latch_ := ← locked (Monitor.step latch s.latch_ (.wake .waiter)) }
  | .wakeCond => do
    .ok { s with loop_ := ← locked (Monitor.step cell s.loop_ (.wake .waiter)) }

/-! ### The two rendezvous -/

/-- Where the owner is with the latch. -/
def Owner.atLatch (created : Bool) : Owner → Phase
  | .create => .before
  | .latch => .during
  | .assertTid | .wait | .started | .quit | .join | .done => if created then .past else .before

/-- Where the owner is with the condition. -/
def Owner.atCell : Owner → Phase
  | .create | .latch | .assertTid => .before
  | .wait => .during
  | .started | .quit | .join | .done => .past

/-- What the thread does with the latch, and what it has done before. -/
def Stage.counts : Stage → Option Unit × List Unit
  | .idle | .setTid => (none, [])
  | .countDown => (some (), [])
  | _ => (none, [()])

/-- What the thread does with `loop_`, and what it has done before. -/
def Stage.writes : Stage → Option Bool × List Bool
  | .idle | .setTid | .countDown | .construct => (none, [])
  | .publish => (some true, [])
  | .callBack | .enter | .test | .body => (none, [true])
  | .leave => (some false, [true])
  | .done => (none, [true, false])

structure Inv (created : Bool) (tid : ℤ) (s : Sys) : Prop where
  latch : Rendezvous latch 1 (s.owner.atLatch created) s.thread.counts.1 s.thread.counts.2 s.latch_
  cell : Rendezvous cell false s.owner.atCell s.thread.writes.1 s.thread.writes.2 s.loop_
  tid_ : s.thread ≠ .idle → s.thread ≠ .setTid → s.tid_ = tid
  idle : s.thread = .idle ↔ s.owner = .create ∨ created = false
  uncreated : created = false → s.owner = .create ∨ s.owner = .wait
  returned : s.owner.atCell = .past ∨ s.owner = .wait ∧ s.loop_.place .waiter = .outside →
    s.returned = true

variable {k : QuitLoop.Kind} {created : Bool} {tid : ℤ} {s s' : Sys}

@[simp] lemma locked_bind_ok {σ : Type} {r : Except Monitor.Blocked σ}
    {f : σ → Except Stop Sys} : (locked r >>= f) = .ok s' ↔ ∃ x, r = .ok x ∧ f x = .ok s' := by
  cases r <;> simp [locked, Except.mapError, bind, Except.bind]

@[simp] lemma locked_bind_aborted {σ : Type} {r : Except Monitor.Blocked σ}
    {f : σ → Except Stop Sys} :
    (locked r >>= f) = .error .aborted ↔ ∃ x, r = .ok x ∧ f x = .error .aborted := by
  cases r <;> simp [locked, Except.mapError, bind, Except.bind]

lemma start_inv : Inv created tid start :=
  ⟨Monitor.rendezvous_start, Monitor.rendezvous_start, fun h => absurd rfl h,
    ⟨fun _ => .inl rfl, fun _ => rfl⟩, fun _ => .inl rfl, by
      rintro (h | ⟨h, -⟩) <;> cases h⟩

/-- Who has passed the latch finds the number of the thread. -/
lemma Inv.passed_latch (h : Inv created tid s)
    (hp : Monitor.Passed (s.owner.atLatch created) (s.latch_.place .waiter)) :
    s.thread ≠ .idle ∧ s.thread ≠ .setTid := by
  obtain ⟨as, has, hready⟩ := h.latch.passed hp
  rw [h.latch.updates] at has
  constructor <;> intro ht <;> rw [ht, Stage.counts, Monitor.made_none] at has <;>
    obtain rfl := List.prefix_nil.mp has <;> cases hready

/-- Who has passed the condition finds that the loop was published. -/
lemma Inv.passed_cell (h : Inv created tid s)
    (hp : Monitor.Passed s.owner.atCell (s.loop_.place .waiter)) : s.thread ≠ .idle := by
  obtain ⟨as, has, hready⟩ := h.cell.passed hp
  rw [h.cell.updates] at has
  intro ht
  rw [ht, Stage.writes, Monitor.made_none] at has
  obtain rfl := List.prefix_nil.mp has
  cases hready

/-! ### One step -/

/-- The assertion holds. -/
lemma owner_not_aborted (htid : 0 < tid) (h : Inv created tid s) :
    ownerStep created s ≠ .error .aborted := by
  intro hs
  cases ho : s.owner <;> simp only [ownerStep, ho] at hs
  case create => split at hs <;> simp at hs
  case latch => split at hs <;> simp at hs
  case assertTid =>
    split at hs
    · simp at hs
    · rename_i hneg
      have hcreated : created = true := by
        by_contra hc
        rcases h.uncreated (by simpa using hc) with hc | hc <;> rw [ho] at hc <;> cases hc
      obtain ⟨h1, h2⟩ := h.passed_latch (.inl (by rw [ho, hcreated]; rfl))
      rw [h.tid_ h1 h2] at hneg
      exact hneg htid
  case wait => split at hs <;> simp at hs
  case join => split at hs <;> cases hs
  all_goals cases hs

lemma Owner.past_cases (created : Bool) {o : Owner} (h : o.atCell = .past) :
    o ≠ .create ∧ o ≠ .wait ∧ o.atLatch created = if created then .past else .before := by
  cases o <;> simp [atCell, atLatch] at h ⊢

/-- Behind `start` the owner does not use the latch or the condition. -/
lemma Inv.later (h : Inv created tid s) {o : Owner} (q : Bool) (ho : s.owner.atCell = .past)
    (ho' : o.atCell = .past) : Inv created tid { s with owner := o, quit_ := q } := by
  obtain ⟨hlatch, hcell, htid, hidle, hun, hret⟩ := h
  obtain ⟨h1, h2, h3⟩ := Owner.past_cases created ho
  obtain ⟨h1', -, h3'⟩ := Owner.past_cases created ho'
  refine ⟨?_, ?_, htid, ?_, fun hc => ?_, fun _ => hret (.inl ho)⟩
  · dsimp only; rw [h3', ← h3]; exact hlatch
  · dsimp only; rw [ho', ← ho]; exact hcell
  · rw [hidle]
    simp [h1, h1']
  · exact absurd (hun hc) (by simp [h1, h2])

lemma owner_inv (h : Inv created tid s) (hs : ownerStep created s = .ok s') :
    Inv created tid s' := by
  obtain ⟨latch_, loop_, tid_, quit_, owner, thread, returned, iterations⟩ := s
  have hinv := h
  obtain ⟨hlatch, hcell, htid, hidle, hun, hret⟩ := h
  cases owner <;> simp only [ownerStep] at hs
  case create =>
    obtain rfl : thread = .idle := hidle.mpr (.inl rfl)
    split_ifs at hs with hc
    · obtain ⟨l, hl, hs⟩ := locked_bind_ok.mp hs
      obtain rfl := Except.ok.inj hs
      obtain ⟨l', hl', hr, -⟩ := hlatch.wait
      obtain rfl := Except.ok.inj (hl'.symm.trans hl)
      exact ⟨hr, hcell, fun _ ht => absurd rfl ht, by simp [hc], by simp [hc],
        by rintro (h | ⟨h, -⟩) <;> cases h⟩
    · obtain ⟨l, hl, hs⟩ := locked_bind_ok.mp hs
      obtain rfl := Except.ok.inj hs
      obtain ⟨l', hl', hr, hp, -⟩ := hcell.wait
      obtain rfl := Except.ok.inj (hl'.symm.trans hl)
      have hc : created = false := by simpa using hc
      subst hc
      refine ⟨hlatch, hr, htid, by simp, by simp, ?_⟩
      rintro (h | ⟨-, h⟩)
      · cases h
      · dsimp only at h; rw [hp] at h; cases h
  case latch =>
    split_ifs at hs with hout
    · obtain rfl := Except.ok.inj hs
      have hc : created = true := by
        by_contra hc
        rcases hun (by simpa using hc) with h | h <;> cases h
      subst hc
      exact ⟨hlatch.returned hout, hcell, htid, by simpa using hidle, by simp,
        by rintro (h | ⟨h, -⟩) <;> cases h⟩
    · obtain ⟨l, hl, hs⟩ := locked_bind_ok.mp hs
      obtain rfl := Except.ok.inj hs
      obtain ⟨hr, -⟩ := hlatch.waiter_go hl
      exact ⟨hr, hcell, htid, hidle, hun, hret⟩
  case assertTid =>
    split_ifs at hs
    obtain ⟨l, hl, hs⟩ := locked_bind_ok.mp hs
    obtain rfl := Except.ok.inj hs
    obtain ⟨l', hl', hr, hp, -⟩ := hcell.wait
    obtain rfl := Except.ok.inj (hl'.symm.trans hl)
    refine ⟨hlatch, hr, htid, by simpa using hidle, fun _ => .inr rfl, ?_⟩
    rintro (h | ⟨-, h⟩)
    · cases h
    · dsimp only at h; rw [hp] at h; cases h
  case wait =>
    by_cases hout : loop_.place .waiter = .outside
    · rw [if_pos hout] at hs
      obtain rfl := Except.ok.inj hs
      have hc : created = true := by
        have := hinv.passed_cell (.inr ⟨rfl, .inl hout⟩)
        rw [ne_eq, hidle] at this
        simpa using this
      subst hc
      exact ⟨hlatch, hcell.returned hout, htid, by simpa using hidle, by simp,
        fun _ => hret (.inr ⟨rfl, hout⟩)⟩
    · rw [if_neg hout] at hs
      obtain ⟨l, hl, hs⟩ := locked_bind_ok.mp hs
      obtain rfl := Except.ok.inj hs
      obtain ⟨hr, -, -, hplace⟩ := hcell.waiter_go hl
      refine ⟨hlatch, hr, htid, hidle, hun, ?_⟩
      rintro (h | ⟨-, h⟩)
      · cases h
      · rcases hplace with ⟨hne, -⟩ | ⟨hunlock, -, hready⟩
        · exact absurd h hne
        · exact (if_pos hunlock).trans hready
  case started =>
    obtain rfl := Except.ok.inj hs
    refine hinv.later quit_ rfl ?_
    split <;> rfl
  case quit =>
    obtain rfl := Except.ok.inj hs
    exact hinv.later true rfl rfl
  case join =>
    split_ifs at hs
    obtain rfl := Except.ok.inj hs
    exact hinv.later quit_ rfl rfl
  case done => cases hs

lemma thread_inv (h : Inv created tid s) (hs : threadStep k tid s = .ok s') :
    Inv created tid s' := by
  obtain ⟨latch_, loop_, tid_, quit_, owner, thread, returned, iterations⟩ := s
  obtain ⟨hlatch, hcell, htid, hidle, hun, hret⟩ := h
  cases thread <;> simp only [threadStep] at hs
  case setTid =>
    obtain ⟨l, hl, hs⟩ := locked_bind_ok.mp hs
    obtain rfl := Except.ok.inj hs
    obtain ⟨l', hl', hr, -⟩ := hlatch.change ()
    obtain rfl := Except.ok.inj (hl'.symm.trans hl)
    exact ⟨hr, hcell, fun _ _ => rfl, by simpa using hidle, hun, hret⟩
  case countDown =>
    split_ifs at hs with hout
    · obtain rfl := Except.ok.inj hs
      exact ⟨hlatch.changed hout, hcell, by simpa using htid, by simpa using hidle, hun, hret⟩
    · obtain ⟨l, hl, hs⟩ := locked_bind_ok.mp hs
      obtain rfl := Except.ok.inj hs
      obtain ⟨hr, -⟩ := hlatch.changer_go hl
      exact ⟨hr, hcell, htid, hidle, hun, hret⟩
  case construct =>
    obtain ⟨l, hl, hs⟩ := locked_bind_ok.mp hs
    obtain rfl := Except.ok.inj hs
    obtain ⟨l', hl', hr, -, hw, -⟩ := hcell.change true
    obtain rfl := Except.ok.inj (hl'.symm.trans hl)
    refine ⟨hlatch, hr, by simpa using htid, by simpa using hidle, hun, ?_⟩
    dsimp only
    rw [hw]
    exact hret
  case publish =>
    by_cases hout : loop_.place .changer = .outside
    · rw [if_pos hout] at hs
      obtain rfl := Except.ok.inj hs
      have hr := hcell.changed hout
      cases k.cb_
      · exact ⟨hlatch, hr, by simpa using htid, by simpa using hidle, hun, hret⟩
      · exact ⟨hlatch, hr, by simpa using htid, by simpa using hidle, hun, hret⟩
    · rw [if_neg hout] at hs
      obtain ⟨l, hl, hs⟩ := locked_bind_ok.mp hs
      obtain rfl := Except.ok.inj hs
      obtain ⟨hr, hw, -⟩ := hcell.changer_go hl
      refine ⟨hlatch, hr, htid, hidle, hun, ?_⟩
      dsimp only
      rw [hw .outside (by simp) (by simp)]
      exact hret
  case leave =>
    split_ifs at hs with hout
    · obtain rfl := Except.ok.inj hs
      exact ⟨hlatch, hcell.changed hout, by simpa using htid, by simpa using hidle, hun, hret⟩
    · obtain ⟨l, hl, hs⟩ := locked_bind_ok.mp hs
      obtain rfl := Except.ok.inj hs
      obtain ⟨hr, hw, -⟩ := hcell.changer_go hl
      refine ⟨hlatch, hr, htid, hidle, hun, ?_⟩
      dsimp only
      rw [hw .outside (by simp) (by simp)]
      exact hret
  all_goals cases hs

lemma iterate_inv (h : Inv created tid s) (hs : iterate s = .ok s') : Inv created tid s' := by
  obtain ⟨latch_, loop_, tid_, quit_, owner, thread, returned, iterations⟩ := s
  obtain ⟨hlatch, hcell, htid, hidle, hun, hret⟩ := h
  cases thread <;> simp only [iterate] at hs
  case test =>
    split_ifs at hs
    · obtain ⟨l, hl, hs⟩ := locked_bind_ok.mp hs
      obtain rfl := Except.ok.inj hs
      obtain ⟨l', hl', hr, -, hw, -⟩ := hcell.change false
      obtain rfl := Except.ok.inj (hl'.symm.trans hl)
      refine ⟨hlatch, hr, by simpa using htid, by simpa using hidle, hun, ?_⟩
      dsimp only
      rw [hw]
      exact hret
    · obtain rfl := Except.ok.inj hs
      exact ⟨hlatch, hcell, by simpa using htid, by simpa using hidle, hun, hret⟩
  case callBack | enter | body =>
    obtain rfl := Except.ok.inj hs
    exact ⟨hlatch, hcell, by simpa using htid, by simpa using hidle, hun, hret⟩
  all_goals cases hs

lemma step_inv (s : Sys) (a : Action) (s' : Sys) (h : Inv created tid s)
    (hs : step k created tid s a = .ok s') : Inv created tid s' := by
  cases a with
  | owner => exact owner_inv h hs
  | thread => exact thread_inv h hs
  | iterate => exact iterate_inv h hs
  | wakeLatch =>
    obtain ⟨l, hl, hs⟩ := locked_bind_ok.mp hs
    obtain rfl := Except.ok.inj hs
    exact ⟨(h.latch.wake hl).1, h.cell, h.tid_, h.idle, h.uncreated, h.returned⟩
  | wakeCond =>
    obtain ⟨l, hl, hs⟩ := locked_bind_ok.mp hs
    obtain rfl := Except.ok.inj hs
    obtain ⟨hr, -, -, hw⟩ := h.cell.wake hl
    refine ⟨h.latch, hr, h.tid_, h.idle, h.uncreated, ?_⟩
    rintro (hp | ⟨-, hp⟩)
    · exact h.returned (.inl hp)
    · dsimp only at hp; rw [hw] at hp; cases hp

lemma step_not_aborted (htid : 0 < tid) (h : Inv created tid s) (a : Action) :
    step k created tid s a ≠ .error .aborted := by
  intro hs
  cases a with
  | owner => exact owner_not_aborted htid h hs
  | thread =>
    simp only [step] at hs
    cases hst : s.thread <;> simp only [threadStep, hst] at hs
    case countDown | publish | leave => split at hs <;> simp at hs
    case setTid | construct => simp at hs
    all_goals cases hs
  | iterate =>
    simp only [step] at hs
    cases hst : s.thread <;> simp only [iterate, hst] at hs
    case test => split at hs <;> simp at hs
    all_goals cases hs
  | wakeLatch => simp [step] at hs
  | wakeCond => simp [step] at hs

/-! ### What `start` returns -/

variable {as : List Action}

/-- **`start` returns a loop**: in every run of both threads the assertion holds, and when `start`
has returned, there is a thread, its number is known and the pointer to its loop was not null. -/
theorem start_returns (htid : 0 < tid) (as : List Action) :
    exec (step k created tid) start as ≠ .error .aborted ∧
    ∀ s, exec (step k created tid) start as = .ok s → s.owner.atCell = .past →
      created = true ∧ s.tid_ = tid ∧ s.returned = true := by
  refine ⟨exec_ne_error step_inv (fun s a h => step_not_aborted htid h a) start_inv as,
    fun s h hpast => ?_⟩
  have hinv := exec_inv step_inv start_inv h
  obtain ⟨hne, hnw, hlatch⟩ := Owner.past_cases created hpast
  have hc : created = true := by
    by_contra hc
    rcases hinv.uncreated (by simpa using hc) with h | h
    exacts [hne h, hnw h]
  rw [if_pos hc] at hlatch
  obtain ⟨h1, h2⟩ := hinv.passed_latch (.inl hlatch)
  exact ⟨hc, hinv.tid_ h1 h2, hinv.returned (.inl hpast)⟩

/-- A run in which the owner waits at the latch, is woken, and finds the loop published. -/
def startRun : List Action :=
  [.owner, .owner, .owner, .thread, .thread, .thread, .thread, .thread, .owner, .thread, .thread,
    .thread, .owner, .owner, .owner, .owner, .thread, .thread, .thread, .owner, .owner, .owner,
    .owner, .thread]

theorem start_returns_seven : (0 : ℤ) < 7 ∧
    exec (step QuitLoop.eventLoopThread true 7) start startRun ≠ .error .aborted ∧
    ∃ s, exec (step QuitLoop.eventLoopThread true 7) start startRun = .ok s ∧
      s.owner.atCell = .past ∧ s.tid_ = 7 ∧ s.returned = true := by
  obtain ⟨hsafe, hret⟩ : exec (step QuitLoop.eventLoopThread true 7) start startRun ≠
        .error .aborted ∧
      ∀ s, exec (step QuitLoop.eventLoopThread true 7) start startRun = .ok s →
        s.owner.atCell = .past → true = true ∧ s.tid_ = 7 ∧ s.returned = true :=
    start_returns (by decide) startRun
  obtain ⟨s, hs, hpast⟩ : ∃ s, exec (step QuitLoop.eventLoopThread true 7) start startRun = .ok s ∧
      s.owner.atCell = .past := ⟨_, rfl, rfl⟩
  obtain ⟨-, htid, hreturned⟩ := hret s hs hpast
  exact ⟨by decide, hsafe, s, hs, hpast, htid, hreturned⟩

/-! ### `start` ends -/

def Action.isWake : Action → Bool
  | .wakeLatch | .wakeCond => true
  | .owner | .thread | .iterate => false

/-- The thread has left its loop. -/
def Sys.Left (s : Sys) : Prop := s.thread = .leave ∨ s.thread = .done

/-- Steps that the owner has left, beside those in the latch and the condition. -/
def Owner.rank : Owner → ℕ
  | .create => 19
  | .latch => 12
  | .assertTid => 11
  | .wait => 4
  | .started => 3
  | .quit => 2
  | .join => 1
  | .done => 0

/-- Steps that the thread has left before its loop. -/
def Stage.rank : Stage → ℕ
  | .idle | .setTid => 12
  | .countDown => 7
  | .construct => 6
  | .publish => 1
  | .callBack | .enter | .test | .body | .leave | .done => 0

def Sys.left (s : Sys) : ℕ :=
  s.latch_.left latch + s.loop_.left cell + s.owner.rank + s.thread.rank

lemma cell_prompt : cell.Prompt := fun _ _ h => h

lemma latch_left {l l' : Latch Party} {a : Monitor.Action Party Unit} (ha : a.isCall = false)
    (hs : Monitor.step latch l a = .ok l') :
    l'.left latch + 1 ≤ l.left latch + if a.isWake then 3 else 0 := by
  have := Monitor.step_left CountDownLatch.prompt ha
    (fun hr => Monitor.step_ready CountDownLatch.stable hr hs) hs
  split_ifs at this ⊢ <;> simp_all
  omega

lemma cell_left {l l' : Monitor.Sys Party Bool Bool} {a : Monitor.Action Party Bool}
    (ha : a.isCall = false) (hr : l.data = true → l'.data = true)
    (hs : Monitor.step cell l a = .ok l') :
    l'.left cell + 1 ≤ l.left cell + if a.isWake then 3 else 0 := by
  have := Monitor.step_left cell_prompt ha hr hs
  split_ifs at this ⊢ <;> simp_all
  omega

lemma wait_left {σ α : Type*} {m : Spec σ α} {l l' : Monitor.Sys Party σ α}
    (hs : Monitor.step m l (.call .waiter .wait) = .ok l') : l'.left m ≤ l.left m + 6 := by
  have := Monitor.call_left hs
  simp only [Monitor.Place.left] at this
  split_ifs at this <;> omega

lemma owner_left (h : Inv created tid s) (hs : ownerStep created s = .ok s') :
    s'.left + 1 ≤ s.left := by
  obtain ⟨latch_, loop_, tid_, quit_, owner, thread, returned, iterations⟩ := s
  obtain ⟨-, hcell, -, hidle, -, -⟩ := h
  cases owner <;> simp only [ownerStep] at hs
  case create =>
    obtain rfl : thread = .idle := hidle.mpr (.inl rfl)
    split_ifs at hs
    · obtain ⟨l, hl, hs⟩ := locked_bind_ok.mp hs
      obtain rfl := Except.ok.inj hs
      have := wait_left hl
      simp only [Sys.left, Owner.rank, Stage.rank]
      omega
    · obtain ⟨l, hl, hs⟩ := locked_bind_ok.mp hs
      obtain rfl := Except.ok.inj hs
      have := wait_left hl
      simp only [Sys.left, Owner.rank]
      omega
  case latch =>
    split_ifs at hs
    · obtain rfl := Except.ok.inj hs
      simp only [Sys.left, Owner.rank]
      omega
    · obtain ⟨l, hl, hs⟩ := locked_bind_ok.mp hs
      obtain rfl := Except.ok.inj hs
      have := latch_left rfl hl
      simp only [Monitor.Action.isWake, Bool.false_eq_true, if_false] at this
      simp only [Sys.left]
      omega
  case assertTid =>
    split_ifs at hs
    obtain ⟨l, hl, hs⟩ := locked_bind_ok.mp hs
    obtain rfl := Except.ok.inj hs
    have := wait_left hl
    simp only [Sys.left, Owner.rank]
    omega
  case wait =>
    by_cases hout : loop_.place .waiter = .outside
    · rw [if_pos hout] at hs
      obtain rfl := Except.ok.inj hs
      simp only [Sys.left, Owner.rank]
      omega
    · rw [if_neg hout] at hs
      obtain ⟨l, hl, hs⟩ := locked_bind_ok.mp hs
      obtain rfl := Except.ok.inj hs
      obtain ⟨-, hdata, -⟩ := hcell.waiter_go hl
      have := cell_left rfl (fun hr => hdata.trans hr) hl
      simp only [Monitor.Action.isWake, Bool.false_eq_true, if_false] at this
      simp only [Sys.left]
      omega
  case started =>
    obtain rfl := Except.ok.inj hs
    simp only [Sys.left]
    split <;> simp only [Owner.rank] <;> omega
  case quit =>
    obtain rfl := Except.ok.inj hs
    simp only [Sys.left, Owner.rank]
    omega
  case join =>
    split_ifs at hs
    obtain rfl := Except.ok.inj hs
    simp only [Sys.left, Owner.rank]
    omega
  case done => cases hs

/-- The publication of the loop does not take it back. -/
lemma publish_ready {l l' : Monitor.Sys Party Bool Bool} {w : Phase} {done : List Bool}
    (h : Rendezvous cell false w (some true) done l)
    (hs : Monitor.step cell l (.go .changer) = .ok l') (hr : l.data = true) : l'.data = true := by
  rcases (Monitor.step_cases hs).data with he | ⟨b, hp, he, -⟩
  · exact he.trans hr
  · have hp : l.place .changer = .update b := hp
    obtain ⟨a, ha, hb⟩ := h.changes (.update b) (by rw [hp]; rfl)
    obtain rfl := Option.some.inj hb
    obtain rfl := Monitor.Call.update.inj ha
    exact he

lemma thread_left (h : Inv created tid s) (hs : threadStep k tid s = .ok s') (hl : ¬ s.Left) :
    s'.left + 1 ≤ s.left := by
  obtain ⟨latch_, loop_, tid_, quit_, owner, thread, returned, iterations⟩ := s
  obtain ⟨-, hcell, -⟩ := h
  cases thread <;> simp only [threadStep] at hs
  case setTid =>
    obtain ⟨l, hl, hs⟩ := locked_bind_ok.mp hs
    obtain rfl := Except.ok.inj hs
    have := Monitor.call_left hl
    simp only [Monitor.Place.left] at this
    simp only [Sys.left, Stage.rank]
    omega
  case countDown =>
    split_ifs at hs
    · obtain rfl := Except.ok.inj hs
      simp only [Sys.left, Stage.rank]
      omega
    · obtain ⟨l, hl, hs⟩ := locked_bind_ok.mp hs
      obtain rfl := Except.ok.inj hs
      have := latch_left rfl hl
      simp only [Monitor.Action.isWake, Bool.false_eq_true, if_false] at this
      simp only [Sys.left]
      omega
  case construct =>
    obtain ⟨l, hl, hs⟩ := locked_bind_ok.mp hs
    obtain rfl := Except.ok.inj hs
    have := Monitor.call_left hl
    simp only [Monitor.Place.left] at this
    simp only [Sys.left, Stage.rank]
    omega
  case publish =>
    by_cases hout : loop_.place .changer = .outside
    · rw [if_pos hout] at hs
      obtain rfl := Except.ok.inj hs
      cases k.cb_ <;> simp [Sys.left, Stage.rank]
    · rw [if_neg hout] at hs
      obtain ⟨l, hl, hs⟩ := locked_bind_ok.mp hs
      obtain rfl := Except.ok.inj hs
      have := cell_left rfl (publish_ready hcell hl) hl
      simp only [Monitor.Action.isWake, Bool.false_eq_true, if_false] at this
      simp only [Sys.left]
      omega
  case leave => exact absurd (.inl rfl) hl
  all_goals cases hs

lemma iterate_left (hs : iterate s = .ok s') (hl : ¬ s'.Left) : s'.left = s.left := by
  obtain ⟨latch_, loop_, tid_, quit_, owner, thread, returned, iterations⟩ := s
  cases thread <;> simp only [iterate] at hs
  case test =>
    split_ifs at hs
    · obtain ⟨l, -, hs⟩ := locked_bind_ok.mp hs
      obtain rfl := Except.ok.inj hs
      exact absurd (.inl rfl) hl
    · obtain rfl := Except.ok.inj hs; rfl
  case callBack | enter | body => obtain rfl := Except.ok.inj hs; rfl
  all_goals cases hs

/-- The owner moves the thread when it creates it only. -/
lemma owner_thread (hs : ownerStep created s = .ok s') (hne : s.owner ≠ .create) :
    s'.thread = s.thread := by
  cases ho : s.owner <;> simp only [ownerStep, ho] at hs
  case create => exact absurd ho hne
  case latch | wait =>
    split at hs
    · obtain rfl := Except.ok.inj hs; rfl
    · obtain ⟨l, -, hs⟩ := locked_bind_ok.mp hs
      obtain rfl := Except.ok.inj hs; rfl
  case assertTid =>
    split_ifs at hs
    obtain ⟨l, -, hs⟩ := locked_bind_ok.mp hs
    obtain rfl := Except.ok.inj hs; rfl
  case join => split_ifs at hs; obtain rfl := Except.ok.inj hs; rfl
  case done => cases hs
  all_goals obtain rfl := Except.ok.inj hs; rfl

/-- A thread that has left its loop does not come back. -/
lemma step_leaves (s : Sys) (a : Action) (s' : Sys) (h : Inv created tid s ∧ s.Left)
    (hs : step k created tid s a = .ok s') : Inv created tid s' ∧ s'.Left := by
  obtain ⟨hinv, h⟩ := h
  refine ⟨step_inv s a s' hinv hs, ?_⟩
  cases a with
  | owner =>
    have hne : s.owner ≠ .create := fun ho => by
      have hidle := hinv.idle.mpr (.inl ho)
      rcases h with h | h <;> rw [hidle] at h <;> cases h
    rw [Sys.Left, owner_thread hs hne]
    exact h
  | thread =>
    rcases h with h | h <;> simp only [step, threadStep, h] at hs
    · split_ifs at hs
      · obtain rfl := Except.ok.inj hs; exact .inr rfl
      · obtain ⟨l, -, hs⟩ := locked_bind_ok.mp hs
        obtain rfl := Except.ok.inj hs; exact .inl rfl
    · cases hs
  | iterate => rcases h with h | h <;> simp only [step, iterate, h] at hs <;> cases hs
  | wakeLatch | wakeCond =>
    obtain ⟨l, -, hs⟩ := locked_bind_ok.mp hs
    obtain rfl := Except.ok.inj hs
    exact h

/-- Every step but those of the loop leaves fewer; one that wakes for no reason costs three. -/
lemma step_left {a : Action} (h : Inv created tid s) (hs : step k created tid s a = .ok s')
    (hl : ¬ s'.Left) : (if a = .iterate then 0 else 1) + s'.left ≤
      s.left + if a.isWake then 3 else 0 := by
  have hl' : ¬ s.Left := fun hleft => hl (step_leaves s a s' ⟨h, hleft⟩ hs).2
  cases a with
  | owner => have := owner_left h hs; simp [Action.isWake]; omega
  | thread => have := thread_left h hs hl'; simp [Action.isWake]; omega
  | iterate => simp [Action.isWake, iterate_left hs hl]
  | wakeLatch =>
    obtain ⟨l, hw, hs⟩ := locked_bind_ok.mp hs
    obtain rfl := Except.ok.inj hs
    have := latch_left rfl hw
    simp only [Monitor.Action.isWake, if_true] at this
    simp [Action.isWake, Sys.left]
    omega
  | wakeCond =>
    obtain ⟨l, hw, hs⟩ := locked_bind_ok.mp hs
    obtain rfl := Except.ok.inj hs
    obtain ⟨-, hdata, -⟩ := h.cell.wake hw
    have := cell_left rfl (fun hr => hdata.trans hr) hw
    simp only [Monitor.Action.isWake, if_true] at this
    simp [Action.isWake, Sys.left]
    omega

lemma exec_left (h : Inv created tid s) (hs : exec (step k created tid) s as = .ok s')
    (hl : ¬ s'.Left) :
    as.countP (· ≠ .iterate) + s'.left ≤ s.left + 3 * as.countP Action.isWake := by
  induction as generalizing s with
  | nil => obtain rfl := Except.ok.inj hs; simp
  | cons a as ih =>
    obtain ⟨u, hu, hs⟩ := (exec_cons_iff _).mp hs
    have hinv := step_inv s a u h hu
    have hlu : ¬ u.Left := fun hleft => hl (exec_inv step_leaves ⟨hinv, hleft⟩ hs).2
    have hstep := step_left h hu hlu
    have hrest := ih hinv hs
    have hcount : (a :: as).countP (· ≠ .iterate) =
        as.countP (· ≠ .iterate) + if a = .iterate then 0 else 1 := by
      rw [List.countP_cons]
      by_cases ha : a = .iterate <;> simp [ha]
    rw [hcount, List.countP_cons]
    split_ifs at hstep ⊢ <;> omega

/-! The loop is left only when the destructor has asked for it. -/

/-- The thread has left its loop, or is about to. -/
def Sys.Ends (s : Sys) : Prop :=
  s.Left ∨ (s.thread = .test ∨ s.thread = .body) ∧ s.quit_ = true

lemma owner_ends (h : s.Ends → s.owner.atCell = .past) (hs : ownerStep created s = .ok s')
    (he : s'.Ends) : s'.owner.atCell = .past := by
  obtain ⟨latch_, loop_, tid_, quit_, owner, thread, returned, iterations⟩ := s
  cases owner <;> simp only [ownerStep] at hs
  case create =>
    split_ifs at hs
    · obtain ⟨l, -, hs⟩ := locked_bind_ok.mp hs
      obtain rfl := Except.ok.inj hs
      rcases he with (he | he) | ⟨he | he, -⟩ <;> cases he
    · obtain ⟨l, -, hs⟩ := locked_bind_ok.mp hs
      obtain rfl := Except.ok.inj hs
      cases h he
  case latch | wait =>
    split at hs
    · obtain rfl := Except.ok.inj hs
      cases h he
    · obtain ⟨l, -, hs⟩ := locked_bind_ok.mp hs
      obtain rfl := Except.ok.inj hs
      cases h he
  case assertTid =>
    split_ifs at hs
    obtain ⟨l, -, hs⟩ := locked_bind_ok.mp hs
    obtain rfl := Except.ok.inj hs
    cases h he
  case started => obtain rfl := Except.ok.inj hs; dsimp only; split <;> rfl
  case quit => obtain rfl := Except.ok.inj hs; rfl
  case join => split_ifs at hs; obtain rfl := Except.ok.inj hs; rfl
  case done => cases hs

lemma thread_ends (h : s.Ends → s.owner.atCell = .past) (hs : threadStep k tid s = .ok s')
    (he : s'.Ends) : s'.owner.atCell = .past := by
  obtain ⟨latch_, loop_, tid_, quit_, owner, thread, returned, iterations⟩ := s
  cases thread <;> simp only [threadStep] at hs
  case setTid | construct =>
    obtain ⟨l, -, hs⟩ := locked_bind_ok.mp hs
    obtain rfl := Except.ok.inj hs
    rcases he with (he | he) | ⟨he | he, -⟩ <;> cases he
  case countDown =>
    split_ifs at hs
    · obtain rfl := Except.ok.inj hs
      rcases he with (he | he) | ⟨he | he, -⟩ <;> cases he
    · obtain ⟨l, -, hs⟩ := locked_bind_ok.mp hs
      obtain rfl := Except.ok.inj hs
      exact h he
  case publish =>
    by_cases hout : loop_.place .changer = .outside
    · rw [if_pos hout] at hs
      obtain rfl := Except.ok.inj hs
      cases hk : k.cb_ <;> simp [Sys.Ends, Sys.Left, hk] at he
    · rw [if_neg hout] at hs
      obtain ⟨l, -, hs⟩ := locked_bind_ok.mp hs
      obtain rfl := Except.ok.inj hs
      exact h he
  case leave =>
    have hpast := h (.inl (.inl rfl))
    split_ifs at hs
    · obtain rfl := Except.ok.inj hs
      exact hpast
    · obtain ⟨l, -, hs⟩ := locked_bind_ok.mp hs
      obtain rfl := Except.ok.inj hs
      exact hpast
  all_goals cases hs

lemma iterate_ends (h : s.Ends → s.owner.atCell = .past) (hs : iterate s = .ok s')
    (he : s'.Ends) : s'.owner.atCell = .past := by
  obtain ⟨latch_, loop_, tid_, quit_, owner, thread, returned, iterations⟩ := s
  cases thread <;> simp only [iterate] at hs
  case callBack | enter =>
    obtain rfl := Except.ok.inj hs
    simp [Sys.Ends, Sys.Left] at he
  case test =>
    split_ifs at hs with hquit
    · have hpast := h (.inr ⟨.inl rfl, hquit⟩)
      obtain ⟨l, -, hs⟩ := locked_bind_ok.mp hs
      obtain rfl := Except.ok.inj hs
      exact hpast
    · obtain rfl := Except.ok.inj hs
      simp [Sys.Ends, Sys.Left, hquit] at he
  case body =>
    obtain rfl := Except.ok.inj hs
    exact h (.inr ⟨.inr rfl, by simpa [Sys.Ends, Sys.Left] using he⟩)
  all_goals cases hs

lemma step_ends (s : Sys) (a : Action) (s' : Sys) (h : s.Ends → s.owner.atCell = .past)
    (hs : step k created tid s a = .ok s') : s'.Ends → s'.owner.atCell = .past := by
  cases a with
  | owner => exact owner_ends h hs
  | thread => exact thread_ends h hs
  | iterate => exact iterate_ends h hs
  | wakeLatch | wakeCond =>
    obtain ⟨l, -, hs⟩ := locked_bind_ok.mp hs
    obtain rfl := Except.ok.inj hs
    exact h

lemma start_ends_past : start.Ends → start.owner.atCell = .past := by
  rintro ((h | h) | ⟨h | h, -⟩) <;> cases h

/-! Who is in the latch, or in the condition, moves with its thread. -/

/-- One of the two threads can go on. -/
def Moves (k : QuitLoop.Kind) (created : Bool) (tid : ℤ) (s : Sys) : Prop :=
  ∃ a s', (a = .owner ∨ a = .thread) ∧ step k created tid s a = .ok s'

lemma moves_owner (s' : Sys) (h : ownerStep created s = .ok s') : Moves k created tid s :=
  ⟨.owner, s', .inl rfl, h⟩

lemma moves_thread (s' : Sys) (h : threadStep k tid s = .ok s') : Moves k created tid s :=
  ⟨.thread, s', .inr rfl, h⟩

lemma latch_go (h : Inv created tid s) {p : Party} {l : Latch Party}
    (hl : Monitor.step latch s.latch_ (.go p) = .ok l) : Moves k created tid s := by
  have hin : s.latch_.place p ≠ .outside := fun hout => by
    simp [Monitor.step, Monitor.Sys.go, hout] at hl
  obtain ⟨c, hc⟩ := Option.ne_none_iff_exists'.mp (mt Monitor.call_eq_none.mp hin)
  cases p with
  | waiter =>
    have hphase := (h.latch.waits c hc).2
    have ho : s.owner = .latch := by
      cases ho : s.owner <;> rw [ho] at hphase <;> cases created <;> trivial
    refine moves_owner { s with latch_ := l } ?_
    simp only [ownerStep, ho, if_neg hin]
    exact locked_bind_ok.mpr ⟨l, hl, rfl⟩
  | changer =>
    obtain ⟨u, -, hu⟩ := h.latch.changes c hc
    have ht : s.thread = .countDown := by
      cases ht : s.thread <;> rw [ht] at hu <;> trivial
    refine moves_thread { s with latch_ := l } ?_
    simp only [threadStep, ht, if_neg hin]
    exact locked_bind_ok.mpr ⟨l, hl, rfl⟩

lemma cell_go (h : Inv created tid s) {p : Party} {l : Monitor.Sys Party Bool Bool}
    (hl : Monitor.step cell s.loop_ (.go p) = .ok l) : Moves k created tid s := by
  have hin : s.loop_.place p ≠ .outside := fun hout => by
    simp [Monitor.step, Monitor.Sys.go, hout] at hl
  obtain ⟨c, hc⟩ := Option.ne_none_iff_exists'.mp (mt Monitor.call_eq_none.mp hin)
  cases p with
  | waiter =>
    have hphase := (h.cell.waits c hc).2
    have ho : s.owner = .wait := by
      cases ho : s.owner <;> rw [ho] at hphase <;> trivial
    refine moves_owner ⟨s.latch_, l, s.tid_, s.quit_, .wait, s.thread,
      if s.loop_.place .waiter = .unlock .wait then s.loop_.data else s.returned,
      s.iterations⟩ ?_
    simp only [ownerStep, ho, if_neg hin]
    exact locked_bind_ok.mpr ⟨l, hl, rfl⟩
  | changer =>
    obtain ⟨u, -, hu⟩ := h.cell.changes c hc
    have ht : s.thread = .publish ∨ s.thread = .leave := by
      cases ht : s.thread <;> rw [ht] at hu <;> simp [Stage.writes] at hu ⊢
    refine moves_thread { s with loop_ := l } ?_
    rcases ht with ht | ht <;> simp only [threadStep, ht, if_neg hin] <;>
      exact locked_bind_ok.mpr ⟨l, hl, rfl⟩

lemma setTid_moves (h : Inv created tid s) (ht : s.thread = .setTid) : Moves k created tid s := by
  have hlatch := h.latch
  rw [ht] at hlatch
  obtain ⟨l, hl, -⟩ := hlatch.change ()
  refine moves_thread { s with latch_ := l, tid_ := tid, thread := .countDown } ?_
  simp only [threadStep, ht]
  exact locked_bind_ok.mpr ⟨l, hl, rfl⟩

lemma countDown_moves (ht : s.thread = .countDown) (hout : s.latch_.place .changer = .outside) :
    Moves k created tid s := by
  refine moves_thread { s with thread := .construct } ?_
  simp only [threadStep, ht, if_pos hout]

/-- The pointer to the loop. -/
lemma Inv.data (h : Inv created tid s) : s.loop_.data = ThreadStart.cell.run false
    (s.thread.writes.2 ++ Monitor.made s.thread.writes.1 (s.loop_.place .changer)) :=
  h.cell.inv.data.trans (by rw [h.cell.updates])

lemma latch_moves (h : Inv created tid s) (ho : s.owner = .latch) : Moves k created tid s := by
  by_cases hout : s.latch_.place .waiter = .outside
  · refine moves_owner { s with owner := .assertTid } ?_
    simp only [ownerStep, ho, if_pos hout]
  rcases h.latch.go_or_parked (.inl hout) with ⟨p, l, hl⟩ | ⟨-, hchanger, hready⟩
  · exact latch_go h hl
  have hcounted : s.thread.counts.2 = [()] → False := fun hc => by
    have hup := h.latch.updates
    have hdata := h.latch.inv.data
    rw [hup, hc] at hdata
    rw [hdata] at hready
    cases hmade : Monitor.made s.thread.counts.1 (s.latch_.place .changer) with
    | nil => rw [hmade] at hready; cases hready
    | cons u us =>
      cases ht : s.thread <;> rw [ht] at hmade hc <;> simp [Stage.counts] at hmade hc
  cases ht : s.thread with
  | idle =>
    rcases h.idle.mp ht with hc | hc
    · rw [ho] at hc; cases hc
    · rcases h.uncreated hc with hc | hc <;> rw [ho] at hc <;> cases hc
  | setTid => exact setTid_moves h ht
  | countDown => exact countDown_moves ht hchanger
  | construct | publish | callBack | enter | test | body | leave | done =>
    exact (hcounted (by rw [ht]; rfl)).elim

lemma wait_moves (h : Inv true tid s) (hends : s.Ends → s.owner.atCell = .past)
    (ho : s.owner = .wait) : Moves k true tid s := by
  by_cases hout : s.loop_.place .waiter = .outside
  · refine moves_owner { s with owner := .started } ?_
    simp only [ownerStep, ho, if_pos hout]
  rcases h.cell.go_or_parked (.inl hout) with ⟨p, l, hl⟩ | ⟨-, hchanger, hready⟩
  · exact cell_go h hl
  have hdata := h.data
  rw [show s.loop_.data = false from hready] at hdata
  cases ht : s.thread with
  | idle =>
    rcases h.idle.mp ht with hc | hc
    · rw [ho] at hc; cases hc
    · cases hc
  | setTid => exact setTid_moves h ht
  | countDown =>
    by_cases hcount : s.latch_.place .changer = .outside
    · exact countDown_moves ht hcount
    · rcases h.latch.go_or_parked (.inr hcount) with ⟨p, l, hl⟩ | ⟨hp, -⟩
      · exact latch_go h hl
      · rw [h.latch.outside (by rw [ho]; simp [Owner.atLatch])] at hp
        cases hp
  | construct =>
    have hcell := h.cell
    rw [ht] at hcell
    obtain ⟨l, hl, -⟩ := hcell.change true
    refine moves_thread { s with loop_ := l, quit_ := k.quit_, thread := .publish } ?_
    simp only [threadStep, ht]
    exact locked_bind_ok.mpr ⟨l, hl, rfl⟩
  | publish =>
    refine moves_thread { s with thread := if k.cb_ then .callBack else .enter } ?_
    simp only [threadStep, ht, if_pos hchanger]
  | callBack | enter | test | body =>
    rw [ht] at hdata
    simp [Stage.writes, Spec.run, cell] at hdata
  | leave | done =>
    have hpast := hends (.inl (by simp [Sys.Left, ht]))
    rw [ho] at hpast
    cases hpast

/-- **`start` ends**: until it has returned, one of the two threads can go on, and both together
make a bounded number of steps, beside those of the loop. -/
theorem start_ends (htid : 0 < tid) (as : List Action)
    (h : exec (step k true tid) start as = .ok s) (hs : s.owner.atCell ≠ .past) :
    Moves k true tid s ∧
      as.countP (· ≠ .iterate) ≤ 31 + 3 * as.countP Action.isWake := by
  have hinv := exec_inv step_inv start_inv h
  have hends := exec_inv step_ends start_ends_past h
  constructor
  · cases ho : s.owner with
    | create =>
      have hlatch := hinv.latch
      rw [ho] at hlatch
      obtain ⟨l, hl, -⟩ := hlatch.wait
      refine moves_owner { s with latch_ := l, owner := .latch, thread := .setTid } ?_
      simp only [ownerStep, ho, if_true]
      exact locked_bind_ok.mpr ⟨l, hl, rfl⟩
    | latch => exact latch_moves hinv ho
    | assertTid =>
      obtain ⟨h1, h2⟩ := hinv.passed_latch (.inl (by rw [ho]; rfl))
      have hcell := hinv.cell
      rw [ho] at hcell
      obtain ⟨l, hl, -⟩ := hcell.wait
      refine moves_owner { s with loop_ := l, owner := .wait } ?_
      simp only [ownerStep, ho, hinv.tid_ h1 h2, if_pos htid]
      exact locked_bind_ok.mpr ⟨l, hl, rfl⟩
    | wait => exact wait_moves hinv hends ho
    | started | quit | join | done => rw [ho] at hs; exact absurd rfl hs
  · have := exec_left start_inv h fun hl => hs (hends (.inl hl))
    have hstart : start.left = 31 := rfl
    omega

/-- The thread has published its loop, and the owner waits at the latch. -/
theorem start_ends_seven : ∃ s, exec (step QuitLoop.timerWheelsThread true 7) start
      [.owner, .owner, .owner, .wakeLatch, .owner, .owner, .thread, .thread, .thread, .thread,
        .thread, .thread, .thread, .thread, .thread, .thread, .thread, .thread, .iterate,
        .iterate] = .ok s ∧
    s.owner.atCell ≠ .past ∧ Moves QuitLoop.timerWheelsThread true 7 s ∧ 18 ≤ 31 + 3 * 1 := by
  obtain ⟨s, hs, hpast⟩ : ∃ s, exec (step QuitLoop.timerWheelsThread true 7) start
      [.owner, .owner, .owner, .wakeLatch, .owner, .owner, .thread, .thread, .thread, .thread,
        .thread, .thread, .thread, .thread, .thread, .thread, .thread, .thread, .iterate,
        .iterate] = .ok s ∧
      s.owner.atCell ≠ .past := ⟨_, rfl, by decide⟩
  obtain ⟨hmoves, hle⟩ := start_ends (by decide) _ hs hpast
  exact ⟨s, hs, hpast, hmoves, hle⟩

/-! ### What is seen without the locks -/

/-- Where the thread is when the critical section that sets `loop_` is one step. `changed` says
whether it has set it. -/
def Stage.seen (k : QuitLoop.Kind) (changed : Bool) : Stage → QuitLoop.Stage
  | .idle => .idle
  | .setTid | .countDown | .construct => .construct
  | .publish => if changed then (if k.cb_ then .callBack else .enter) else .publish
  | .callBack => .callBack
  | .enter => .enter
  | .test => .test
  | .body => .body
  | .leave => if changed then .done else .leave
  | .done => .done

/-- Where the owner is when its wait is one step. -/
def Owner.seen (out : Bool) : Owner → QuitLoop.Owner
  | .create => .start
  | .latch | .assertTid => .wait
  | .wait => if out then .started else .wait
  | .started => .started
  | .quit => .quit
  | .join => .join
  | .done => .done

def Sys.seen (k : QuitLoop.Kind) (s : Sys) : QuitLoop.LoopThread where
  quit_ := s.quit_
  loop_ := s.loop_.data
  thread := s.thread.seen k (s.loop_.place .changer).changed
  owner := s.owner.seen (decide (s.loop_.place .waiter = .outside))
  iterations := s.iterations

/-- The step is one without the locks, or is not seen. -/
def Seen (k : QuitLoop.Kind) (s s' : Sys) : Prop :=
  s'.seen k = s.seen k ∨ ∃ b, QuitLoop.step k (s.seen k) b = .ok (s'.seen k)

lemma seen_owner (h : QuitLoop.ownerFunc (s.seen k) = s'.seen k) : Seen k s s' :=
  .inr ⟨.owner, congrArg Except.ok h⟩

lemma seen_thread (h : QuitLoop.threadFunc k (s.seen k) = s'.seen k) : Seen k s s' :=
  .inr ⟨.thread, congrArg Except.ok h⟩

lemma owner_seen (h : Inv true tid s) (hs : ownerStep true s = .ok s') : Seen k s s' := by
  obtain ⟨latch_, loop_, tid_, quit_, owner, thread, returned, iterations⟩ := s
  obtain ⟨-, hcell, -, hidle, -, -⟩ := h
  cases owner <;> simp only [ownerStep] at hs
  case create =>
    obtain rfl : thread = .idle := hidle.mpr (.inl rfl)
    obtain ⟨l, -, hs⟩ := locked_bind_ok.mp hs
    obtain rfl := Except.ok.inj hs
    exact seen_owner rfl
  case latch =>
    split_ifs at hs
    · obtain rfl := Except.ok.inj hs
      exact .inl rfl
    · obtain ⟨l, -, hs⟩ := locked_bind_ok.mp hs
      obtain rfl := Except.ok.inj hs
      exact .inl rfl
  case assertTid =>
    split_ifs at hs
    obtain ⟨l, hl, hs⟩ := locked_bind_ok.mp hs
    obtain rfl := Except.ok.inj hs
    obtain ⟨l', hl', -, hw, hc, hdata⟩ := hcell.wait
    obtain rfl := Except.ok.inj (hl'.symm.trans hl)
    exact .inl (by simp [Sys.seen, Owner.seen, hw, hc, hdata])
  case wait =>
    by_cases hout : loop_.place .waiter = .outside
    · rw [if_pos hout] at hs
      obtain rfl := Except.ok.inj hs
      exact .inl (by simp [Sys.seen, Owner.seen, hout])
    · rw [if_neg hout] at hs
      obtain ⟨l, hl, hs⟩ := locked_bind_ok.mp hs
      obtain rfl := Except.ok.inj hs
      obtain ⟨-, hdata, hc, ⟨hne, -⟩ | ⟨-, hout', hready⟩⟩ := hcell.waiter_go hl
      · exact .inl (by simp [Sys.seen, Owner.seen, hout, hne, hc, hdata])
      · -- the owner leaves the critical section, in which it has read the pointer
        have hready : loop_.data = true := hready
        exact seen_owner (by
          simp [QuitLoop.ownerFunc, Sys.seen, Owner.seen, hout, hout', hc, hdata, hready])
  case started =>
    obtain rfl := Except.ok.inj hs
    refine seen_owner ?_
    cases hdata : loop_.data <;> simp [QuitLoop.ownerFunc, Sys.seen, Owner.seen, hdata]
  case quit =>
    obtain rfl := Except.ok.inj hs
    exact seen_owner rfl
  case join =>
    split_ifs at hs with hdone
    obtain rfl := Except.ok.inj hs
    exact seen_owner (by simp [QuitLoop.ownerFunc, Sys.seen, Owner.seen, Stage.seen, hdone])
  case done => cases hs

lemma thread_seen (h : Inv true tid s) (hs : threadStep k tid s = .ok s') : Seen k s s' := by
  have hinv' := thread_inv h hs
  have hdata := h.data
  have hdata' := hinv'.data
  obtain ⟨latch_, loop_, tid_, quit_, owner, thread, returned, iterations⟩ := s
  obtain ⟨-, hcell, -⟩ := h
  cases thread <;> simp only [threadStep] at hs
  case setTid =>
    obtain ⟨l, -, hs⟩ := locked_bind_ok.mp hs
    obtain rfl := Except.ok.inj hs
    exact .inl rfl
  case countDown =>
    split_ifs at hs
    · obtain rfl := Except.ok.inj hs
      exact .inl rfl
    · obtain ⟨l, -, hs⟩ := locked_bind_ok.mp hs
      obtain rfl := Except.ok.inj hs
      exact .inl rfl
  case construct =>
    obtain ⟨l, hl, hs⟩ := locked_bind_ok.mp hs
    obtain rfl := Except.ok.inj hs
    obtain ⟨l', hl', -, hc, hw, hd⟩ := hcell.change true
    obtain rfl := Except.ok.inj (hl'.symm.trans hl)
    exact seen_thread (by
      simp [QuitLoop.threadFunc, Sys.seen, Stage.seen, hw, hd, hc, Monitor.Place.changed])
  case publish =>
    by_cases hout : loop_.place .changer = .outside
    · rw [if_pos hout] at hs
      obtain rfl := Except.ok.inj hs
      refine .inl ?_
      cases hk : k.cb_ <;> simp [Sys.seen, Stage.seen, hk, hout, Monitor.Place.changed]
    · rw [if_neg hout] at hs
      obtain ⟨l, hl, hs⟩ := locked_bind_ok.mp hs
      obtain rfl := Except.ok.inj hs
      obtain ⟨-, hw, hmono⟩ := hcell.changer_go hl
      have hw := hw .outside (by simp) (by simp)
      cases hc : (loop_.place .changer).changed <;> cases hc' : (l.place .changer).changed <;>
        simp [Stage.writes, Monitor.made, Spec.run, cell, hc] at hdata <;>
        simp [Stage.writes, Monitor.made, Spec.run, cell, hc'] at hdata'
      · exact .inl (by simp [Sys.seen, hw, hc, hc', hdata, hdata'])
      · exact seen_thread (by
          simp [QuitLoop.threadFunc, Sys.seen, Stage.seen, hw, hc, hc', hdata'])
      · rw [hmono hc] at hc'; cases hc'
      · exact .inl (by simp [Sys.seen, hw, hc, hc', hdata, hdata'])
  case leave =>
    split_ifs at hs with hout
    · obtain rfl := Except.ok.inj hs
      exact .inl (by simp [Sys.seen, Stage.seen, hout, Monitor.Place.changed])
    · obtain ⟨l, hl, hs⟩ := locked_bind_ok.mp hs
      obtain rfl := Except.ok.inj hs
      obtain ⟨-, hw, hmono⟩ := hcell.changer_go hl
      have hw := hw .outside (by simp) (by simp)
      cases hc : (loop_.place .changer).changed <;> cases hc' : (l.place .changer).changed <;>
        simp [Stage.writes, Monitor.made, Spec.run, cell, hc] at hdata <;>
        simp [Stage.writes, Monitor.made, Spec.run, cell, hc'] at hdata'
      · exact .inl (by simp [Sys.seen, hw, hc, hc', hdata, hdata'])
      · exact seen_thread (by
          simp [QuitLoop.threadFunc, Sys.seen, Stage.seen, hw, hc, hc', hdata'])
      · rw [hmono hc] at hc'; cases hc'
      · exact .inl (by simp [Sys.seen, hw, hc, hc', hdata, hdata'])
  all_goals cases hs

lemma iterate_seen (h : Inv true tid s) (hs : iterate s = .ok s') : Seen k s s' := by
  obtain ⟨latch_, loop_, tid_, quit_, owner, thread, returned, iterations⟩ := s
  obtain ⟨-, hcell, -⟩ := h
  cases thread <;> simp only [iterate] at hs
  case test =>
    split_ifs at hs with hquit
    · obtain ⟨l, hl, hs⟩ := locked_bind_ok.mp hs
      obtain rfl := Except.ok.inj hs
      obtain ⟨l', hl', -, hc, hw, hd⟩ := hcell.change false
      obtain rfl := Except.ok.inj (hl'.symm.trans hl)
      exact seen_thread (by simp [QuitLoop.threadFunc, Sys.seen, Stage.seen, hquit, hw, hd, hc,
        Monitor.Place.changed])
    · obtain rfl := Except.ok.inj hs
      exact seen_thread (by simp [QuitLoop.threadFunc, Sys.seen, Stage.seen, hquit])
  case callBack | enter | body =>
    obtain rfl := Except.ok.inj hs
    exact seen_thread rfl
  all_goals cases hs

lemma step_seen (s : Sys) (a : Action) (s' : Sys) (h : Inv true tid s)
    (hs : step k true tid s a = .ok s') : Seen k s s' := by
  cases a with
  | owner => exact owner_seen h hs
  | thread => exact thread_seen h hs
  | iterate => exact iterate_seen h hs
  | wakeLatch =>
    obtain ⟨l, -, hs⟩ := locked_bind_ok.mp hs
    obtain rfl := Except.ok.inj hs
    exact .inl rfl
  | wakeCond =>
    obtain ⟨l, hl, hs⟩ := locked_bind_ok.mp hs
    obtain rfl := Except.ok.inj hs
    obtain ⟨-, hd, hc, hw⟩ := h.cell.wake hl
    have hparked : s.loop_.place .waiter = .parked := by
      by_contra hne
      simp [Monitor.step] at hl
    exact .inl (by simp [Sys.seen, hd, hc, hw, hparked])

/-- **The locks do what they are for**: a run of both threads, step by step through the latch, the
lock and the condition, is seen as a run in which the loop is published, awaited and taken back in
one step each. For each of its steps that run has one or none, and after each it has come to the
state that is seen. -/
theorem refines (tid : ℤ) (as : List Action) :
    ∃ bs : List (Option QuitLoop.Action), bs.length = as.length ∧
      ∀ i s, exec (step k true tid) start (as.take i) = .ok s →
        exec (QuitLoop.step k) QuitLoop.new (bs.take i).reduceOption = .ok (s.seen k) :=
  exec_refines step_inv step_seen start_inv as

end MuduoZ.ThreadStart
