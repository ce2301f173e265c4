import MuduoZ.Connection
import MuduoZ.TcpServer
import MuduoZ.ThreadPool
import MuduoZ.Lib.Run

/-!
The server with all its loops: who holds a connection, and who works on it.

Each loop has a thread; loop 0 is the base loop, which accepts connections and keeps the table of
them. A connection is destroyed with the last `shared_ptr` to it. Such pointers are in the table, in
functions that are queued, in the guard of `handleEvent`, and wherever the user keeps one. But the
channels `epoll` returns are plain pointers, and so is the `this` that `send` and `shutDown` bind.

A user callback is the last thing done by the function that runs it, so the calls it makes are
calls that follow, by a user who has kept a pointer.
-/

namespace MuduoZ.ServerRun

open Runs

/-- Why a step has no result: it came to a connection that was destroyed, `assertInLoopThread`
failed, the code has another fault, or the step cannot be taken. -/
inductive Stop
  | freed
  | aborted
  | fault (f : Fault)
  | impossible
  deriving DecidableEq

/-- What a queued function calls. -/
inductive Bound
  | connectEstablished
  | connectionCloseInLoop
  | task (t : Connection.Task)
  deriving DecidableEq

/-- A queued function, with the connection it is bound to. -/
structure Functor where
  conn : ConnectionPtr
  run : Bound
  deriving DecidableEq

/-- The connection is bound by `shared_ptr`, not by `this`. -/
def Bound.strong : Bound → Bool
  | .task (.sendInLoop _) | .task .shutDownInLoop => false
  | _ => true

/-- Where a loop is: in `poll`, handling the events that are left, with one under way, or running
the functions that are left, beside those it has run and still has. -/
inductive Pc
  | poll
  | events (active : List (ConnectionPtr × Events))
      (handling : Option (ConnectionPtr × List Channel.CallBack))
  | functions (left ran : List Functor)

structure LoopThread where
  pendingFunctions_ : List Functor
  pc : Pc

namespace LoopThread

variable (l : LoopThread)

/-- The channels that are to be handled. -/
def active : List ConnectionPtr :=
  match l.pc with
  | .events active _ => active.map Prod.fst
  | _ => []

/-- The connection that `handleEvent` guards. -/
def guarded : Option ConnectionPtr :=
  match l.pc with
  | .events _ handling => handling.map Prod.fst
  | _ => none

/-- The functions that are to be run, in their order. -/
def todo : List Functor :=
  match l.pc with
  | .functions left _ => left ++ l.pendingFunctions_
  | _ => l.pendingFunctions_

/-- The functions that were run in this round, and are there still. -/
def ran : List Functor :=
  match l.pc with
  | .functions _ ran => ran
  | _ => []

/-- The loop has a `shared_ptr` to the connection. -/
def holds (c : ConnectionPtr) : Bool :=
  l.guarded == some c || (l.todo ++ l.ran).any fun f => f.conn == c && f.run.strong

end LoopThread

/-- `n` loops beside the base loop. `kept` are the pointers the user keeps. -/
structure Sys (n : ℕ) where
  server : TcpServer
  pool : EventLoopThreadPool (Fin (n + 1))
  loop_ : ConnectionPtr → Fin (n + 1)
  conns : ConnectionPtr → Connection
  loops : Fin (n + 1) → LoopThread
  kept : List ConnectionPtr

/-- The call of the connection has told the server that it is closed. -/
def closes (k : Connection) : Bool := decide (.connectCloseCallBack ∈ k.log)

@[simp] lemma closes_iff {k : Connection} : closes k = true ↔ .connectCloseCallBack ∈ k.log :=
  decide_eq_true_iff

@[simp] lemma closes_false_iff {k : Connection} :
    closes k = false ↔ .connectCloseCallBack ∉ k.log :=
  decide_eq_false_iff_not

variable {n : ℕ}

/-- The loop of the server, which accepts. -/
abbrev baseLoop : Fin (n + 1) := 0

namespace Sys

variable (s : Sys n)

/-- There is a `shared_ptr` to the connection. -/
def alive (c : ConnectionPtr) : Bool :=
  s.server.connectionMap_.any (fun e => e.2 == c) || s.kept.contains c ||
    decide (∃ l, (s.loops l).holds c = true)

def setLoop (l : Fin (n + 1)) (t : LoopThread) : Sys n :=
  { s with loops := Function.update s.loops l t }

def setPc (l : Fin (n + 1)) (pc : Pc) : Sys n := s.setLoop l { s.loops l with pc := pc }

def queueInLoop (l : Fin (n + 1)) (fs : List Functor) : Sys n :=
  s.setLoop l { s.loops l with pendingFunctions_ := (s.loops l).pendingFunctions_ ++ fs }

def connectionCloseInLoop (c : ConnectionPtr) : Except Stop (Sys n) :=
  match s.server.connectionCloseInLoop c with
  | .error f => .error (.fault f)
  | .ok server => .ok { s with server := server }

/-- `connectionClose`, called by the thread of the connection's loop. -/
def connectionClose (c : ConnectionPtr) : Except Stop (Sys n) :=
  if s.loop_ c = baseLoop then s.connectionCloseInLoop c
  else .ok (s.queueInLoop baseLoop [⟨c, .connectionCloseInLoop⟩])

/-- A call of a connection: what it queues goes to its loop, and its close to the server. Its log
is that of the call. -/
def apply (c : ConnectionPtr) (f : Connection → Result Connection) : Except Stop (Sys n) :=
  match f { s.conns c with pendingFunctions_ := [], log := [] } with
  | .error e => .error (.fault e)
  | .ok k =>
    let s := { s with conns := Function.update s.conns c k }
    let s := s.queueInLoop (s.loop_ c) (k.pendingFunctions_.map fun t => ⟨c, .task t⟩)
    if closes k then s.connectionClose c else .ok s

/-- A queued function is run by the thread of loop `l`. -/
def runFunctor (l : Fin (n + 1)) (f : Functor) (written : Option ℕ) : Except Stop (Sys n) :=
  if s.alive f.conn = false then .error .freed
  else match f.run with
    | .connectEstablished =>
      if l = s.loop_ f.conn then s.apply f.conn fun k => .ok k.connectEstablished
      else .error .aborted
    | .connectionCloseInLoop =>
      if l = baseLoop then s.connectionCloseInLoop f.conn else .error .aborted
    | .task .messageSendCallBack => s.apply f.conn fun k => k.runTask written .messageSendCallBack
    | .task t =>
      if l = s.loop_ f.conn then s.apply f.conn fun k => k.runTask written t else .error .aborted

/-- A callback of the channel is run by the thread of loop `l`. -/
def runCallBack (l : Fin (n + 1)) (c : ConnectionPtr) (results : List ReadResult)
    (written : Option ℕ) (cb : Channel.CallBack) : Except Stop (Sys n) :=
  if (cb = .read ∨ cb = .write) ∧ l ≠ s.loop_ c then .error .aborted
  else s.apply c fun k => k.runCallBack results written cb

/-- What `epoll_wait` may return: descriptors that are registered, each once, and no more than
there is room for. -/
def Ready (l : Fin (n + 1)) (ready : List (ConnectionPtr × Events)) : Prop :=
  (ready.map Prod.fst).Nodup ∧ ready.length ≤ 16 ∧ ∀ e ∈ ready,
    s.loop_ e.1 = l ∧ s.alive e.1 = true ∧ (s.conns e.1).channel_.interest ≠ none

instance (l : Fin (n + 1)) (ready : List (ConnectionPtr × Events)) :
    Decidable (s.Ready l ready) := inferInstanceAs (Decidable (_ ∧ _ ∧ _))

/-- The next step of a loop. `ready` is what `poll` returns, `results` and `written` are what the
socket does. -/
def loopStep (l : Fin (n + 1)) (ready : List (ConnectionPtr × Events))
    (results : List ReadResult) (written : Option ℕ) : Except Stop (Sys n) :=
  match (s.loops l).pc with
  | .poll => if s.Ready l ready then .ok (s.setPc l (.events ready none)) else .error .impossible
  | .events ((c, activeEvent) :: active) none =>
    if s.alive c then .ok (s.setPc l (.events active (some (c, Channel.callBacks activeEvent))))
    else .error .freed
  | .events active (some (c, cb :: cbs)) =>
    match s.runCallBack l c results written cb with
    | .error e => .error e
    | .ok s => .ok (s.setPc l (.events active (some (c, cbs))))
  | .events active (some (_, [])) => .ok (s.setPc l (.events active none))
  | .events [] none =>
    .ok (s.setLoop l ⟨[], .functions (s.loops l).pendingFunctions_ []⟩)
  | .functions (f :: left) ran =>
    match s.runFunctor l f written with
    | .error e => .error e
    | .ok s => .ok (s.setPc l (.functions left (ran ++ [f])))
  | .functions [] _ => .ok (s.setPc l .poll)

/-- The end of `newConnection`, with the loop the pool has given. -/
def addConnection (fresh : Connection) (loop : Fin (n + 1))
    (pool : EventLoopThreadPool (Fin (n + 1))) : Sys n :=
  let conn := s.server.names.length
  { s with
    server := s.server.newConnection
    pool := pool
    loop_ := Function.update s.loop_ conn loop
    conns := Function.update s.conns conn fresh }.queueInLoop loop [⟨conn, .connectEstablished⟩]

/-- The acceptor has accepted a connection. -/
def newConnection (fresh : Connection) : Except Stop (Sys n) :=
  match s.pool.getLoop with
  | .error e => .error (.fault e)
  | .ok (loop, pool) => .ok (s.addConnection fresh loop pool)

end Sys

inductive Action (n : ℕ)
  | loop (l : Fin (n + 1)) (ready : List (ConnectionPtr × Events)) (results : List ReadResult)
      (written : Option ℕ)
  | newConnection
  | keep (c : ConnectionPtr)
  | release (c : ConnectionPtr)
  | send (c : ConnectionPtr) (inLoop : Bool) (msg : Str) (written : Option ℕ)
  | shutDown (c : ConnectionPtr) (inLoop : Bool)
  | forceClose (c : ConnectionPtr) (inLoop : Bool)

/-- A call by a user who has kept a pointer. -/
def Sys.call (s : Sys n) (c : ConnectionPtr) (f : Connection → Result Connection) :
    Except Stop (Sys n) :=
  if c ∈ s.kept then s.apply c f else .error .impossible

/-- The callbacks that new connections are given are there or not. -/
def step (received sent : Bool) (s : Sys n) : Action n → Except Stop (Sys n)
  | .loop l ready results written => s.loopStep l ready results written
  | .newConnection => s.newConnection (Connection.new received sent)
  | .keep c => if s.alive c then .ok { s with kept := c :: s.kept } else .error .impossible
  | .release c => .ok { s with kept := s.kept.erase c }
  | .send c inLoop msg written => s.call c fun k => k.send inLoop msg written
  | .shutDown c inLoop => s.call c fun k => k.shutDown inLoop
  | .forceClose c inLoop => s.call c fun k => k.forceClose inLoop

/-- The server before its first connection, with its pool started. -/
def start (port : ℤ) (name : Str) : Sys n where
  server := .new port name
  pool := (EventLoopThreadPool.new 0 n).start fun i => Fin.ofNat (n + 1) (i + 1)
  loop_ _ := baseLoop
  conns _ := Connection.new false false
  loops _ := ⟨[], .poll⟩
  kept := []

end MuduoZ.ServerRun
