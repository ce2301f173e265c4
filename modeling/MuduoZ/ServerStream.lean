import MuduoZ.Lifetime
import MuduoZ.OutputStream

/-!
What the users of a running server send, and what the sockets accept of it.

Any thread may call `send`. In the loop of the connection the message is handed over at once, and
from another thread it goes through the queue of that loop. A message is what it is at the call:
the user leaves its bytes alone until it was handed over.
-/

namespace MuduoZ.ServerRun

open Runs Connection

variable {n : ℕ}

/-! ### Calls -/

/-- A call of a connection, with what the socket does in it. -/
inductive Call
  | connectEstablished
  | callBack (cb : Channel.CallBack) (results : List ReadResult) (written : Option ℕ)
  | task (t : Task) (written : Option ℕ)
  | send (inLoop : Bool) (msg : Str) (written : Option ℕ)
  | shutDown (inLoop : Bool)
  | forceClose (inLoop : Bool)

namespace Call

def run (k : Connection) : Call → Result Connection
  | .connectEstablished => .ok k.connectEstablished
  | .callBack cb results written => k.runCallBack results written cb
  | .task t written => k.runTask written t
  | .send inLoop msg written => k.send inLoop msg written
  | .shutDown inLoop => k.shutDown inLoop
  | .forceClose inLoop => k.forceClose inLoop

/-- The message the user sends, if the connection is open, and whether the loop does. -/
def sent (k : Connection) : Call → List (Bool × Str)
  | .send inLoop msg _ => if k.state_ = .Connected then [(inLoop, msg)] else []
  | _ => []

/-- The message that is handed over, and whether the loop sent it or found it in its queue. -/
def handed (k : Connection) : Call → List (Bool × Str)
  | .task (.sendInLoop msg) _ => [(false, msg)]
  | .send true msg _ => if k.state_ = .Connected then [(true, msg)] else []
  | _ => []

/-- The write of this call, if it makes one, does not break the stream. -/
def Kept (k : Connection) : Call → Prop
  | .callBack .write _ written => OutputStream.Kept k (.handleWrite written)
  | .task (.sendInLoop msg) written => OutputStream.Kept k (.sendInLoop msg written)
  | .send true msg written => k.state_ = .Connected →
      OutputStream.Kept k (.sendInLoop msg written)
  | _ => True

instance (k : Connection) : ∀ op, Decidable (OutputStream.Kept k op)
  | .sendInLoop _ _ => inferInstanceAs (Decidable (_ → _ → _))
  | .handleWrite _ => inferInstanceAs (Decidable (_ ≤ _))

instance (k : Connection) : ∀ call : Call, Decidable (call.Kept k)
  | .callBack .write _ written =>
    inferInstanceAs (Decidable (OutputStream.Kept k (.handleWrite written)))
  | .task (.sendInLoop msg) written =>
    inferInstanceAs (Decidable (OutputStream.Kept k (.sendInLoop msg written)))
  | .send true msg written =>
    inferInstanceAs (Decidable (_ → OutputStream.Kept k (.sendInLoop msg written)))
  | .callBack .close .. | .callBack .error .. | .callBack .read .. | .task .shutDownInLoop _
  | .task .forceCloseInLoop _ | .task .messageSendCallBack _ | .send false .. | .shutDown _
  | .forceClose _ | .connectEstablished => .isTrue trivial

end Call

/-- The messages with this mark. -/
def marked (b : Bool) (msgs : List (Bool × Str)) : List Str :=
  (msgs.filter (·.1 = b)).map Prod.snd

@[simp] lemma marked_append (b : Bool) (msgs msgs' : List (Bool × Str)) :
    marked b (msgs ++ msgs') = marked b msgs ++ marked b msgs' := by
  simp [marked]

@[simp] lemma marked_nil (b : Bool) : marked b [] = [] := rfl

def queuedMessage : Task → Option Str
  | .sendInLoop msg => some msg
  | _ => none

/-- What a call does to the stream of its connection. -/
structure Passes (k k' : Connection) (call : Call) : Prop where
  stream : accepted k'.log ++ k'.outputBuffer_.readable =
    k.outputBuffer_.readable ++ ((call.handed k).map Prod.snd).flatten
  messages : messages k'.log = (call.handed k).map Prod.snd
  inLoop : marked true (call.handed k) = marked true (call.sent k)
  queued : k'.pendingFunctions_.filterMap queuedMessage = marked false (call.sent k)

variable {k k' : Connection}

/-- A call that hands nothing over. -/
lemma passes_quiet {call : Call} (hh : call.handed k = []) (hs : call.sent k = [])
    (hout : accepted k'.log ++ k'.outputBuffer_.readable = k.outputBuffer_.readable)
    (hlog : Connection.messages k'.log = [])
    (hpending : k'.pendingFunctions_.filterMap queuedMessage = []) : Passes k k' call := by
  refine ⟨?_, ?_, ?_, ?_⟩ <;> simp [hh, hs, hout, hlog, hpending]

/-- A message that is handed over is split between the socket and the output buffer. -/
lemma passes_sendInLoop (hv : k.outputBuffer_.Valid) (hlog : k.log = [])
    (hpending : k.pendingFunctions_ = []) {call : Call} {b : Bool} {msg : Str}
    {written : Option ℕ} (hh : call.handed k = [(b, msg)])
    (hs : marked true (call.sent k) = marked true [(b, msg)]) (hq : marked false (call.sent k) = [])
    (hk : OutputStream.Kept k (.sendInLoop msg written))
    (h : k.sendInLoop msg written = .ok k') : Passes k k' call := by
  obtain ⟨out, log, heq, -, hr, hm, ha, -⟩ := sendInLoop_spec hv msg written
  obtain rfl := Except.ok.inj (heq.symm.trans h)
  refine ⟨?_, by simp [hlog, hm, hh], by rw [hh, hs], by simp [hpending, hq]⟩
  calc accepted (k.log ++ log) ++ out.readable
    _ = k.taken msg written ++ k.outputBuffer_.readable ++ k.kept msg written := by
        simp [hlog, ha, hr]
    _ = k.outputBuffer_.readable ++ (k.taken msg written ++ k.kept msg written) := by
        rw [OutputStream.taken_readable hv, List.append_assoc]
    _ = k.outputBuffer_.readable ++ ((call.handed k).map Prod.snd).flatten := by
        rw [OutputStream.taken_kept hk]
        simp [hh]

/-- What is written moves from the output buffer to the socket. -/
lemma passes_handleWrite (hv : k.outputBuffer_.Valid) (hlog : k.log = [])
    (hpending : k.pendingFunctions_ = []) {results : List ReadResult} {written : Option ℕ}
    (hk : OutputStream.Kept k (.handleWrite written)) :
    Passes k (k.handleWrite written) (.callBack .write results written) := by
  obtain ⟨out, -, hr, hdrain, hpart⟩ := handleWrite_spec hv written
  have hsplit := gone_append_drop hk
  by_cases hd : k.Drains written
  · rw [hdrain hd]
    refine passes_quiet rfl rfl ?_ ?_ ?_ <;> dsimp only <;> split_ifs <;>
      simp [hlog, hr, hsplit, hpending, queuedMessage]
  · rw [hpart hd]
    refine passes_quiet rfl rfl ?_ ?_ ?_ <;> simp [hlog, hr, hsplit, hpending]

/-- Reading leaves what is sent alone. -/
lemma passes_handleRead (hlog : k.log = []) (hpending : k.pendingFunctions_ = [])
    {results : List ReadResult} {written : Option ℕ} (h : k.handleRead results = .ok k') :
    Passes k k' (.callBack .read results written) := by
  rw [Connection.handleRead] at h
  obtain ⟨⟨input, sum⟩, -, h⟩ := bind_ok_iff.mp h
  dsimp only at h
  split_ifs at h <;> obtain rfl := Except.ok.inj h <;> refine passes_quiet rfl rfl ?_ ?_ ?_ <;>
    simp [emit, handleClose, handleError, hlog, hpending]

/-- **What a call does to the stream**, if its write does not break it. -/
theorem Call.passes (hv : k.outputBuffer_.Valid) (hlog : k.log = [])
    (hpending : k.pendingFunctions_ = []) {call : Call} (hk : call.Kept k)
    (h : call.run k = .ok k') : Passes k k' call := by
  cases call with
  | connectEstablished =>
    obtain rfl := Except.ok.inj h
    refine passes_quiet rfl rfl ?_ ?_ ?_ <;>
      simp [Connection.connectEstablished, emit, hlog, hpending]
  | callBack cb results written =>
    cases cb with
    | close =>
      obtain rfl := Except.ok.inj h
      refine passes_quiet rfl rfl ?_ ?_ ?_ <;> simp [handleClose, emit, hlog, hpending]
    | error =>
      obtain rfl := Except.ok.inj h
      refine passes_quiet rfl rfl ?_ ?_ ?_ <;> simp [handleError, hlog, hpending]
    | read => exact passes_handleRead hlog hpending h
    | write =>
      obtain rfl := Except.ok.inj h
      exact passes_handleWrite hv hlog hpending hk
  | task t written =>
    cases t with
    | sendInLoop msg => exact passes_sendInLoop hv hlog hpending rfl rfl rfl hk h
    | shutDownInLoop =>
      obtain rfl := Except.ok.inj h
      unfold Connection.shutDownInLoop
      split_ifs <;> refine passes_quiet rfl rfl ?_ ?_ ?_ <;> simp [emit, hlog, hpending]
    | forceCloseInLoop =>
      obtain rfl := Except.ok.inj h
      unfold Connection.forceCloseInLoop
      split_ifs <;> refine passes_quiet rfl rfl ?_ ?_ ?_ <;>
        simp [handleClose, emit, hlog, hpending]
    | messageSendCallBack =>
      obtain rfl := Except.ok.inj h
      refine passes_quiet rfl rfl ?_ ?_ ?_ <;> simp [emit, hlog, hpending]
  | send inLoop msg written =>
    simp only [Call.run, Connection.send] at h
    split_ifs at h with hst
    · cases inLoop with
      | true =>
        have hmsg : Call.sent k (.send true msg written) = [(true, msg)] := if_pos hst
        exact passes_sendInLoop hv hlog hpending (if_pos hst) (by rw [hmsg])
          (by rw [hmsg]; rfl) (hk hst) h
      | false =>
        obtain rfl := Except.ok.inj h
        refine ⟨?_, ?_, ?_, ?_⟩ <;>
          simp [Connection.queueInLoop, hlog, hpending, Call.handed, Call.sent, hst, marked,
            queuedMessage]
    · obtain rfl := Except.ok.inj h
      cases inLoop <;> refine passes_quiet ?_ ?_ ?_ ?_ ?_ <;>
        simp [Call.handed, Call.sent, hst, hlog, hpending]
  | shutDown inLoop =>
    simp only [Call.run, Connection.shutDown] at h
    split_ifs at h
    · cases inLoop <;> simp only [runInLoop, runTask, Connection.shutDownInLoop, if_true,
        Bool.false_eq_true, if_false] at h <;> obtain rfl := Except.ok.inj h
      · refine passes_quiet rfl rfl ?_ ?_ ?_ <;>
          simp [Connection.queueInLoop, hlog, hpending, queuedMessage]
      · split_ifs <;> refine passes_quiet rfl rfl ?_ ?_ ?_ <;> simp [emit, hlog, hpending]
    · obtain rfl := Except.ok.inj h
      refine passes_quiet rfl rfl ?_ ?_ ?_ <;> simp [hlog, hpending]
  | forceClose inLoop =>
    simp only [Call.run, Connection.forceClose] at h
    split_ifs at h
    · cases inLoop <;> simp only [runInLoop, runTask, Connection.forceCloseInLoop, if_true,
        Bool.false_eq_true, if_false] at h <;> obtain rfl := Except.ok.inj h
      · refine passes_quiet rfl rfl ?_ ?_ ?_ <;>
          simp [Connection.queueInLoop, hlog, hpending, queuedMessage]
      · split_ifs
        refine passes_quiet rfl rfl ?_ ?_ ?_ <;> simp [handleClose, emit, hlog, hpending]
    · obtain rfl := Except.ok.inj h
      refine passes_quiet rfl rfl ?_ ?_ ?_ <;> simp [hlog, hpending]

/-! ### Steps -/

/-- The call that a step makes, if it makes one. -/
def Sys.calling (s : Sys n) : Action n → Option (ConnectionPtr × Call)
  | .loop l _ results written =>
    match (s.loops l).pc with
    | .events _ (some (c, cb :: _)) => some (c, .callBack cb results written)
    | .functions (⟨c, .connectEstablished⟩ :: _) _ => some (c, .connectEstablished)
    | .functions (⟨c, .task t⟩ :: _) _ => some (c, .task t written)
    | _ => none
  | .send c inLoop msg written => some (c, .send inLoop msg written)
  | .shutDown c inLoop => some (c, .shutDown inLoop)
  | .forceClose c inLoop => some (c, .forceClose inLoop)
  | .newConnection | .keep _ | .release _ => none

def Bound.message : Bound → Option Str
  | .task t => queuedMessage t
  | _ => none

/-- The messages that wait in the queue of the loop. -/
def View.waiting (v : View n) : List Str := (v.todo v.loop_).filterMap Bound.message

variable {s s' : Sys n} {l : Fin (n + 1)} {c d : ConnectionPtr} {gone : ConnectionPtr → Prop}

lemma View.waiting_apply (v : View n) (k : Connection) :
    (v.apply k).waiting = v.waiting ++ k.pendingFunctions_.filterMap queuedMessage := by
  have hmap : (k.pendingFunctions_.map Bound.task).filterMap Bound.message =
      k.pendingFunctions_.filterMap queuedMessage := by
    rw [List.filterMap_map]
    rfl
  simp only [View.waiting, View.apply, if_true, List.filterMap_append, hmap]
  split_ifs <;> simp [Bound.message]

/-- A message is taken off by the loop of its connection. -/
lemma View.waiting_pop {v : View n} {b : Bound} {bs : List Bound} (hl : v.todo l = b :: bs)
    (hb : b.message = none ∨ l = v.loop_) :
    v.waiting = b.message.toList ++ (v.pop l).waiting := by
  simp only [View.waiting, View.pop]
  by_cases hloop : v.loop_ = l
  · rw [hloop, Function.update_self, hl, List.tail_cons, List.filterMap_cons]
    cases b.message <;> rfl
  · rw [Function.update_of_ne hloop, hb.resolve_right (Ne.symm hloop)]
    rfl

/-- The step leaves the stream of the connection alone. -/
structure Rests (s s' : Sys n) (c : ConnectionPtr) : Prop where
  conn : s'.conns c = s.conns c
  waiting : (s'.view c).waiting = (s.view c).waiting

lemma Rests.of_view (h : s'.view c = s.view c) : Rests s s' c :=
  ⟨congrArg View.conn h, by rw [h]⟩

/-- The step makes this call, and leaves other connections alone. -/
structure Calls (s s' : Sys n) (c : ConnectionPtr) (call : Call) : Prop where
  made : c < s.server.names.length
  ran : call.run (s.view c).called = .ok (s'.conns c)
  waiting : (s.view c).waiting ++ (s'.conns c).pendingFunctions_.filterMap queuedMessage =
    marked false (call.handed (s.view c).called) ++ (s'.view c).waiting
  others : ∀ d, d ≠ c → Rests s s' d
  names : s'.server.names = s.server.names

/-- The step leaves all of them alone. -/
structure Idle (s s' : Sys n) : Prop where
  rests : ∀ d, Rests s s' d
  names : s'.server.names = s.server.names

lemma Rests.trans {s'' : Sys n} (h : Rests s s' c) (h' : Rests s' s'' c) : Rests s s'' c :=
  ⟨h'.conn.trans h.conn, h'.waiting.trans h.waiting⟩

lemma Calls.idle {s'' : Sys n} {call : Call} (h : Calls s s' c call) (h' : Idle s' s'') :
    Calls s s'' c call :=
  ⟨h.made, by rw [(h'.rests c).conn]; exact h.ran,
    by rw [(h'.rests c).conn, (h'.rests c).waiting]; exact h.waiting,
    fun d hd => (h.others d hd).trans (h'.rests d), h'.names.trans h.names⟩

/-- A loop goes on, with the same functions to run. -/
lemma idle_setLoop {t : LoopThread} (h : t.todo = (s.loops l).todo) : Idle s (s.setLoop l t) :=
  ⟨fun d => ⟨rfl, by
    rw [view_setLoop_events (by rw [LoopThread.todoOf, h, LoopThread.todoOf])]; rfl⟩, rfl⟩

/-- What is called, and does not come from the queue. -/
lemma calls_of_apply (call : Call) (ht : Table s.server) (hc : c < s.server.names.length)
    (hq : marked false (call.handed (s.view c).called) = [])
    (h : s.apply c (fun k => call.run k) = .ok s') : Calls s s' c call := by
  rcases apply_spec ht hc (f := fun k => call.run k) with
    ⟨e, -, he⟩ | ⟨k, s1, hk, hs, hf, -, hv⟩
  · rw [he] at h; cases h
  · obtain rfl := Except.ok.inj (hs.symm.trans h)
    have hconn : s1.conns c = k := congrArg View.conn hv
    refine ⟨hc, by rw [hconn]; exact hk, ?_, fun d hd => .of_view (hf.others d hd), hf.names⟩
    rw [hv, View.waiting_apply, hconn, hq]
    rfl

/-- A queued function is run, and taken off. -/
lemma calls_of_pop (call : Call) (h : Inv gone s) {b : Bound} {left ran : List Functor}
    (hpc : (s.loops l).pc = .functions (⟨c, b⟩ :: left) ran)
    (hb : marked false (call.handed (s.view c).called) = b.message.toList)
    (hloop : b.message = none ∨ l = s.loop_ c)
    (hs : s.apply c (fun k => call.run k) = .ok s') (ran' : List Functor) :
    Calls s (s'.setPc l (.functions left ran')) c call := by
  have htodo : (s.loops l).todo = ⟨c, b⟩ :: (left ++ (s.loops l).pendingFunctions_) := by
    rw [loops_eq hpc]; rfl
  have hmem : (⟨c, b⟩ : Functor) ∈ (s.loops l).todo := by rw [htodo]; exact List.mem_cons_self ..
  have hc := (h.present_of_todo hmem).made
  rcases apply_spec h.table hc (f := fun k => call.run k) with
    ⟨e, -, he⟩ | ⟨k, s1, hk, hs1, hf, hp, hv⟩
  · rw [he] at hs; cases hs
  · obtain rfl := Except.ok.inj (hs1.symm.trans hs)
    obtain ⟨hself, hother⟩ := view_pop ((hp l).trans hpc) ran'
    have hconn : s1.conns c = k := congrArg View.conn hv
    refine ⟨hc, by rw [← hconn] at hk; exact hk, ?_, fun d hd => ?_, hf.names⟩
    · obtain ⟨bs, hbs⟩ : ∃ bs, ((s.view c).apply k).todo l = b :: bs := by
        have hcons : (s.view c).todo l = b :: ((left ++ (s.loops l).pendingFunctions_).filter
            (·.conn = c)).map Functor.run := by
          change (s.loops l).todoOf c = _
          simp [LoopThread.todoOf, htodo]
        simp only [View.apply, hcons, List.cons_append]
        exact ⟨_, rfl⟩
      have hpop := View.waiting_pop hbs hloop
      rw [hself, hv, hb, ← hpop, View.waiting_apply]
      change _ ++ (s1.conns c).pendingFunctions_.filterMap queuedMessage = _
      rw [hconn]
    · exact .of_view ((hother d hd).trans (hf.others d hd))

/-- A step does what it is said to call, and nothing else to any stream. -/
def Does (s s' : Sys n) : Option (ConnectionPtr × Call) → Prop
  | none => Idle s s'
  | some (c, call) => Calls s s' c call

/-- A function of the queue is run by the loop of its connection. -/
lemma runFunctor_does (h : Inv gone s) {f : Functor} {left ran : List Functor}
    {written : Option ℕ} (hpc : (s.loops l).pc = .functions (f :: left) ran)
    (hs : s.runFunctor l f written = .ok s') (ready : List (ConnectionPtr × Events))
    (results : List ReadResult) (ran' : List Functor) :
    Does s (s'.setPc l (.functions left ran')) (s.calling (.loop l ready results written)) := by
  obtain ⟨c, b⟩ := f
  have hmem : (⟨c, b⟩ : Functor) ∈ (s.loops l).todo := by
    rw [loops_eq hpc]; exact List.mem_cons_self ..
  have hc := (h.present_of_todo hmem).made
  have hb : b ∈ (s.view c).todo l := mem_todoOf.mpr hmem
  have halive : s.alive c = true := by
    by_contra hdead
    rw [Sys.runFunctor, if_pos (by simpa using hdead)] at hs
    cases hs
  cases b with
  | connectEstablished =>
    have hloop := (h.good c hc).inLoop l _ hb (by simp)
    rw [runFunctor_establish halive hloop] at hs
    simp only [Sys.calling, hpc]
    exact calls_of_pop .connectEstablished h hpc rfl (.inl rfl) hs ran'
  | task t =>
    have hloop := (h.good c hc).inLoop l _ hb (by simp)
    rw [runFunctor_task halive hloop] at hs
    simp only [Sys.calling, hpc]
    refine calls_of_pop (.task t written) h hpc ?_ (.inr hloop) hs ran'
    cases t <;> rfl
  | connectionCloseInLoop =>
    obtain ⟨rfl, -⟩ := (h.good c hc).inBase l hb
    rw [runFunctor_close halive] at hs
    obtain ⟨s1, hs1, hf, hp, hv⟩ := connectionCloseInLoop_spec h.table hc
    obtain rfl := Except.ok.inj (hs1.symm.trans hs)
    obtain ⟨hself, hother⟩ := view_pop ((hp 0).trans hpc) ran'
    simp only [Sys.calling, hpc]
    refine ⟨fun d => ?_, hf.names⟩
    by_cases hd : d = c
    · subst hd
      have htodo : (s1.view d).todo 0 = .connectionCloseInLoop ::
          ((left ++ (s1.loops 0).pendingFunctions_).filter (·.conn = d)).map Functor.run := by
        change (s1.loops 0).todoOf d = _
        rw [loops_eq ((hp 0).trans hpc)]
        simp [LoopThread.todoOf, LoopThread.todo]
      have hpop := View.waiting_pop htodo (.inl rfl)
      refine ⟨congrArg View.conn hv, ?_⟩
      rw [hself]
      exact hpop.symm.trans (by rw [hv]; rfl)
    · exact .of_view ((hother d hd).trans (hf.others d hd))

/-- The next step of a loop. -/
lemma loopStep_does (h : Inv gone s) {ready : List (ConnectionPtr × Events)}
    {results : List ReadResult} {written : Option ℕ}
    (hs : s.loopStep l ready results written = .ok s') :
    Does s s' (s.calling (.loop l ready results written)) := by
  cases loopStep_cases hs with
  | poll hpc | take hpc | letGo hpc | done hpc =>
    simp only [Sys.calling, hpc]
    exact idle_setLoop (by rw [loops_eq hpc]; rfl)
  | swap hpc =>
    simp only [Sys.calling, hpc]
    exact idle_setLoop (by rw [loops_eq hpc]; simp [LoopThread.todo])
  | @call c cb cbs active s1 hpc hr =>
    have hguard : (s.view c).guarded l = true := by
      simp only [Sys.view]
      rw [loops_eq hpc]
      simp [LoopThread.guarded]
    have hc := (h.present_of_alive (alive_of_guarded hguard)).made
    have hp := ((runCallBack_spec h hguard results written cb).2 s1 hr).2
    rw [Sys.runCallBack] at hr
    split_ifs at hr
    simp only [Sys.calling, hpc]
    exact (calls_of_apply (.callBack cb results written) h.table hc rfl hr).idle
      (idle_setLoop (by rw [loops_eq ((hp l).trans hpc)]; rfl))
  | run hpc hr => exact runFunctor_does h hpc hr ready results _

/-- A call by a user. -/
lemma call_does (call : Call) (h : Inv gone s)
    (hq : marked false (call.handed (s.view c).called) = [])
    (hs : s.call c (fun k => call.run k) = .ok s') : Calls s s' c call := by
  unfold Sys.call at hs
  split_ifs at hs with hk
  have hc := h.present_of_alive (alive_of_kept (List.count_pos_iff.mpr hk))
  exact calls_of_apply call h.table hc.made hq hs

/-- **A step makes one call, or none**, unless it makes a connection. -/
theorem step_does (h : Inv gone s) {received sent : Bool} {a : Action n}
    (ha : a ≠ .newConnection) (hs : step received sent s a = .ok s') :
    Does s s' (s.calling a) := by
  cases a with
  | loop l ready results written => exact loopStep_does h hs
  | newConnection => exact absurd rfl ha
  | keep c =>
    simp only [step] at hs
    split_ifs at hs
    obtain rfl := Except.ok.inj hs
    exact ⟨fun d => ⟨rfl, rfl⟩, rfl⟩
  | release c =>
    obtain rfl := Except.ok.inj hs
    exact ⟨fun d => ⟨rfl, rfl⟩, rfl⟩
  | send c inLoop msg written =>
    refine call_does (.send inLoop msg written) h ?_ hs
    cases inLoop
    · rfl
    · simp only [Call.handed]
      split_ifs <;> rfl
  | shutDown c inLoop => exact call_does (.shutDown inLoop) h rfl hs
  | forceClose c inLoop => exact call_does (.forceClose inLoop) h rfl hs

/-! ### The run, and what is recorded of it -/

/-- What was done with a connection: what its calls did, and the messages that users sent and that
were handed over. -/
structure Journal where
  log : List Effect
  sent : List (Bool × Str)
  handed : List (Bool × Str)

/-- A call is entered. -/
def Journal.enter (j : Journal) (k : Connection) (call : Call) (log : List Effect) : Journal :=
  ⟨j.log ++ log, j.sent ++ call.sent k, j.handed ++ call.handed k⟩

/-- The server, with a journal for each connection. -/
structure Recorded (n : ℕ) where
  sys : Sys n
  journal : ConnectionPtr → Journal

/-- A step of the server. The log of a connection is that of its last call. -/
def record (received sent : Bool) (r : Recorded n) (a : Action n) : Except Stop (Recorded n) :=
  match step received sent r.sys a with
  | .error e => .error e
  | .ok s => .ok ⟨s, match r.sys.calling a with
      | none => r.journal
      | some (c, call) => Function.update r.journal c
          ((r.journal c).enter (r.sys.conns c) call (s.conns c).log)⟩

/-- The run is careful, and no write breaks a stream. -/
def Unbroken (r : Recorded n) (a : Action n) : Prop :=
  Careful r.sys a ∧ ∀ e ∈ r.sys.calling a, e.2.Kept (r.sys.conns e.1)

instance (r : Recorded n) (a : Action n) : Decidable (Unbroken r a) :=
  inferInstanceAs (Decidable (_ ∧ _))

def begin (port : ℤ) (name : Str) : Recorded n := ⟨start port name, fun _ => ⟨[], [], []⟩⟩

/-- **No message is lost, repeated or out of order**: what the socket has accepted and what is in
the output buffer are the messages that were handed over. Of those that users sent, the ones from
the loop were, and the others were or are in its queue, in their order. -/
structure Accounted (k : Connection) (waiting : List Str) (j : Journal) : Prop where
  stream : accepted j.log ++ k.outputBuffer_.readable = (j.handed.map Prod.snd).flatten
  messages : messages j.log = j.handed.map Prod.snd
  inLoop : marked true j.handed = marked true j.sent
  queued : marked false j.handed ++ waiting = marked false j.sent

/-- What is called finds the connection with an empty log and queue. -/
lemma called_same (v : View n) (call : Call) :
    (call.Kept v.conn → call.Kept v.called) ∧ call.sent v.called = call.sent v.conn ∧
      call.handed v.called = call.handed v.conn := by
  refine ⟨fun h => ?_, rfl, ?_⟩
  · cases call with
    | callBack cb => cases cb <;> exact h
    | task t => cases t <;> exact h
    | send inLoop => cases inLoop <;> exact h
    | connectEstablished | shutDown | forceClose => exact h
  · cases call with
    | task t => cases t <;> rfl
    | send inLoop => cases inLoop <;> rfl
    | connectEstablished | callBack | shutDown | forceClose => rfl

lemma Accounted.enter {waiting waiting' : List Str} {j : Journal} {v : View n} {call : Call}
    (h : Accounted v.conn waiting j) (hp : Passes v.called k' call)
    (hw : waiting ++ k'.pendingFunctions_.filterMap queuedMessage =
      marked false (call.handed v.called) ++ waiting') :
    Accounted k' waiting' (j.enter v.conn call k'.log) := by
  obtain ⟨-, hsent, hhanded⟩ := called_same v call
  obtain ⟨hstream, hmessages, hinLoop, hqueued⟩ := hp
  rw [hsent] at hinLoop hqueued
  rw [hhanded] at hstream hmessages hinLoop hw
  refine ⟨?_, ?_, ?_, ?_⟩ <;> dsimp only [Journal.enter]
  · calc accepted (j.log ++ k'.log) ++ k'.outputBuffer_.readable
      _ = accepted j.log ++ (accepted k'.log ++ k'.outputBuffer_.readable) := by simp
      _ = accepted j.log ++ v.conn.outputBuffer_.readable ++
            ((call.handed v.conn).map Prod.snd).flatten := by rw [hstream]; simp [View.called]
      _ = _ := by rw [h.stream]; simp
  · simp [h.messages, hmessages]
  · simp [h.inLoop, hinLoop]
  · calc marked false (j.handed ++ call.handed v.conn) ++ waiting'
      _ = marked false j.handed ++ (marked false (call.handed v.conn) ++ waiting') := by simp
      _ = marked false j.handed ++ waiting ++ k'.pendingFunctions_.filterMap queuedMessage := by
          rw [← hw, List.append_assoc]
      _ = marked false (j.sent ++ call.sent v.conn) := by rw [h.queued, hqueued]; simp

/-- The invariant of a run that is recorded. -/
structure Recorded.Inv (r : Recorded n) : Prop where
  sys : ServerRun.Inv (fun _ => False) r.sys
  made : ∀ c < r.sys.server.names.length,
    Accounted (r.sys.conns c) (r.sys.view c).waiting (r.journal c)
  unmade : ∀ c, r.sys.server.names.length ≤ c → r.journal c = ⟨[], [], []⟩

lemma begin_inv (port : ℤ) (name : Str) : (begin (n := n) port name).Inv :=
  ⟨start_inv port name, fun c hc => absurd hc (Nat.not_lt_zero c), fun _ _ => rfl⟩

lemma Accounted.rests {j : Journal} (h : Accounted (s.conns c) (s.view c).waiting j)
    (hr : Rests s s' c) : Accounted (s'.conns c) (s'.view c).waiting j := by
  rw [hr.conn, hr.waiting]
  exact h

variable {received sent : Bool}

/-- A new connection has an empty journal. -/
lemma newConnection_accounted {r : Recorded n} (h : r.Inv)
    (hnew : r.sys.server.nextName ∉ r.sys.server.names)
    (hs : r.sys.newConnection (.new received sent) = .ok s') : Recorded.Inv ⟨s', r.journal⟩ := by
  have hinv := (newConnection_spec h.sys received sent hnew).2 s' hs
  unfold Sys.newConnection at hs
  cases hloop : r.sys.pool.getLoop with
  | error e => rw [hloop] at hs; cases hs
  | ok lp =>
    obtain ⟨loop, pool⟩ := lp
    rw [hloop] at hs
    obtain rfl := Except.ok.inj hs
    obtain ⟨-, hnames, -⟩ := h.sys.table.insert hnew
    have hlen : (r.sys.addConnection (.new received sent) loop pool).server.names.length =
        r.sys.server.names.length + 1 := by
      change r.sys.server.newConnection.names.length = _
      rw [hnames, List.length_append, List.length_singleton]
    refine ⟨hinv, fun c hc => ?_, fun c hc => ?_⟩ <;> dsimp only at hc <;> rw [hlen] at hc
    on_goal 2 => exact h.unmade c (by omega)
    by_cases hcn : c = r.sys.server.names.length
    · have hview : (r.sys.addConnection (.new received sent) loop pool).view c = _ :=
        view_addConnection_self h.sys.table hnew hcn (h.sys.blank c fun hp => hp.made.ne hcn)
      have hconn := congrArg View.conn hview
      dsimp only [Sys.view] at hconn
      dsimp only
      rw [hview, hconn, h.unmade c hcn.ge]
      refine ⟨rfl, rfl, rfl, ?_⟩
      simp [View.waiting, Bound.message]
    · have hrests : Rests r.sys (r.sys.addConnection (.new received sent) loop pool) c :=
        .of_view (view_addConnection_of_ne h.sys.table hnew hcn)
      exact (h.made c (by omega)).rests hrests

/-- **One step keeps account.** -/
theorem record_inv {r r' : Recorded n} {a : Action n} (h : r.Inv) (hu : Unbroken r a)
    (hs : record received sent r a = .ok r') : r'.Inv := by
  have hspec := step_spec received sent h.sys a hu.1
  cases hstep : step received sent r.sys a with
  | error e => rw [record, hstep] at hs; cases hs
  | ok s =>
    rw [record, hstep] at hs
    obtain rfl := Except.ok.inj hs
    by_cases ha : a = .newConnection
    · subst ha
      exact newConnection_accounted h hu.1 hstep
    have hinv := hspec.2 s hstep
    have hdoes := step_does h.sys ha hstep
    cases hcall : r.sys.calling a with
    | none =>
      rw [hcall] at hdoes
      obtain ⟨hrests, hnames⟩ := hdoes
      dsimp only
      refine ⟨hinv, fun c hc => (h.made c (hnames ▸ hc)).rests (hrests c),
        fun c hc => h.unmade c (hnames ▸ hc)⟩
    | some e =>
      obtain ⟨c, call⟩ := e
      rw [hcall] at hdoes
      obtain ⟨hc, hran, hwaiting, hothers, hnames⟩ := hdoes
      have hkept := (called_same (r.sys.view c) call).1 (hu.2 (c, call) hcall)
      have hpass := call.passes (k := (r.sys.view c).called) (h.sys.good c hc).valid rfl rfl hkept
        hran
      dsimp only
      refine ⟨hinv, fun d hd => ?_, fun d hd => ?_⟩ <;> dsimp only at hd ⊢
      · by_cases hdc : d = c
        · subst hdc
          rw [Function.update_self]
          exact (h.made d hc).enter hpass hwaiting
        · rw [Function.update_of_ne hdc]
          exact (h.made d (hnames ▸ hd)).rests (hothers d hdc)
      · have hdc : d ≠ c := (lt_of_lt_of_le hc (hnames ▸ hd)).ne'
        rw [Function.update_of_ne hdc]
        exact h.unmade d (hnames ▸ hd)

variable {port : ℤ} {name : Str} {as : List (Action n)} {r : Recorded n}

/-- **What the users send gets to the sockets in order**: in every run of the server, with steps of
all threads in any order, each connection accounts for the messages it was given. -/
theorem sent_in_order
    (h : Asks (record received sent) Unbroken (begin port name) as)
    (hr : exec (record received sent) (begin port name) as = .ok r)
    (hc : c < r.sys.server.names.length) :
    Accounted (r.sys.conns c) (r.sys.view c).waiting (r.journal c) :=
  (exec_inv_of_each (fun _ _ _ => record_inv) (begin_inv port name) h.each hr).made c hc

/-- A message is queued, and another one is sent by the loop, of which the socket takes nothing at
first. -/
def sendTwice : List (Action 1) :=
  oneConnection ++ [.keep 0, .send 0 false [1, 2] none, .send 0 true [3] (some 0),
    .loop (.last 1) [(0, POLLOUT)] [] none, .loop (.last 1) [] [] none,
    .loop (.last 1) [] [] (some 1), .loop (.last 1) [] [] none, .loop (.last 1) [] [] none,
    .loop (.last 1) [] [] (some 1)]

/-- What the socket got is `[3, 1]`. -/
theorem sent_in_order_two : ∃ r : Recorded 1,
    exec (record true true) (begin 80 (str "s")) sendTwice = .ok r ∧
      accepted (r.journal 0).log = [3, 1] ∧ (r.journal 0).handed = [(true, [3]), (false, [1, 2])] ∧
      Accounted (r.sys.conns 0) (r.sys.view 0).waiting (r.journal 0) := by
  have hasks : Asks (record true true) Unbroken (begin 80 (str "s")) sendTwice := by
    decide +kernel
  have hrun : (exec (record true true) (begin 80 (str "s")) sendTwice).toOption.map
      (fun r => (r.sys.server.names.length, accepted (r.journal 0).log, (r.journal 0).handed)) =
        some (1, [3, 1], [(true, [3]), (false, [1, 2])]) := by decide +kernel
  obtain ⟨r, hr, hend⟩ := exec_of_map hrun
  simp only [Prod.mk.injEq] at hend
  obtain ⟨hlen, haccepted, hhanded⟩ := hend
  exact ⟨r, hr, haccepted, hhanded, sent_in_order hasks hr (by rw [hlen]; decide)⟩

end MuduoZ.ServerRun
