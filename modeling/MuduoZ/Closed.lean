import MuduoZ.Connection
import MuduoZ.Lib.Run

/-!
The life of a connection: channel events, calls from the loop thread and from others, and the
functions queued in the loop.

`handleClose` does not look at the state. It runs twice when two branches of one event, or a
later event, reach it, and a message that was queued before it can start the channel again.
-/

namespace MuduoZ.Closed

open Connection Runs

/-- The connection, and the callbacks of the event at hand that have not run yet. -/
structure Sys where
  conn : Connection
  handling : List Channel.CallBack

inductive Action
  | event (activeEvent : Events)
  | callBack (results : List ReadResult) (written : Option ℕ)
  | task (written : Option ℕ)
  | send (inLoop : Bool) (msg : Str) (written : Option ℕ)
  | shutDown (inLoop : Bool)
  | forceClose (inLoop : Bool)

/-- An event is taken, and a queued function run, when no event is being handled. -/
def step (s : Sys) : Action → Result Sys
  | .event activeEvent => match s.handling with
    | [] => .ok { s with handling := Channel.callBacks activeEvent }
    | _ :: _ => .ok s
  | .callBack results written => match s.handling with
    | [] => .ok s
    | cb :: cbs => do .ok ⟨← s.conn.runCallBack results written cb, cbs⟩
  | .task written => match s.handling, s.conn.pendingFunctions_ with
    | [], t :: ts => do
      .ok { s with conn := ← { s.conn with pendingFunctions_ := ts }.runTask written t }
    | _, _ => .ok s
  | .send inLoop msg written => do .ok { s with conn := ← s.conn.send inLoop msg written }
  | .shutDown inLoop => do .ok { s with conn := ← s.conn.shutDown inLoop }
  | .forceClose inLoop => do .ok { s with conn := ← s.conn.forceClose inLoop }

def start (received sent : Bool) : Sys := ⟨(Connection.new received sent).connectEstablished, []⟩

def IsClosed (s : Sys) : Prop := s.conn.state_ = .Disconnected

/-- How often the close was reported. -/
def closes (log : List Effect) : ℕ := log.count .connectCloseCallBack

/-- The close was reported once, and the descriptor is not watched. -/
structure Final (s : Sys) : Prop where
  state : s.conn.state_ = .Disconnected
  once : closes s.conn.log = 1
  event : s.conn.channel_.event_ = Channel.NoneEvent
  unregistered : s.conn.channel_.interest = none

/-- Reading gets nothing, which `handleRead` takes for the end of the stream. -/
def ReadsNothing (c : Connection) (results : List ReadResult) : Prop :=
  ∃ input n, c.inputBuffer_.readFd results = .ok (input, n) ∧ toInt n = 0

/-- On a closed connection the step does not run `handleClose`, and leaves no part of a queued
message in the output buffer. -/
def Harmless (s : Sys) : Action → Prop
  | .callBack results _ => IsClosed s → s.handling.head? ≠ some .close ∧
    (s.handling.head? = some .read → ¬ ReadsNothing s.conn results)
  | .task written => IsClosed s → s.handling = [] →
    ∀ msg, s.conn.pendingFunctions_.head? = some (.sendInLoop msg) → s.conn.kept msg written = []
  | _ => True

/-! ### The connection -/

/-- The close is reported when the connection is closed, and only then. -/
structure Inv (c : Connection) : Prop where
  valid : c.outputBuffer_.Valid
  agrees : c.channel_.Agrees
  opened : c.state_ ≠ .Disconnected → closes c.log = 0
  closed : c.state_ = .Disconnected → closes c.log = 1 ∧ c.channel_.event_ = Channel.NoneEvent

/-- What a harmless call makes of a connection. -/
structure Stays (c c' : Connection) : Prop where
  inv : Inv c'
  closed : c.state_ = .Disconnected → c'.state_ = .Disconnected

variable {c c' : Connection}

/-- A change that neither closes nor, on a closed connection, watches. -/
lemma Inv.of (h : Inv c) (hv : c'.outputBuffer_.Valid) (ha : c'.channel_.Agrees)
    (hst : c'.state_ = .Disconnected ↔ c.state_ = .Disconnected)
    (hlog : closes c'.log = closes c.log)
    (hev : c.state_ = .Disconnected → c'.channel_.event_ = c.channel_.event_) : Stays c c' :=
  ⟨⟨hv, ha, fun ho => hlog.trans (h.opened (mt hst.mpr ho)), fun hc =>
    ⟨hlog.trans (h.closed (hst.mp hc)).1, (hev (hst.mp hc)).trans (h.closed (hst.mp hc)).2⟩⟩,
    hst.mpr⟩

lemma Inv.stays (h : Inv c) : Stays c c := ⟨h, id⟩

lemma closes_append {log l : List Effect} (h : .connectCloseCallBack ∉ l) :
    closes (log ++ l) = closes log := by
  rw [closes, List.count_append, List.count_eq_zero.mpr h, Nat.add_zero, closes]

lemma closes_handleClose (c : Connection) : closes c.handleClose.log = closes c.log + 1 := by
  simp [closes, handleClose, emit]

lemma emit_stays (h : Inv c) {e : Effect} (he : e ≠ .connectCloseCallBack) :
    Stays c (c.emit e) :=
  h.of h.valid h.agrees Iff.rfl (closes_append (by simpa using he.symm)) fun _ => rfl

lemma handleClose_stays (h : Inv c) (hst : c.state_ ≠ .Disconnected) : Stays c c.handleClose := by
  refine ⟨⟨h.valid, h.agrees.setEvent _, fun hne => absurd rfl hne, fun _ => ⟨?_, ?_⟩⟩,
    fun _ => rfl⟩
  · rw [closes_handleClose, h.opened hst]
  · exact Channel.disableAll_event

lemma sendInLoop_stays (h : Inv c) {msg : Str} {written : Option ℕ}
    (hk : c.state_ = .Disconnected → c.kept msg written = [])
    (hs : c.sendInLoop msg written = .ok c') : Stays c c' := by
  obtain ⟨out, log, heq, hv, -, -, -, -, hno⟩ := sendInLoop_spec h.valid msg written
  obtain rfl := Except.ok.inj (heq.symm.trans hs)
  refine h.of hv ?_ Iff.rfl (closes_append hno) fun hst => ?_
  · unfold watching
    split_ifs
    · exact h.agrees.setEvent _
    · exact h.agrees
  · dsimp only
    rw [watching, if_neg (by simp [hk hst])]

lemma handleWrite_stays (h : Inv c) (written : Option ℕ) : Stays c (c.handleWrite written) := by
  obtain ⟨out, hv, -, hdrain, hpart⟩ := handleWrite_spec h.valid written
  by_cases hd : c.Drains written
  · rw [hdrain hd]
    refine h.of hv (h.agrees.setEvent _) Iff.rfl ?_ fun hst => ?_
    · dsimp only
      rw [List.append_assoc]
      exact closes_append (by split_ifs <;> simp)
    · -- a closed channel watches nothing, so there is nothing to disable
      simp [Channel.disableWriteEvent, Channel.setEvent, (h.closed hst).2, Channel.NoneEvent]
  · rw [hpart hd]
    exact h.of hv h.agrees Iff.rfl (closes_append (by simp)) fun _ => rfl

lemma handleRead_stays (h : Inv c) {results : List ReadResult}
    (hk : c.state_ = .Disconnected → ¬ ReadsNothing c results)
    (hs : c.handleRead results = .ok c') : Stays c c' := by
  rw [Connection.handleRead] at hs
  obtain ⟨⟨input, n⟩, hread, hs⟩ := bind_ok_iff.mp hs
  have hin : Inv { c with inputBuffer_ := input } := ⟨h.valid, h.agrees, h.opened, h.closed⟩
  dsimp only at hs
  split_ifs at hs with h1 h2 <;> obtain rfl := Except.ok.inj hs
  · have := emit_stays hin (e := .messageReceivedCallBack) (by simp)
    exact ⟨this.inv, this.closed⟩
  · have := handleClose_stays hin fun hst => hk hst ⟨input, n, hread, h2⟩
    exact ⟨this.inv, this.closed⟩
  · exact ⟨hin, id⟩

lemma runCallBack_stays (h : Inv c) {results : List ReadResult} {written : Option ℕ}
    {cb : Channel.CallBack}
    (hk : c.state_ = .Disconnected → cb ≠ .close ∧ (cb = .read → ¬ ReadsNothing c results))
    (hs : c.runCallBack results written cb = .ok c') : Stays c c' := by
  cases cb with
  | close =>
    obtain rfl := Except.ok.inj hs
    exact handleClose_stays h fun hst => (hk hst).1 rfl
  | error => obtain rfl := Except.ok.inj hs; exact h.stays
  | read => exact handleRead_stays h (fun hst => (hk hst).2 rfl) hs
  | write => obtain rfl := Except.ok.inj hs; exact handleWrite_stays h written

lemma runTask_stays (h : Inv c) {written : Option ℕ} {t : Task}
    (hk : c.state_ = .Disconnected → ∀ msg, t = .sendInLoop msg → c.kept msg written = [])
    (hs : c.runTask written t = .ok c') : Stays c c' := by
  cases t with
  | sendInLoop msg => exact sendInLoop_stays h (fun hst => hk hst msg rfl) hs
  | shutDownInLoop =>
    obtain rfl := Except.ok.inj hs
    unfold shutDownInLoop
    split_ifs
    · exact emit_stays h (by simp)
    · exact h.stays
  | forceCloseInLoop =>
    obtain rfl := Except.ok.inj hs
    unfold forceCloseInLoop
    split_ifs with hst
    · exact handleClose_stays h fun hd => by simp [hd] at hst
    · exact h.stays
  | messageSendCallBack =>
    obtain rfl := Except.ok.inj hs
    exact emit_stays h (by simp)

/-- A call that looks at the state first does nothing on a closed connection. -/
lemma runInLoop_stays (h : Inv c) (hst : c.state_ ≠ .Disconnected) {inLoop : Bool}
    {written : Option ℕ} {t : Task} (hs : c.runInLoop inLoop written t = .ok c') :
    Stays c c' := by
  cases inLoop with
  | true => exact runTask_stays h (fun hd => absurd hd hst) hs
  | false =>
    obtain rfl := Except.ok.inj hs
    exact ⟨⟨h.valid, h.agrees, h.opened, h.closed⟩, id⟩

lemma send_stays (h : Inv c) {inLoop : Bool} {msg : Str} {written : Option ℕ}
    (hs : c.send inLoop msg written = .ok c') : Stays c c' := by
  unfold send at hs
  split_ifs at hs with hst
  · exact runInLoop_stays h (by simp [hst]) hs
  · obtain rfl := Except.ok.inj hs; exact h.stays

lemma shutDown_stays (h : Inv c) {inLoop : Bool} (hs : c.shutDown inLoop = .ok c') :
    Stays c c' := by
  unfold shutDown at hs
  split_ifs at hs with hst
  · have hopen : Inv { c with state_ := .Disconnecting } :=
      ⟨h.valid, h.agrees, fun _ => h.opened (by simp [hst]), fun hd => by cases hd⟩
    exact ⟨(runInLoop_stays hopen (by simp) hs).inv, fun hd => by simp [hst] at hd⟩
  · obtain rfl := Except.ok.inj hs; exact h.stays

lemma forceClose_stays (h : Inv c) {inLoop : Bool} (hs : c.forceClose inLoop = .ok c') :
    Stays c c' := by
  unfold forceClose at hs
  split_ifs at hs with hst
  · exact runInLoop_stays h (fun hd => by simp [hd] at hst) hs
  · obtain rfl := Except.ok.inj hs; exact h.stays

/-! ### The run -/

lemma step_stays (s : Sys) (a : Action) (s' : Sys) (hs : Inv s.conn) (hk : Harmless s a)
    (h : step s a = .ok s') : Stays s.conn s'.conn := by
  cases a with
  | event activeEvent =>
    rcases hh : s.handling with _ | ⟨cb, cbs⟩ <;> simp only [step, hh] at h <;>
      obtain rfl := Except.ok.inj h <;> exact hs.stays
  | callBack results written =>
    rcases hh : s.handling with _ | ⟨cb, cbs⟩ <;> simp only [step, hh] at h
    · obtain rfl := Except.ok.inj h; exact hs.stays
    · obtain ⟨c', hc, h⟩ := bind_ok_iff.mp h
      obtain rfl := Except.ok.inj h
      refine runCallBack_stays hs (fun hst => ?_) hc
      simpa [hh] using hk hst
  | task written =>
    rcases hh : s.handling with _ | ⟨cb, cbs⟩
    · rcases hp : s.conn.pendingFunctions_ with _ | ⟨t, ts⟩ <;> simp only [step, hh, hp] at h
      · obtain rfl := Except.ok.inj h; exact hs.stays
      · obtain ⟨c', hc, h⟩ := bind_ok_iff.mp h
        obtain rfl := Except.ok.inj h
        have hst := runTask_stays (c := { s.conn with pendingFunctions_ := ts })
          ⟨hs.valid, hs.agrees, hs.opened, hs.closed⟩ (fun hst msg ht => ?_) hc
        · exact ⟨hst.inv, hst.closed⟩
        · exact hk hst hh msg (by rw [hp, ht]; rfl)
    · simp only [step, hh] at h
      obtain rfl := Except.ok.inj h; exact hs.stays
  | send inLoop msg written =>
    obtain ⟨c', hc, h⟩ := bind_ok_iff.mp h
    obtain rfl := Except.ok.inj h
    exact send_stays hs hc
  | shutDown inLoop =>
    obtain ⟨c', hc, h⟩ := bind_ok_iff.mp h
    obtain rfl := Except.ok.inj h
    exact shutDown_stays hs hc
  | forceClose inLoop =>
    obtain ⟨c', hc, h⟩ := bind_ok_iff.mp h
    obtain rfl := Except.ok.inj h
    exact forceClose_stays hs hc

lemma closed_twice {s : Sys} (h : Inv s.conn) (hst : IsClosed s) {c : Connection}
    (hc : closes c.log = closes s.conn.log) (cbs : List Channel.CallBack) :
    ¬ Final ⟨c.handleClose, cbs⟩ := by
  intro hf
  have h1 := hf.once
  rw [closes_handleClose, hc, (h.closed hst).1] at h1
  cases h1

lemma step_harmful (s : Sys) (a : Action) (s' : Sys) (hs : Inv s.conn) (hk : ¬ Harmless s a)
    (h : step s a = .ok s') : IsClosed s ∧ ¬ Final s' := by
  cases a with
  | callBack results written =>
    obtain ⟨hst, hk⟩ := Classical.not_imp.mp hk
    refine ⟨hst, ?_⟩
    rcases hh : s.handling with _ | ⟨cb, cbs⟩
    · simp [hh] at hk
    · simp only [step, hh] at h
      obtain ⟨c', hc, h⟩ := bind_ok_iff.mp h
      obtain rfl := Except.ok.inj h
      have hcb : cb = .close ∨ cb = .read ∧ ReadsNothing s.conn results := by
        by_contra hno
        obtain ⟨h1, h2⟩ := not_or.mp hno
        exact hk ⟨by simpa [hh] using h1, by simpa [hh] using h2⟩
      rcases hcb with rfl | ⟨rfl, input, n, hread, hn⟩
      · obtain rfl := Except.ok.inj hc
        exact closed_twice hs hst rfl cbs
      · have heq : s.conn.handleRead results =
            .ok { s.conn with inputBuffer_ := input }.handleClose := by
          simp [Connection.handleRead, hread, hn]
        obtain rfl := Except.ok.inj (heq.symm.trans hc)
        exact closed_twice (c := { s.conn with inputBuffer_ := input }) hs hst rfl cbs
  | task written =>
    simp only [Harmless, Classical.not_imp, not_forall] at hk
    obtain ⟨hst, hh, msg, hp, hkept⟩ := hk
    refine ⟨hst, fun hf => ?_⟩
    obtain ⟨ts, hp⟩ := List.head?_eq_some_iff.mp hp
    simp only [step, hh, hp] at h
    obtain ⟨c', hc, h⟩ := bind_ok_iff.mp h
    obtain rfl := Except.ok.inj h
    obtain ⟨out, log, heq, -⟩ := sendInLoop_spec (c := { s.conn with pendingFunctions_ := ts })
      hs.valid msg written
    obtain rfl := Except.ok.inj (heq.symm.trans hc)
    -- the channel asks for the write event again
    have hwe : (s.conn.watching (s.conn.kept msg written)).isWriteEvent = true :=
      (isWriteEvent_watching _).mpr (.inr hkept)
    have hev : (s.conn.watching (s.conn.kept msg written)).event_ = Channel.NoneEvent := hf.event
    rw [Channel.isWriteEvent, hev] at hwe
    exact absurd hwe (by decide)
  | event | send | shutDown | forceClose => exact absurd trivial hk

lemma start_inv (received sent : Bool) : Inv (start received sent).conn :=
  ⟨Buffer.new_valid 1024, Channel.enableReadEvent_new, fun _ => rfl, fun h => by cases h⟩

/-- **Closed is final along a run exactly when no step on a closed connection runs `handleClose`
or leaves bytes in the output buffer.** -/
theorem closed_final_iff (received sent : Bool) (as : List Action) :
    After step IsClosed Final (start received sent) as ↔
      Each step Harmless (start received sent) as := by
  refine after_iff_each (I := fun s => Inv s.conn) (fun s a t hI ha ht => ?_) (fun s hI hst => ?_)
    step_harmful (start_inv received sent)
  · have hstays := step_stays s a t hI ha ht
    exact ⟨hstays.inv, hstays.closed⟩
  · obtain ⟨h1, h2⟩ := hI.closed hst
    exact ⟨hst, h1, h2, hI.agrees.interest_none h2⟩

/-- A message is queued, the peer closes, and the write of the message then takes a part of it: the
descriptor is watched again. -/
theorem queued_message_reopens :
    ¬ After step IsClosed Final (start true false)
      [.send false [1, 2] none, .event POLLIN, .callBack [.eof] none, .task (some 1)] := by
  intro h
  have hinv := start_inv true false
  obtain ⟨c, hc⟩ : ∃ c, c = (start true false).conn.queueInLoop (.sendInLoop [1, 2]) :=
    ⟨_, rfl⟩
  have hclosed : exec step (start true false)
      [.send false [1, 2] none, .event POLLIN, .callBack [.eof] none] =
        .ok ⟨c.handleClose, []⟩ := by
    rw [hc]; rfl
  have hopen : Inv c := by
    rw [hc]; exact ⟨hinv.valid, hinv.agrees, hinv.opened, hinv.closed⟩
  have hi : Inv c.handleClose := (handleClose_stays hopen (by rw [hc]; decide)).inv
  obtain ⟨s, hs⟩ : ∃ s, step ⟨c.handleClose, []⟩ (.task (some 1)) = .ok s := by
    obtain ⟨c', hc', -⟩ := runTask_total
      (c := { c.handleClose with pendingFunctions_ := [] }) hi.valid (some 1) (.sendInLoop [1, 2])
    have hp : c.handleClose.pendingFunctions_ = [.sendInLoop [1, 2]] := by rw [hc]; rfl
    exact ⟨⟨c', []⟩, by simp [step, hp, hc']⟩
  have halong := h _ [.task (some 1)] _ rfl hclosed rfl
  have hfinal := along_nil.mp ((along_cons.mp halong).2 s hs)
  refine (step_harmful _ _ s hi ?_ hs).2 hfinal
  intro hk
  have hkept := hk rfl rfl [1, 2] (by rw [hc]; rfl)
  rw [kept] at hkept
  split_ifs at hkept
  cases hkept

end MuduoZ.Closed
