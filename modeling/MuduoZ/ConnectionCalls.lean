import MuduoZ.Connection

/-!
What any call makes of a connection, as far as its state, its channel and its queue go.

A call closes the connection, which it says in the log, or it keeps the state but for a step from
`Connected` to `Disconnecting`.
-/

namespace MuduoZ.Connection

/-- A call that begins with an empty log. -/
structure Outcome (c c' : Connection) : Prop where
  valid : c'.outputBuffer_.Valid
  agrees : c'.channel_.Agrees
  begun : c'.state_ ≠ .Connecting
  closed : c'.state_ = .Disconnected ↔ c.state_ = .Disconnected ∨ .connectCloseCallBack ∈ c'.log
  unwatched : .connectCloseCallBack ∈ c'.log → c'.channel_.event_ = Channel.NoneEvent

/-- The call does not watch a channel that was not watched. -/
def Quiet (c c' : Connection) : Prop :=
  c.channel_.event_ = Channel.NoneEvent → c'.channel_.event_ = Channel.NoneEvent

/-- A connection that was established, in front of a call. -/
structure Begun (c : Connection) : Prop where
  valid : c.outputBuffer_.Valid
  agrees : c.channel_.Agrees
  begun : c.state_ ≠ .Connecting
  log : .connectCloseCallBack ∉ c.log

variable {c c' : Connection}

/-- A call that keeps the state and does not close. -/
lemma Begun.keeps (h : Begun c) (hv : c'.outputBuffer_.Valid) (ha : c'.channel_.Agrees)
    (hst : c'.state_ = c.state_) (hlog : .connectCloseCallBack ∉ c'.log) : Outcome c c' :=
  ⟨hv, ha, hst ▸ h.begun, by simp [hst, hlog], fun hc => absurd hc hlog⟩

lemma Begun.refl (h : Begun c) : Outcome c c := h.keeps h.valid h.agrees rfl h.log

lemma Begun.emit (h : Begun c) {e : Effect} (he : e ≠ .connectCloseCallBack) :
    Outcome c (c.emit e) :=
  h.keeps h.valid h.agrees rfl (by simp [Connection.emit, h.log, he.symm])

lemma Begun.handleClose (h : Begun c) : Outcome c c.handleClose := by
  have hlog : Effect.connectCloseCallBack ∈ c.handleClose.log := by
    simp [Connection.handleClose, Connection.emit]
  exact ⟨h.valid, h.agrees.setEvent _, by simp [Connection.handleClose, Connection.emit],
    iff_of_true rfl (.inr hlog), fun _ => Channel.disableAll_event⟩

lemma Begun.sendInLoop (h : Begun c) {msg : Str} {written : Option ℕ}
    (hs : c.sendInLoop msg written = .ok c') :
    Outcome c c' ∧ c'.pendingFunctions_ = c.pendingFunctions_ := by
  obtain ⟨out, log, heq, hv, -, -, -, -, hno⟩ := sendInLoop_spec h.valid msg written
  obtain rfl := Except.ok.inj (heq.symm.trans hs)
  refine ⟨h.keeps hv ?_ rfl (by simp [h.log, hno]), rfl⟩
  unfold watching
  split_ifs
  · exact h.agrees.setEvent _
  · exact h.agrees

lemma Begun.shutDownInLoop (h : Begun c) : Outcome c c.shutDownInLoop := by
  unfold Connection.shutDownInLoop
  split_ifs
  · exact h.emit (by simp)
  · exact h.refl

lemma Begun.forceCloseInLoop (h : Begun c) : Outcome c c.forceCloseInLoop := by
  unfold Connection.forceCloseInLoop
  split_ifs
  · exact h.handleClose
  · exact h.refl

lemma handleClose_quiet : Quiet c c.handleClose := fun _ => Channel.disableAll_event

lemma forceCloseInLoop_quiet : Quiet c c.forceCloseInLoop := by
  unfold Connection.forceCloseInLoop
  split_ifs
  exacts [handleClose_quiet, id]

/-- A queued function that is run. -/
lemma Begun.runTask (h : Begun c) {written : Option ℕ} {t : Task}
    (hs : c.runTask written t = .ok c') :
    Outcome c c' ∧ c'.pendingFunctions_ = c.pendingFunctions_ ∧
      ((∀ msg, t ≠ .sendInLoop msg) → Quiet c c') ∧
      (t ≠ .forceCloseInLoop → .connectCloseCallBack ∉ c'.log) := by
  cases t with
  | sendInLoop msg =>
    obtain ⟨out, log, heq, -, -, -, -, -, hno⟩ := sendInLoop_spec h.valid msg written
    obtain ⟨hout, hpending⟩ := h.sendInLoop hs
    refine ⟨hout, hpending, fun hne => absurd rfl (hne msg), fun _ => ?_⟩
    obtain rfl := Except.ok.inj (heq.symm.trans hs)
    simp [h.log, hno]
  | shutDownInLoop =>
    obtain rfl := Except.ok.inj hs
    refine ⟨h.shutDownInLoop, ?_, fun _ => ?_, fun _ => ?_⟩ <;>
      unfold Connection.shutDownInLoop <;> split_ifs
    exacts [rfl, rfl, id, id, by simp [Connection.emit, h.log], h.log]
  | forceCloseInLoop =>
    obtain rfl := Except.ok.inj hs
    refine ⟨h.forceCloseInLoop, ?_, fun _ => forceCloseInLoop_quiet, fun hne => absurd rfl hne⟩
    unfold Connection.forceCloseInLoop
    split_ifs <;> rfl
  | messageSendCallBack =>
    obtain rfl := Except.ok.inj hs
    exact ⟨h.emit (by simp), rfl, fun _ => id, fun _ => by simp [Connection.emit, h.log]⟩

lemma Begun.handleWrite (h : Begun c) (written : Option ℕ) :
    Outcome c (c.handleWrite written) ∧ Quiet c (c.handleWrite written) ∧
      ∀ t ∈ (c.handleWrite written).pendingFunctions_,
        t ∈ c.pendingFunctions_ ∨ t = .messageSendCallBack := by
  obtain ⟨out, hv, -, hdrain, hpart⟩ := handleWrite_spec h.valid written
  by_cases hd : c.Drains written
  · rw [hdrain hd]
    refine ⟨h.keeps hv (h.agrees.setEvent _) rfl ?_, fun hq => ?_, fun t ht => ?_⟩
    · dsimp only
      split_ifs <;> simp [h.log]
    · simp [Channel.disableWriteEvent, Channel.setEvent, hq, Channel.NoneEvent]
    · rcases List.mem_append.mp ht with ht | ht
      · exact .inl ht
      · split_ifs at ht
        · exact .inr (List.mem_singleton.mp ht)
        · cases ht
  · rw [hpart hd]
    exact ⟨h.keeps hv h.agrees rfl (by simp [h.log]), id, fun t ht => .inl ht⟩

lemma Begun.handleRead (h : Begun c) {results : List ReadResult}
    (hs : c.handleRead results = .ok c') :
    Outcome c c' ∧ Quiet c c' ∧ c'.pendingFunctions_ = c.pendingFunctions_ := by
  rw [Connection.handleRead] at hs
  obtain ⟨⟨input, sum⟩, -, hs⟩ := bind_ok_iff.mp hs
  have hin : Begun { c with inputBuffer_ := input } := ⟨h.valid, h.agrees, h.begun, h.log⟩
  dsimp only at hs
  split_ifs at hs <;> obtain rfl := Except.ok.inj hs
  · obtain ⟨h1, h2, h3, h4, h5⟩ := hin.emit (e := .messageReceivedCallBack) (by simp)
    exact ⟨⟨h1, h2, h3, h4, h5⟩, id, rfl⟩
  · obtain ⟨h1, h2, h3, h4, h5⟩ := hin.handleClose
    exact ⟨⟨h1, h2, h3, h4, h5⟩, fun _ => Channel.disableAll_event, rfl⟩
  · obtain ⟨h1, h2, h3, h4, h5⟩ := hin.refl
    exact ⟨⟨h1, h2, h3, h4, h5⟩, id, rfl⟩

/-- A callback of the channel. -/
lemma Begun.runCallBack (h : Begun c) {results : List ReadResult} {written : Option ℕ}
    {cb : Channel.CallBack} (hs : c.runCallBack results written cb = .ok c') :
    Outcome c c' ∧ Quiet c c' ∧
      ∀ t ∈ c'.pendingFunctions_, t ∈ c.pendingFunctions_ ∨ t = .messageSendCallBack := by
  cases cb with
  | close =>
    obtain rfl := Except.ok.inj hs
    exact ⟨h.handleClose, handleClose_quiet, fun t ht => .inl ht⟩
  | error =>
    obtain rfl := Except.ok.inj hs
    exact ⟨h.refl, id, fun t ht => .inl ht⟩
  | read =>
    obtain ⟨hout, hq, hp⟩ := h.handleRead hs
    exact ⟨hout, hq, fun t ht => .inl (hp ▸ ht)⟩
  | write =>
    obtain rfl := Except.ok.inj hs
    exact h.handleWrite written

/-- A function that is run at once or queued. -/
lemma Begun.runInLoop (h : Begun c) {inLoop : Bool} {written : Option ℕ} {t : Task}
    (hs : c.runInLoop inLoop written t = .ok c') : Outcome c c' := by
  cases inLoop with
  | true => exact (h.runTask hs).1
  | false =>
    obtain rfl := Except.ok.inj hs
    exact h.keeps h.valid h.agrees rfl h.log

lemma Begun.send (h : Begun c) {inLoop : Bool} {msg : Str} {written : Option ℕ}
    (hs : c.send inLoop msg written = .ok c') : Outcome c c' := by
  unfold Connection.send at hs
  split_ifs at hs
  · exact h.runInLoop hs
  · obtain rfl := Except.ok.inj hs; exact h.refl

lemma Begun.shutDown (h : Begun c) {inLoop : Bool} (hs : c.shutDown inLoop = .ok c') :
    Outcome c c' := by
  unfold Connection.shutDown at hs
  split_ifs at hs with hst
  · have hdis : Begun { c with state_ := .Disconnecting } :=
      ⟨h.valid, h.agrees, by simp, h.log⟩
    obtain ⟨h1, h2, h3, h4, h5⟩ := hdis.runInLoop hs
    exact ⟨h1, h2, h3, by rw [h4]; simp [hst], h5⟩
  · obtain rfl := Except.ok.inj hs; exact h.refl

lemma Begun.forceClose (h : Begun c) {inLoop : Bool} (hs : c.forceClose inLoop = .ok c') :
    Outcome c c' := by
  unfold Connection.forceClose at hs
  split_ifs at hs
  · exact h.runInLoop hs
  · obtain rfl := Except.ok.inj hs; exact h.refl

/-- Before the connection is established, what the user asks of it is not done. -/
lemma call_connecting (hst : c.state_ = .Connecting) (inLoop : Bool) (msg : Str)
    (written : Option ℕ) : c.send inLoop msg written = .ok c ∧ c.shutDown inLoop = .ok c ∧
      c.forceClose inLoop = .ok c := by
  simp [send, shutDown, forceClose, hst]

end MuduoZ.Connection
