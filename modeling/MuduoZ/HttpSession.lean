import MuduoZ.OutputWatch
import MuduoZ.ReadEvent
import MuduoZ.WholeResponses

/-!
The whole life of a connection of the HTTP server: what it is told of by `poll`, in any order, and
what the client gets.

All calls of the connection are made in its own loop. A connection that is to be closed is shut
down by the call that sends its last response, so the half-close comes behind all responses. Behind
a request that is refused comes a half-close too, but of the refusal only eight bytes are sent.
-/

namespace MuduoZ.HttpSession

open Connection HttpRequest HttpServer HttpLines ParseMessage WholeResponses Runs
open ReadEvent (Ending Safe handler handleRead_eq)
open ReadBlocks (Delivered)
open KeepAlive (start)

/-- A callback of the channel, with what the system calls return in it. -/
inductive Event
  | read (results : List ReadResult) (written : Option ℕ)
  | write (written : Option ℕ)
  | close

/-- `handleRead` has called back. -/
def called (c c' : Connection) : Bool :=
  (c'.log.drop c.log.length).contains .messageReceivedCallBack

def step (s : Session) : Event → Result Session
  | .read results written => do
    let conn ← s.conn.handleRead results
    let s' := { s with conn := conn }
    if called s.conn conn then onMessage s' written else .ok s'
  | .write written => .ok { s with conn := s.conn.handleWrite written }
  | .close => .ok { s with conn := s.conn.handleClose }

/-- The blocks that are read stay inside the vector, see `ReadEvent`; and of what they leave
`parseMessage` goes through, with lines that an `int` holds the lengths of. -/
def Proper (s : Session) : Event → Prop
  | .read results _ => ∃ (ds : List Str) (e : Ending), results = ds.map .data ++ [e.result] ∧
    (∀ d ∈ ds, Delivered s.conn.inputBuffer_.getWriteableLen d.length ∧ 0 < toInt d.length) ∧
    Safe s.conn.inputBuffer_ (ds.map List.length) ∧
    ∀ input receiveSum, s.conn.inputBuffer_.readFd results = .ok (input, receiveSum) →
      0 < toInt receiveSum → input.writeIndex_ ≤ input.buffer_.length ∧
        Fits s.context_ input.readable ∧ Goes s.context_ input
  | .write _ | .close => True

/-- Nothing is read within a request while the connection is connected. -/
def Outside (s : Session) : Event → Prop
  | .read _ _ => s.conn.state_ = .Connected → s.context_.state_ = .ExpectRequestLine
  | .write _ | .close => True

/-- So far each response keeps the connection. -/
def Talking (msgs : List Str) : Prop := ∃ n, msgs = List.replicate n (response true).text

/-- The last response shuts the connection down. -/
def Goodbye (msgs : List Str) : Prop :=
  ∃ n, msgs = List.replicate n (response true).text ++ [(response false).text]

/-- What is sent last is no response but the beginning of the refusal. -/
def Refused (msgs : List Str) : Prop :=
  ∃ n, msgs = List.replicate n (response true).text ++ [refusal]

/-- The write of this event does not break the stream. -/
def Kept (s : Session) : Event → Prop
  | .read _ written => s.conn.direct = true → written ≠ none
  | .write written => (s.conn.gone written).length ≤ INT_MAX
  | .close => True

variable {c c' : Connection} {s s' : Session} {e : Event} {written : Option ℕ}

/-! ### What a step does with the connection -/

/-- The side of the connection that sends is untouched. -/
structure Quiet (c c' : Connection) : Prop where
  state_ : c'.state_ = c.state_
  channel_ : c'.channel_ = c.channel_
  outputBuffer_ : c'.outputBuffer_ = c.outputBuffer_
  log : ∃ l, c'.log = c.log ++ l ∧ ∀ e ∈ l, e = .messageReceivedCallBack

/-- How `onMessage` replies; it refuses only within a request. -/
inductive Reply (req : HttpRequest) (written : Option ℕ) (c c' : Connection) : Prop
  | silent (h : c' = c)
  | answer (hst : c.state_ = .Connected)
    (hsend : c.send true (response true).text written = .ok c')
  | goodbye (c₁ : Connection) (hst : c.state_ = .Connected)
    (hsend : c.send true (response false).text written = .ok c₁)
    (hshut : c₁.shutDown true = .ok c')
  | refuse (c₁ : Connection) (hst : c.state_ = .Connected)
    (hwithin : req.state_ ≠ .ExpectRequestLine) (hsend : c.send true refusal written = .ok c₁)
    (hshut : c₁.shutDown true = .ok c')

/-- What an event can be, for the connection. -/
inductive Move (req : HttpRequest) (c c' : Connection) : Event → Prop
  | read {results : List ReadResult} {written : Option ℕ} (c₀ : Connection) (h : Quiet c c₀)
    (hreply : Reply req written c₀ c') : Move req c c' (.read results written)
  | closed {results : List ReadResult} {written : Option ℕ} (c₀ : Connection) (h : Quiet c c₀)
    (hclose : c' = c₀.handleClose) : Move req c c' (.read results written)
  | write {written : Option ℕ} (h : c' = c.handleWrite written) : Move req c c' (.write written)
  | close (h : c' = c.handleClose) : Move req c c' .close

lemma Quiet.trans {c'' : Connection} (h : Quiet c c') (h' : Quiet c' c'') : Quiet c c'' := by
  obtain ⟨l, hl, hm⟩ := h.log
  obtain ⟨l', hl', hm'⟩ := h'.log
  refine ⟨h'.state_.trans h.state_, h'.channel_.trans h.channel_,
    h'.outputBuffer_.trans h.outputBuffer_, l ++ l', by rw [hl', hl, List.append_assoc], ?_⟩
  exact fun e he => (List.mem_append.mp he).elim (hm e) (hm' e)

lemma quiet_input (c : Connection) (input : Buffer) : Quiet c { c with inputBuffer_ := input } :=
  ⟨rfl, rfl, rfl, [], (List.append_nil _).symm, fun _ he => by cases he⟩

/-- An answer on a connection that is not connected changes nothing. -/
lemma answer_silent (hst : c.state_ ≠ .Connected) {req : HttpRequest}
    (h : answer c req written = .ok s') : s'.conn = c := by
  have hsend : ∀ msg, c.send true msg written = .ok c := fun msg => if_neg hst
  have hshut : c.shutDown true = .ok c := if_neg hst
  rw [answer_eq] at h
  obtain ⟨c₁, hc₁, h⟩ := bind_ok_iff.mp h
  obtain rfl := Except.ok.inj ((hsend _).symm.trans hc₁)
  obtain ⟨c₂, hc₂, h⟩ := bind_ok_iff.mp h
  rw [hangUp, hshut, ite_self] at hc₂
  obtain rfl := Except.ok.inj hc₂
  obtain rfl := Except.ok.inj h
  rfl

lemma answer_reply {req req₀ : HttpRequest} (h : answer c req written = .ok s') :
    Reply req₀ written c s'.conn := by
  by_cases hst : c.state_ = .Connected
  · rw [answer_eq] at h
    obtain ⟨c₁, hsend, h⟩ := bind_ok_iff.mp h
    obtain ⟨c₂, hhang, h⟩ := bind_ok_iff.mp h
    obtain rfl := Except.ok.inj h
    cases hk : keeps req with
    | true =>
      rw [hk] at hsend hhang
      obtain rfl := Except.ok.inj hhang
      exact .answer hst hsend
    | false =>
      rw [hk] at hsend hhang
      exact .goodbye c₁ hst hsend hhang
  · exact .silent (answer_silent hst h)

/-- The end of `onMessage`. -/
lemma end_reply {req req₀ : HttpRequest}
    (h : (if req.state_ = .GotAll then answer c req written else .ok ⟨c, req⟩) = .ok s') :
    Reply req₀ written c s'.conn := by
  split at h
  · exact answer_reply h
  · obtain rfl := Except.ok.inj h
    exact .silent rfl

lemma onMessage_reply (hv : s.conn.outputBuffer_.Valid) (h : onMessage s written = .ok s') :
    ∃ c, Quiet s.conn c ∧ Reply s.context_ written c s'.conn := by
  obtain ⟨⟨ok, req, input⟩, hp, -⟩ := bind_ok_iff.mp h
  refine ⟨_, quiet_input s.conn input, ?_⟩
  generalize hc : { s.conn with inputBuffer_ := input } = c
  cases ok with
  | true =>
    rw [onMessage_parsed written hp, hc] at h
    exact end_reply h
  | false =>
    rw [onMessage_refused written hp, hc] at h
    obtain ⟨c₁, hrefuse, h⟩ := bind_ok_iff.mp h
    by_cases hst : c.state_ = .Connected
    · obtain ⟨c₂, hsend, hshut⟩ := bind_ok_iff.mp hrefuse
      obtain ⟨c₃, hc₃, -, hst₃⟩ := refuse_sends (hc ▸ hv) hst written
      obtain rfl := Except.ok.inj (hc₃.symm.trans hrefuse)
      rw [sendText, refusal_eq] at hsend
      have hwithin : s.context_.state_ ≠ .ExpectRequestLine := fun hline =>
        absurd ((HttpChunks.parseMessage_flag hp).mpr hline) (by decide)
      -- the connection is shut down: a request that follows is not answered
      have hend : Reply s.context_ written c₃ s'.conn := end_reply h
      cases hend with
      | silent he => exact .refuse c₂ hst hwithin hsend (he ▸ hshut)
      | answer hst' => exact absurd hst' hst₃
      | goodbye _ hst' => exact absurd hst' hst₃
      | refuse _ hst' => exact absurd hst' hst₃
    · obtain rfl := Except.ok.inj ((refuse_silent hst written).symm.trans hrefuse)
      exact end_reply h

/-- The handler of the number of bytes, and `onMessage` if it is that for messages. -/
lemma step_read (s : Session) (results : List ReadResult) (written : Option ℕ) :
    step s (.read results written) = (do
      let (input, receiveSum) ← s.conn.inputBuffer_.readFd results
      let s' := { s with
        conn := (handler s.conn receiveSum).run { s.conn with inputBuffer_ := input } }
      if handler s.conn receiveSum = .message then onMessage s' written else .ok s') := by
  rw [step, handleRead_eq, bind_assoc]
  refine bind_congr fun ⟨input, receiveSum⟩ => ?_
  rw [ok_bind]
  dsimp only
  have hcalled : called s.conn ((handler s.conn receiveSum).run
      { s.conn with inputBuffer_ := input }) = true ↔ handler s.conn receiveSum = .message := by
    cases handler s.conn receiveSum <;>
      simp [called, ReadEvent.Handler.run, emit, handleClose, handleError]
  exact if_congr hcalled rfl rfl

/-- **All that an event does** with the connection. -/
lemma step_move (hv : s.conn.outputBuffer_.Valid) (h : step s e = .ok s') :
    Move s.context_ s.conn s'.conn e := by
  cases e with
  | write written =>
    obtain rfl := Except.ok.inj h
    exact .write rfl
  | close =>
    obtain rfl := Except.ok.inj h
    exact .close rfl
  | read results written =>
    rw [step_read] at h
    obtain ⟨⟨input, receiveSum⟩, -, h⟩ := bind_ok_iff.mp h
    dsimp only at h
    have hquiet := quiet_input s.conn input
    generalize { s.conn with inputBuffer_ := input } = k at h hquiet
    cases hh : handler s.conn receiveSum with
    | message =>
      rw [hh, if_pos rfl] at h
      have hemit : Quiet k (k.emit .messageReceivedCallBack) :=
        ⟨rfl, rfl, rfl, _, rfl, fun e he => List.mem_singleton.mp he⟩
      have hv' : k.outputBuffer_.Valid := hquiet.outputBuffer_ ▸ hv
      obtain ⟨c, hc, hreply⟩ := onMessage_reply hv' h
      exact .read c ((hquiet.trans hemit).trans hc) hreply
    | close =>
      rw [hh] at h
      obtain rfl := Except.ok.inj h
      exact .closed k hquiet rfl
    | error =>
      rw [hh] at h
      obtain rfl := Except.ok.inj h
      exact .read k hquiet (.silent rfl)

/-- A proper event goes through. -/
lemma step_ok (hv : s.conn.outputBuffer_.Valid) (he : Proper s e) : ∃ s', step s e = .ok s' := by
  cases e with
  | write written => exact ⟨_, rfl⟩
  | close => exact ⟨_, rfl⟩
  | read results written =>
    obtain ⟨ds, e, rfl, hd, hsafe, hgoes⟩ := he
    rcases ReadEvent.readLoop_inside s.conn.inputBuffer_ 0 hd e with
      ⟨-, input, receiveSum, hread, -⟩ | ⟨hout, -⟩
    · rw [step_read, show s.conn.inputBuffer_.readFd _ = _ from hread, ok_bind]
      dsimp only
      by_cases hh : handler s.conn receiveSum = .message
      · obtain ⟨hw, hfit, hgo⟩ :=
          hgoes input receiveSum hread (ReadEvent.handler_message.mp hh).1
        obtain ⟨ok, req, input', hp⟩ := (goes_iff hw hfit).mpr hgo
        rw [if_pos hh, hh]
        obtain ⟨c, hc⟩ : ∃ c : Connection, c =
          ({ s.conn with inputBuffer_ := input }).emit .messageReceivedCallBack := ⟨_, rfl⟩
        obtain ⟨s', hs', -⟩ := onMessage_total (s := ⟨c, s.context_⟩) written (by rwa [hc])
          (by rw [hc]; exact hp)
        exact ⟨s', by rw [hc] at hs'; exact hs'⟩
      · rw [if_neg hh]
        exact ⟨_, rfl⟩
    · exact absurd hsafe hout

/-! ### Behind a half-close -/

/-- Behind a half-close nothing is sent, and nothing waits to be. -/
def FinLast (c : Connection) : Prop :=
  ∀ pre post, c.log = pre ++ .shutdownWrite :: post → c.state_ ≠ .Connected ∧
    c.outputBuffer_.readable = [] ∧ accepted post = [] ∧ messages post = []

lemma split_of_append {l l' pre post : List Effect} {e : Effect}
    (h : l ++ l' = pre ++ e :: post) (hno : e ∉ l') :
    ∃ post', l = pre ++ e :: post' ∧ post = post' ++ l' := by
  rcases List.append_eq_append_iff.mp h with ⟨as, -, rfl⟩ | ⟨bs, rfl, hbs⟩
  · simp at hno
  · cases bs with
    | nil =>
      rw [List.nil_append] at hbs
      rw [← hbs] at hno
      simp at hno
    | cons b bs =>
      obtain ⟨rfl, rfl⟩ := List.cons.inj hbs
      exact ⟨bs, rfl, rfl⟩

/-- What is done behind a half-close sends nothing. -/
lemma FinLast.grow {l : List Effect} (h : FinLast c) (hlog : c'.log = c.log ++ l)
    (hno : .shutdownWrite ∉ l)
    (hl : c.state_ ≠ .Connected → c.outputBuffer_.readable = [] → c'.state_ ≠ .Connected ∧
      c'.outputBuffer_.readable = [] ∧ accepted l = [] ∧ messages l = []) : FinLast c' := by
  intro pre post hsplit
  rw [hlog] at hsplit
  obtain ⟨post', hc, rfl⟩ := split_of_append hsplit hno
  obtain ⟨hst, hnil, hacc, hmsg⟩ := h pre post' hc
  obtain ⟨hst', hnil', hacc', hmsg'⟩ := hl hst hnil
  exact ⟨hst', hnil', by rw [accepted_append, hacc, hacc', List.append_nil],
    by rw [messages_append, hmsg, hmsg', List.append_nil]⟩

/-- The first half-close, when nothing waits. -/
lemma finLast_of_fin {l : List Effect} (hlog : c.log = l ++ [.shutdownWrite])
    (hno : .shutdownWrite ∉ l) (hst : c.state_ ≠ .Connected)
    (hnil : c.outputBuffer_.readable = []) : FinLast c := by
  intro pre post hsplit
  rw [hlog] at hsplit
  rcases List.eq_nil_or_concat post with rfl | ⟨post', e, rfl⟩
  · exact ⟨hst, hnil, rfl, rfl⟩
  · have h : l ++ [.shutdownWrite] = (pre ++ .shutdownWrite :: post') ++ [e] := by
      simpa using hsplit
    obtain ⟨rfl, -⟩ := List.append_inj' h rfl
    simp at hno

lemma FinLast.notMem (h : FinLast c) (hst : c.state_ = .Connected) : .shutdownWrite ∉ c.log := by
  intro hmem
  obtain ⟨pre, post, hsplit⟩ := List.append_of_mem hmem
  exact (h pre post hsplit).1 hst

/-! ### What an event keeps -/

/-- The connection is watched while bytes wait, its responses are in their order, and it is
half-closed behind the last one. -/
structure Inv (c : Connection) : Prop where
  watch : OutputWatch.Inv c
  fin : FinLast c
  talk : c.state_ = .Connected → Talking (messages c.log)
  whole : Talking (messages c.log) ∨ Goodbye (messages c.log) ∨ Refused (messages c.log)
  ended : c.state_ = .Disconnecting ∨ .shutdownWrite ∈ c.log →
    Goodbye (messages c.log) ∨ Refused (messages c.log)

/-- The effects it adds send nothing, and take nothing to send. -/
lemma Quiet.added (h : Quiet c c') : ∃ l, c'.log = c.log ++ l ∧ .shutdownWrite ∉ l ∧
    accepted l = [] ∧ Connection.messages l = [] := by
  obtain ⟨-, -, -, l, hlog, hl⟩ := h
  refine ⟨l, hlog, fun hm => (by cases hl _ hm), List.flatMap_eq_nil_iff.mpr fun e he => ?_,
    List.filterMap_eq_nil_iff.mpr fun e he => ?_⟩
  · rw [hl e he]; rfl
  · rw [hl e he]; rfl

lemma Quiet.messages (h : Quiet c c') : Connection.messages c'.log = Connection.messages c.log := by
  obtain ⟨l, hlog, -, -, hmsg⟩ := h.added
  rw [hlog, messages_append, hmsg, List.append_nil]

lemma Quiet.inv (h : Quiet c c') (hc : Inv c) : Inv c' := by
  obtain ⟨l, hlog, hno, hacc, hmsg⟩ := h.added
  have hmsgs := h.messages
  obtain ⟨hst, hch, hout, -⟩ := h
  refine ⟨⟨by rw [hout]; exact hc.watch.valid, fun ho => ?_⟩, ?_, ?_, ?_, ?_⟩
  · rw [hch, hout]
    exact hc.watch.watched (hst ▸ ho)
  · exact hc.fin.grow hlog hno fun h1 h2 => ⟨by rwa [hst], by rwa [hout], hacc, hmsg⟩
  · rw [hst, hmsgs]; exact hc.talk
  · rw [hmsgs]; exact hc.whole
  · rw [hmsgs, hst, hlog, List.mem_append, or_iff_left hno]
    exact hc.ended

/-- A connection that is connected has a message handed over. -/
lemma send_eq (hc : OutputWatch.Inv c) (hst : c.state_ = .Connected) {msg : Str}
    (h : c.send true msg written = .ok c') : OutputWatch.Inv c' ∧ c'.state_ = .Connected ∧
      ∃ l, c'.log = c.log ++ l ∧ messages l = [msg] ∧ .shutdownWrite ∉ l := by
  obtain ⟨c₁, h₁, hkeeps⟩ := OutputWatch.send_keeps hc msg written
  obtain rfl := Except.ok.inj (h₁.symm.trans h)
  refine ⟨hkeeps.inv, ?_⟩
  obtain ⟨out, log, hs, -, -, hmsg, -, hno, -⟩ := sendInLoop_spec hc.valid msg written
  have hs' : c.send true msg written = c.sendInLoop msg written := if_pos hst
  obtain rfl := Except.ok.inj ((hs'.trans hs).symm.trans h)
  exact ⟨hst, log, rfl, hmsg, hno⟩

lemma answer_inv (hc : Inv c) (hst : c.state_ = .Connected)
    (h : c.send true (response true).text written = .ok c') : Inv c' := by
  obtain ⟨hw, hst', l, hlog, hmsg, hno⟩ := send_eq hc.watch hst h
  obtain ⟨n, hn⟩ := hc.talk hst
  have htalk : Talking (messages c'.log) :=
    ⟨n + 1, by rw [hlog, messages_append, hmsg, hn, List.replicate_succ']⟩
  have hnone : .shutdownWrite ∉ c'.log := by
    rw [hlog, List.mem_append, or_iff_left hno]
    exact hc.fin.notMem hst
  refine ⟨hw, hc.fin.grow hlog hno fun h1 => absurd hst h1, fun _ => htalk, .inl htalk, ?_⟩
  rintro (hd | hm)
  · rw [hst'] at hd; cases hd
  · exact absurd hm hnone

/-- The connection is shut down behind the last message. -/
lemma hangUp_inv {c₁ : Connection} {last : Str} (hc : Inv c) (hst : c.state_ = .Connected)
    (hsend : c.send true last written = .ok c₁) (hshut : c₁.shutDown true = .ok c')
    (hbye : Goodbye (messages c.log ++ [last]) ∨ Refused (messages c.log ++ [last])) :
    Inv c' := by
  obtain ⟨hw, hst₁, l, hlog, hmsg, hno⟩ := send_eq hc.watch hst hsend
  rw [← hmsg, ← messages_append, ← hlog] at hbye
  have hnone : .shutdownWrite ∉ c₁.log := by
    rw [hlog, List.mem_append, or_iff_left hno]
    exact hc.fin.notMem hst
  obtain ⟨c₂, h₂, hkeeps⟩ := OutputWatch.shutDown_keeps hw
  obtain rfl := Except.ok.inj (h₂.symm.trans hshut)
  have hfin : OutputWatch.halfCloses c₁.log < OutputWatch.halfCloses c₂.log →
      c₂.outputBuffer_.readable = [] := fun hlt => by
    obtain ⟨found, rfl, -, hnil⟩ := hkeeps.fin hlt
    rwa [shutDownInLoop_outputBuffer]
  rw [shutDown, if_pos hst₁] at hshut
  have hcases : c₂ = { c₁ with state_ := .Disconnecting } ∨
      c₂ = { c₁ with state_ := .Disconnecting }.emit .shutdownWrite := by
    have := Except.ok.inj hshut
    unfold shutDownInLoop at this
    split_ifs at this
    exacts [.inr this.symm, .inl this.symm]
  rcases hcases with rfl | rfl
  · refine ⟨hkeeps.inv, fun pre post hsplit => ?_, (by cases ·), .inr hbye, fun _ => hbye⟩
    exact absurd (by rw [hsplit]; simp) hnone
  · have hmsgs : messages ({ c₁ with state_ := .Disconnecting }.emit .shutdownWrite).log =
        messages c₁.log := by simp [emit]
    refine ⟨hkeeps.inv, finLast_of_fin rfl hnone (by simp [emit]) (hfin ?_), (by cases ·),
      .inr (hmsgs ▸ hbye), fun _ => hmsgs ▸ hbye⟩
    simp [OutputWatch.halfCloses, emit]

lemma close_inv (hc : Inv c) : Inv c.handleClose := by
  have hmsgs : messages c.handleClose.log = messages c.log := by simp [handleClose, emit]
  refine ⟨⟨hc.watch.valid, by rintro (ho | ho) <;> cases ho⟩, ?_, (by cases ·),
    hmsgs ▸ hc.whole, ?_⟩
  · exact hc.fin.grow (l := [.connectCloseCallBack]) rfl (by simp)
      fun _ hnil => ⟨by simp [handleClose, emit], hnil, rfl, rfl⟩
  · rintro (hd | hm)
    · cases hd
    · rw [hmsgs]
      exact hc.ended (.inr (by simpa [handleClose, emit] using hm))

/-- Draining hands over no message. -/
lemma handleWrite_messages (hv : c.outputBuffer_.Valid) (written : Option ℕ) :
    messages (c.handleWrite written).log = messages c.log := by
  obtain ⟨out, -, -, hdrain, hpart⟩ := handleWrite_spec hv written
  by_cases hd : c.Drains written
  · rw [hdrain hd]
    dsimp only
    split_ifs <;> simp
  · rw [hpart hd]
    simp

lemma write_inv (hc : Inv c) (written : Option ℕ) : Inv (c.handleWrite written) := by
  have hkeeps := OutputWatch.handleWrite_keeps hc.watch written
  obtain ⟨out, -, hr, hdrain, hpart⟩ := handleWrite_spec hc.watch.valid written
  obtain ⟨hw, -⟩ := hkeeps
  by_cases hfin : c.Drains written ∧ c.state_ = .Disconnecting
  · -- the last byte is written, and the connection is half-closed
    obtain ⟨hd, hst⟩ := hfin
    have hnone : .shutdownWrite ∉ c.log := fun hm => by
      obtain ⟨pre, post, hsplit⟩ := List.append_of_mem hm
      exact hd.1 (hc.fin pre post hsplit).2.1
    have hnil : out.readable = [] := hr.trans (List.drop_eq_nil_of_le hd.2.ge)
    have hbye := hc.ended (.inl hst)
    rw [hdrain hd] at hw ⊢
    refine ⟨hw, finLast_of_fin (l := c.log ++ [.wrote (c.gone written)]) ?_ ?_ ?_ hnil, ?_, ?_, ?_⟩
    · dsimp only; rw [if_pos hst]
    · simpa using hnone
    · dsimp only; rw [hst]; decide
    · dsimp only; rw [hst]; exact fun h => by cases h
    · exact .inr (by simpa [hst] using hbye)
    · exact fun _ => by simpa [hst] using hbye
  · have hlog : (c.handleWrite written).log = c.log ++ [.wrote (c.gone written)] ∧
        (c.handleWrite written).state_ = c.state_ ∧
        (c.handleWrite written).outputBuffer_ = out := by
      by_cases hd : c.Drains written
      · have hst : c.state_ ≠ .Disconnecting := fun hst => hfin ⟨hd, hst⟩
        rw [hdrain hd]
        simp [hst]
      · rw [hpart hd]
        exact ⟨rfl, rfl, rfl⟩
    obtain ⟨hlog, hst, hout⟩ := hlog
    have hmsgs := handleWrite_messages hc.watch.valid written
    refine ⟨hw, hc.fin.grow hlog (by simp) fun h1 hnil => ?_, ?_, ?_, ?_⟩
    · have hgone : c.gone written = [] := by
        have := gone_le (c := c) written
        rw [hnil] at this
        exact List.eq_nil_of_length_eq_zero (Nat.le_zero.mp this)
      refine ⟨by rwa [hst], ?_, by simp [hgone], by simp⟩
      rw [hout, hr, hnil, List.drop_nil]
    · rw [hst, hmsgs]; exact hc.talk
    · rw [hmsgs]; exact hc.whole
    · rw [hst, hmsgs, hlog]
      intro h
      exact hc.ended (h.imp_right fun hm => by simpa using hm)

lemma Reply.inv {req : HttpRequest} (h : Reply req written c c') (hc : Inv c) : Inv c' := by
  cases h with
  | silent he => rw [he]; exact hc
  | answer hst hsend => exact answer_inv hc hst hsend
  | goodbye c₁ hst hsend hshut =>
    obtain ⟨n, hn⟩ := hc.talk hst
    exact hangUp_inv hc hst hsend hshut (.inl ⟨n, by rw [hn]⟩)
  | refuse c₁ hst _ hsend hshut =>
    obtain ⟨n, hn⟩ := hc.talk hst
    exact hangUp_inv hc hst hsend hshut (.inr ⟨n, by rw [hn]⟩)

lemma Move.inv {req : HttpRequest} (h : Move req c c' e) (hc : Inv c) : Inv c' := by
  cases h with
  | read c₀ hq hreply => exact hreply.inv (hq.inv hc)
  | closed c₀ hq hclose => rw [hclose]; exact close_inv (hq.inv hc)
  | write he => rw [he]; exact write_inv hc _
  | close he => rw [he]; exact close_inv hc

lemma step_inv (s : Session) (e : Event) (s' : Session) (hs : Inv s.conn)
    (h : step s e = .ok s') : Inv s'.conn :=
  (step_move hs.watch.valid h).inv hs

lemma start_inv : Inv start.conn := by
  have hmsgs : messages start.conn.log = [] := by
    simp [start, connectEstablished, emit, Connection.new]
  have hno : .shutdownWrite ∉ start.conn.log := by
    simp [start, connectEstablished, emit, Connection.new]
  refine ⟨OutputWatch.established_inv true false, fun pre post hsplit => ?_, fun _ => ?_, ?_, ?_⟩
  · exact absurd (by rw [hsplit]; simp) hno
  · exact ⟨0, hmsgs⟩
  · exact .inl ⟨0, hmsgs⟩
  · rintro (hd | hm)
    · cases hd
    · exact absurd hm hno

/-! ### The stream -/

lemma Quiet.inOrder (h : Quiet c c') (hc : OutputStream.InOrder c) : OutputStream.InOrder c' := by
  obtain ⟨l, hlog, -, hacc, hmsg⟩ := h.added
  obtain ⟨-, -, hout, -⟩ := h
  rw [OutputStream.InOrder, hout, hlog, accepted_append, messages_append, hacc, hmsg,
    List.append_nil, List.append_nil]
  exact hc

lemma Quiet.direct (h : Quiet c c') : c'.direct = c.direct := by
  rw [Connection.direct, h.channel_, h.outputBuffer_, Connection.direct]

lemma send_inOrder (hv : c.outputBuffer_.Valid) (hc : OutputStream.InOrder c)
    (hst : c.state_ = .Connected) (hk : c.direct = true → written ≠ none) {msg : Str}
    (h : c.send true msg written = .ok c') : OutputStream.InOrder c' := by
  rw [send, if_pos hst] at h
  exact (OutputStream.step_inv c (.sendInLoop msg written) c' ⟨hv, hc⟩ (fun hd _ => hk hd) h).stream

lemma shutDown_inOrder (hc : OutputStream.InOrder c) (h : c.shutDown true = .ok c') :
    OutputStream.InOrder c' := by
  unfold shutDown at h
  split_ifs at h
  · obtain rfl := Except.ok.inj h
    unfold shutDownInLoop
    split_ifs
    · simpa [OutputStream.InOrder, emit] using hc
    · exact hc
  · obtain rfl := Except.ok.inj h
    exact hc

lemma close_inOrder (hc : OutputStream.InOrder c) : OutputStream.InOrder c.handleClose := by
  simpa [OutputStream.InOrder, handleClose, emit] using hc

lemma step_inOrder (s : Session) (e : Event) (s' : Session)
    (hs : Inv s.conn ∧ OutputStream.InOrder s.conn) (hk : Kept s e) (h : step s e = .ok s') :
    Inv s'.conn ∧ OutputStream.InOrder s'.conn := by
  obtain ⟨hinv, hs⟩ := hs
  refine ⟨step_inv s e s' hinv h, ?_⟩
  cases step_move hinv.watch.valid h with
  | write he =>
    exact he ▸ (OutputStream.step_inv s.conn (.handleWrite _) _ ⟨hinv.watch.valid, hs⟩ hk
      rfl).stream
  | close he => exact he ▸ close_inOrder hs
  | closed c₀ hq he => exact he ▸ close_inOrder (hq.inOrder hs)
  | read c₀ hq hreply =>
    have hs₀ := hq.inOrder hs
    have hk₀ : c₀.direct = true → _ := fun hd => hk (hq.direct ▸ hd)
    have hv₀ := (hq.inv hinv).watch.valid
    cases hreply with
    | silent he => exact he ▸ hs₀
    | answer hst hsend => exact send_inOrder hv₀ hs₀ hst hk₀ hsend
    | goodbye c₁ hst hsend hshut | refuse c₁ hst _ hsend hshut =>
      exact shutDown_inOrder (send_inOrder hv₀ hs₀ hst hk₀ hsend) hshut

/-! ### Nothing is refused -/

/-- The messages after an event, and none of the new ones is the refusal if nothing is read within a
request. -/
lemma step_messages (hs : Inv s.conn) (hk : Outside s e) (h : step s e = .ok s') :
    ∃ msgs, messages s'.conn.log = messages s.conn.log ++ msgs ∧ refusal ∉ msgs := by
  have hnone : ∀ {c c' : Connection}, messages c'.log = messages c.log →
      ∃ msgs, messages c'.log = messages c.log ++ msgs ∧ refusal ∉ msgs := fun heq =>
    ⟨[], by rw [heq, List.append_nil], List.not_mem_nil⟩
  cases step_move hs.watch.valid h with
  | write he => rw [he]; exact hnone (handleWrite_messages hs.watch.valid _)
  | close he => rw [he]; exact hnone (by simp [handleClose, emit])
  | closed c₀ hq he =>
    rw [he]
    exact hnone ((show messages c₀.handleClose.log = messages c₀.log by
      simp [handleClose, emit]).trans hq.messages)
  | read c₀ hq hreply =>
    have hwatch := (hq.inv hs).watch
    rw [← hq.messages]
    cases hreply with
    | silent he => rw [he]; exact hnone rfl
    | answer hst hsend =>
      obtain ⟨-, -, l, hlog, hmsg, -⟩ := send_eq hwatch hst hsend
      exact ⟨_, by rw [hlog, messages_append, hmsg], by decide +kernel⟩
    | goodbye c₁ hst hsend hshut =>
      obtain ⟨-, hst₁, l, hlog, hmsg, -⟩ := send_eq hwatch hst hsend
      obtain ⟨c₂, hc₂, -, -, -, hlog₂⟩ := shutDown_connected hst₁
      obtain rfl := Except.ok.inj (hc₂.symm.trans hshut)
      exact ⟨_, by rw [hlog₂, hlog, messages_append, hmsg], by decide +kernel⟩
    | refuse c₁ hst hwithin _ _ => exact absurd (hk (hq.state_ ▸ hst)) hwithin

/-! ### The run -/

variable {es : List Event}

/-- **A run of proper events goes through.** -/
lemma exec_start (hp : Asks step Proper start es) :
    ∃ s, exec step start es = .ok s ∧ Inv s.conn := by
  refine exec_total_of_asks (fun s e hs he => ?_) start_inv hp
  obtain ⟨s', hs'⟩ := step_ok hs.watch.valid he
  exact ⟨s', hs', step_inv s e s' hs hs'⟩

lemma refusal_notMem (ho : Each step Outside start es) (h : exec step start es = .ok s) :
    refusal ∉ messages s.conn.log := by
  have hstep : ∀ s e s', Inv s.conn ∧ refusal ∉ messages s.conn.log → Outside s e →
      step s e = .ok s' → Inv s'.conn ∧ refusal ∉ messages s'.conn.log := by
    rintro s e s' ⟨hs, hno⟩ hk h
    obtain ⟨msgs, heq, hmsgs⟩ := step_messages hs hk h
    refine ⟨step_inv s e s' hs h, ?_⟩
    rw [heq, List.mem_append]
    exact not_or.mpr ⟨hno, hmsgs⟩
  refine (exec_inv_of_each hstep ⟨start_inv, ?_⟩ ho h).2
  simp [start, connectEstablished, emit, Connection.new]

/-- What was refused was read within a request. -/
lemma within_of_refused (h : exec step start es = .ok s) (href : Refused (messages s.conn.log)) :
    ¬ Each step Outside start es := by
  intro ho
  obtain ⟨n, hn⟩ := href
  exact refusal_notMem ho h (by rw [hn]; simp)

/-- Behind the half-close nothing is sent, and nothing waits. -/
lemma Inv.fin_goodbye (h : Inv c) {pre post : List Effect}
    (hsplit : c.log = pre ++ .shutdownWrite :: post) :
    (Goodbye (messages pre) ∨ Refused (messages pre)) ∧ messages pre = messages c.log ∧
      c.outputBuffer_.readable = [] ∧ accepted post = [] ∧ messages post = [] := by
  obtain ⟨-, hnil, hacc, hmsg⟩ := h.fin pre post hsplit
  have hbye := h.ended (.inr (by rw [hsplit]; simp))
  have hmsgs : messages pre = messages c.log := by
    rw [hsplit, messages_append, messages_cons, hmsg]
    simp
  exact ⟨by rwa [hmsgs], hmsgs, hnil, hacc, hmsg⟩

/-- **The answers of a connection**: a run of proper events goes through. The connection is given
responses that keep it, and then at most one that does not, or the beginning of the refusal if
something was read within a request; it is half-closed behind that, when nothing waits to be sent,
and nothing is sent after. -/
theorem answers (hp : Asks step Proper start es) : ∃ s, exec step start es = .ok s ∧
    (Talking (messages s.conn.log) ∨ (Goodbye (messages s.conn.log) ∨
      Refused (messages s.conn.log) ∧ ¬ Each step Outside start es) ∧
      s.conn.state_ ≠ .Connected) ∧
    ∀ pre post, s.conn.log = pre ++ .shutdownWrite :: post →
      (Goodbye (messages pre) ∨ Refused (messages pre) ∧ ¬ Each step Outside start es) ∧
      s.conn.outputBuffer_.readable = [] ∧ accepted post = [] ∧ messages post = [] := by
  obtain ⟨s, hs, hinv⟩ := exec_start hp
  refine ⟨s, hs, ?_, fun pre post hsplit => ?_⟩
  · by_cases hst : s.conn.state_ = .Connected
    · exact .inl (hinv.talk hst)
    · exact hinv.whole.imp_right fun hbye =>
        ⟨hbye.imp_right fun href => ⟨href, within_of_refused hs href⟩, hst⟩
  · obtain ⟨hbye, hmsgs, hrest⟩ := hinv.fin_goodbye hsplit
    exact ⟨hbye.imp_right fun href => ⟨href, within_of_refused hs (hmsgs ▸ href)⟩, hrest⟩

/-- A request that does not keep the connection. -/
def request : Str := str "GET / HTTP/1.0\r\n\r\n"

/-- The response goes out in two parts. -/
def twoParts : List Event := [.read [.data request, .failed] (some 10), .write (some 100)]

lemma request_goes {b : Buffer} (hb : b.Valid) (hr : b.readable = request) : Goes .new b := by
  have hline : request = str "GET / HTTP/1.0" ++ CRLF ++ CRLF := by decide
  have hplain : Plain (str "GET / HTTP/1.0") := by unfold Plain; decide +kernel
  refine ⟨fun _ => hb.read_le, fun _ => ?_, fun _ ht => ?_⟩
  · rw [hr, firstLine_of_line hline hplain]
    exact RequestLine.not_late_of_isLine (v := .get) (t := str "/") (p := .http10)
      ⟨by decide, by decide⟩
  · rw [hr, hline] at ht
    exact absurd (infix_line _ _) ht

lemma twoParts_proper : Asks step Proper start twoParts := by
  have hlen : request.length = 18 := by decide
  have hroom : start.conn.inputBuffer_.getWriteableLen = 1024 := Buffer.new_getWriteableLen 1024
  have hd : ∀ d ∈ [request],
      Delivered start.conn.inputBuffer_.getWriteableLen d.length ∧ d.length ≤ INT_MAX := by
    intro d hmem
    rw [List.mem_singleton.mp hmem, hroom, hlen]
    simp [Delivered, INT_MAX]
  have hstored : ReadBlocks.Stored _ _ _ start.conn.inputBuffer_ 0 [request] .failed :=
    ReadBlocks.stored_of_inStep (ReadBlocks.ready (Buffer.new_valid 1024))
      (fun d hmem => (hd d hmem).1) (fun d hmem => (hd d hmem).2) trivial (by simp)
  obtain ⟨input, hread, hv, hr⟩ := hstored
  rw [show start.conn.inputBuffer_.readable = [] from Buffer.new_readable 1024, List.nil_append,
    List.flatten_singleton] at hr
  refine asks_cons.mpr ⟨⟨[request], .again, rfl, fun d hmem => ?_, ?_, fun b k hb _ => ?_⟩,
    fun t ht => asks_cons.mpr ⟨trivial, fun _ _ => asks_nil⟩⟩
  · exact ⟨(hd d hmem).1, ReadBlocks.pos_of_le (hd d hmem).1 (hd d hmem).2⟩
  · exact ReadEvent.safe_of_fit (Buffer.new_valid 1024) (by rw [hroom]; simp [hlen])
  · obtain ⟨rfl, -⟩ := Prod.mk.inj (Except.ok.inj (hread.symm.trans hb))
    exact ⟨hv.write_le, fits_of_length _ (by rw [hr, hlen]; decide), request_goes hv hr⟩

theorem answers_two : ∃ s, exec step start twoParts = .ok s ∧
    (Talking (messages s.conn.log) ∨ (Goodbye (messages s.conn.log) ∨
      Refused (messages s.conn.log) ∧ ¬ Each step Outside start twoParts) ∧
      s.conn.state_ ≠ .Connected) ∧
    ∀ pre post, s.conn.log = pre ++ .shutdownWrite :: post →
      (Goodbye (messages pre) ∨ Refused (messages pre) ∧ ¬ Each step Outside start twoParts) ∧
      s.conn.outputBuffer_.readable = [] ∧ accepted post = [] ∧ messages post = [] :=
  answers twoParts_proper

/-- **What the client gets**: in a run of proper events whose writes do not break the stream, the
bytes that the socket has accepted and those that wait are the messages in their order. When the
connection is half-closed the socket has accepted all of them, the last response whole; unless the
last of them is the beginning of the refusal, of something that was read within a request. -/
theorem farewell (hp : Asks step Proper start es) (hk : Each step Kept start es) :
    ∃ s, exec step start es = .ok s ∧
    accepted s.conn.log ++ s.conn.outputBuffer_.readable = (messages s.conn.log).flatten ∧
    ∀ pre post, s.conn.log = pre ++ .shutdownWrite :: post → ∃ n last,
      (last = (response false).text ∨ last = refusal ∧ ¬ Each step Outside start es) ∧
      accepted pre = (List.replicate n (response true).text).flatten ++ last ∧
      accepted post = [] := by
  obtain ⟨s, hs, -⟩ := exec_start hp
  have hstart : OutputStream.InOrder start.conn := (OutputStream.established_inv true false).stream
  obtain ⟨hinv, horder⟩ := exec_inv_of_each step_inOrder ⟨start_inv, hstart⟩ hk hs
  refine ⟨s, hs, horder, fun pre post hsplit => ?_⟩
  obtain ⟨hbye, hmsgs, hnil, hacc, hmsg⟩ := hinv.fin_goodbye hsplit
  obtain ⟨n, last, hlast, hpre⟩ : ∃ n last,
      (last = (response false).text ∨ last = refusal ∧ ¬ Each step Outside start es) ∧
        messages pre = List.replicate n (response true).text ++ [last] := by
    rcases hbye with ⟨n, hn⟩ | ⟨n, hn⟩
    · exact ⟨n, _, .inl rfl, hn⟩
    · exact ⟨n, _, .inr ⟨rfl, within_of_refused hs (hmsgs ▸ ⟨n, hn⟩)⟩, hn⟩
  refine ⟨n, last, hlast, ?_, hacc⟩
  rw [OutputStream.InOrder, hnil, hsplit, accepted_append, accepted_cons, hacc, messages_append,
    messages_cons, hmsg, hpre] at horder
  simpa using horder

lemma twoParts_kept : Each step Kept start twoParts := by
  refine each_cons.mpr fun t ht => ⟨fun _ => ?_, each_cons.mpr fun u hu => ⟨?_, each_nil⟩⟩
  · exact Option.some_ne_none 10
  · exact (List.length_take_le 100 _).trans (by decide)

theorem farewell_two : ∃ s, exec step start twoParts = .ok s ∧
    accepted s.conn.log ++ s.conn.outputBuffer_.readable = (messages s.conn.log).flatten ∧
    ∀ pre post, s.conn.log = pre ++ .shutdownWrite :: post → ∃ n last,
      (last = (response false).text ∨ last = refusal ∧ ¬ Each step Outside start twoParts) ∧
      accepted pre = (List.replicate n (response true).text).flatten ++ last ∧
      accepted post = [] :=
  farewell twoParts_proper twoParts_kept

end MuduoZ.HttpSession
