import MuduoZ.Connection
import MuduoZ.HttpFormat

/-!
The HTTP server: its answer to what a connection receives.

A request is read up to its blank line, answered, and the parser is reset; the blank line stays
in the input buffer, in front of the next request.
-/

namespace MuduoZ

inductive HttpStatusCode
  | Unknown | C200Ok | C301MovedPermanently | C400BadRequest | C404NotFound
  deriving DecidableEq, Repr

def HttpStatusCode.digits : HttpStatusCode → Str
  | .Unknown => str "0"
  | .C200Ok => str "200"
  | .C301MovedPermanently => str "301"
  | .C400BadRequest => str "400"
  | .C404NotFound => str "404"

structure HttpResponse where
  statusCode_ : HttpStatusCode
  codeMsg_ : Str
  headers_ : List (Str × Str)
  keepConnection_ : Bool
  version_ : Str
  body_ : Str
  deriving DecidableEq, Repr

namespace HttpResponse

def new (keepConnection : Bool) : HttpResponse :=
  ⟨.Unknown, [], [], keepConnection, str "HTTP/1.1", []⟩

/-- What `snprintf` leaves in `char buf[14]`. -/
def statusLine (r : HttpResponse) : Str :=
  (r.version_ ++ SP :: r.statusCode_.digits ++ [SP]).take 13

/-- The strings `addToBuffer` appends, in order. -/
def pieces (r : HttpResponse) : List Str :=
  [r.statusLine, r.codeMsg_, CRLF,
    if r.keepConnection_ then str "Connection: Keep-Alive\r\n" else str "Connection: close\r\n"] ++
  (r.headers_.flatMap fun header => [header.1, str ": ", header.2, CRLF]) ++
  [CRLF, r.body_]

def addToBuffer (r : HttpResponse) (outputBuf : Buffer) : Result Buffer :=
  r.pieces.foldlM Buffer.appendString outputBuf

/-- All it writes. -/
def text (r : HttpResponse) : Str := r.pieces.flatten

/-- **The buffer gets the response.** -/
theorem addToBuffer_text (r : HttpResponse) {b : Buffer} (hb : b.Valid)
    (hr : ∀ p ∈ r.pieces, p.length ≤ INT_MAX) :
    ∃ b', r.addToBuffer b = .ok b' ∧ b'.Valid ∧ b'.readable = b.readable ++ r.text := by
  unfold addToBuffer text
  generalize r.pieces = ps at hr ⊢
  induction ps generalizing b with
  | nil => exact ⟨b, rfl, hb, by simp⟩
  | cons p ps ih =>
    obtain ⟨b1, h1, hv1, hr1⟩ := hb.appendString (hr p (by simp))
    obtain ⟨b2, h2, hv2, hr2⟩ := ih hv1 fun p' hp' => hr p' (List.mem_cons_of_mem _ hp')
    refine ⟨b2, ?_, hv2, by rw [hr2, hr1]; simp⟩
    rw [List.foldlM_cons, h1]
    exact h2

end HttpResponse

namespace HttpServer

open Connection

/-- A connection with its context. -/
structure Session where
  conn : Connection
  context_ : HttpRequest

/-- `Connection::send(const char*)`, which takes the size of the pointer for the length. -/
def sendText (c : Connection) (msg : Str) (written : Option ℕ) : Result Connection :=
  c.send true (msg.take 8) written

/-- What `onMessage` does when `parseMessage` returned `false`. -/
def refuse (conn : Connection) (written : Option ℕ) : Result Connection := do
  let conn ← sendText conn (str "HTTP/1.1 400 Bad Request\r\n\r\n") written
  conn.shutDown true

/-- What it does in state `GotAll`. -/
def answer (conn : Connection) (req : HttpRequest) (written : Option ℕ) : Result Session := do
  let (connection, req) := req.getHeader (str "Connection")
  let keepConnection :=
    !(connection = str "close" || (req.version_ = .Http10 && connection ≠ str "Keep-Alive"))
  let response :=
    { HttpResponse.new keepConnection with statusCode_ := .C200Ok, codeMsg_ := str "OK" }
  let msg ← response.addToBuffer .new
  let conn ← conn.send true msg.readable written
  let conn ← if keepConnection = false then conn.shutDown true else .ok conn
  .ok ⟨conn, req.reset⟩

/-- At most one of the two calls of `send` finds the connection connected. -/
def onMessage (s : Session) (written : Option ℕ) : Result Session := do
  let (ok, req, input) ← s.context_.parseMessage s.conn.inputBuffer_
  let conn := { s.conn with inputBuffer_ := input }
  let conn ← if !ok then refuse conn written else .ok conn
  if req.state_ = .GotAll then answer conn req written else .ok ⟨conn, req⟩

/-- A call whose `parseMessage` returned `true`. -/
lemma onMessage_parsed {s : Session} {req : HttpRequest} {input : Buffer} (written : Option ℕ)
    (h : s.context_.parseMessage s.conn.inputBuffer_ = .ok (true, req, input)) :
    onMessage s written =
      if req.state_ = .GotAll then answer { s.conn with inputBuffer_ := input } req written
      else .ok ⟨{ s.conn with inputBuffer_ := input }, req⟩ := by
  rw [onMessage, h]
  rfl

/-- A call whose `parseMessage` returned `false`. -/
lemma onMessage_refused {s : Session} {req : HttpRequest} {input : Buffer} (written : Option ℕ)
    (h : s.context_.parseMessage s.conn.inputBuffer_ = .ok (false, req, input)) :
    onMessage s written = (do
      let conn ← refuse { s.conn with inputBuffer_ := input } written
      if req.state_ = .GotAll then answer conn req written else .ok ⟨conn, req⟩) := by
  rw [onMessage, h]
  rfl

/-! ### Sending an answer -/

/-- A message sent on a connected connection is handed over. -/
lemma send_connected {c : Connection} (hv : c.outputBuffer_.Valid) (hst : c.state_ = .Connected)
    (msg : Str) (written : Option ℕ) : ∃ c', c.send true msg written = .ok c' ∧
      c'.inputBuffer_ = c.inputBuffer_ ∧ c'.outputBuffer_.Valid ∧ c'.state_ = .Connected ∧
      messages c'.log = messages c.log ++ [msg] := by
  obtain ⟨out, log, hsend, hv', -, hlog, -⟩ := sendInLoop_spec hv msg written
  rw [send, if_pos hst]
  exact ⟨_, hsend, rfl, hv', hst, by simp [hlog]⟩

lemma shutDown_connected {c : Connection} (hst : c.state_ = .Connected) :
    ∃ c', c.shutDown true = .ok c' ∧ c'.inputBuffer_ = c.inputBuffer_ ∧
      c'.outputBuffer_ = c.outputBuffer_ ∧ c'.state_ = .Disconnecting ∧
      messages c'.log = messages c.log := by
  rw [shutDown, if_pos hst]
  refine ⟨_, rfl, ?_⟩
  unfold shutDownInLoop
  split_ifs <;> simp [emit]

/-- The response to a request. -/
def response (keepConnection : Bool) : HttpResponse :=
  { HttpResponse.new keepConnection with statusCode_ := .C200Ok, codeMsg_ := str "OK" }

/-- The request does not have the connection closed. -/
def keeps (req : HttpRequest) : Bool :=
  let connection := (req.getHeader (str "Connection")).1
  !(connection = str "close" || (req.version_ = .Http10 && connection ≠ str "Keep-Alive"))

/-- A connection that is not kept is shut down. -/
def hangUp (keepConnection : Bool) (c : Connection) : Result Connection :=
  if keepConnection = false then c.shutDown true else .ok c

lemma getHeader_version (req : HttpRequest) (name : Str) :
    (req.getHeader name).2.version_ = req.version_ := by
  unfold HttpRequest.getHeader
  split <;> rfl

lemma response_pieces (keepConnection : Bool) :
    ∀ p ∈ (response keepConnection).pieces, p.length ≤ INT_MAX := by
  cases keepConnection <;> decide

/-- **The answer**: the response is sent and, if the connection is not kept, it is shut down. -/
lemma answer_eq (c : Connection) (req : HttpRequest) (written : Option ℕ) :
    answer c req written = (do
      let c ← c.send true (response (keeps req)).text written
      let c ← hangUp (keeps req) c
      .ok ⟨c, (req.getHeader (str "Connection")).2.reset⟩) := by
  have hver := getHeader_version req (str "Connection")
  unfold answer keeps
  generalize req.getHeader (str "Connection") = r at hver ⊢
  obtain ⟨connection, req'⟩ := r
  dsimp only at hver ⊢
  rw [← hver]
  generalize (!(decide (connection = str "close") || (decide (req'.version_ = .Http10) &&
    decide (connection ≠ str "Keep-Alive")))) = keepConnection
  obtain ⟨msg, hmsg, -, hr⟩ := (response keepConnection).addToBuffer_text (Buffer.new_valid 1024)
    (response_pieces keepConnection)
  rw [Buffer.new_readable, List.nil_append] at hr
  change ((response keepConnection).addToBuffer .new >>= _) = _
  rw [hmsg, ← hr]
  cases keepConnection <;> rfl

/-! ### Calls that go through -/

/-- What the calls of the connection leave alone. -/
structure Frame (c c' : Connection) : Prop where
  output : c'.outputBuffer_.Valid
  input : c'.inputBuffer_ = c.inputBuffer_
  left : c.state_ ≠ .Connected → c'.state_ ≠ .Connected

variable {c c' c'' : Connection}

lemma Frame.trans (h : Frame c c') (h' : Frame c' c'') : Frame c c'' :=
  ⟨h'.output, h'.input.trans h.input, fun hst => h'.left (h.left hst)⟩

lemma send_frame (hv : c.outputBuffer_.Valid) (msg : Str) (written : Option ℕ) :
    ∃ c', c.send true msg written = .ok c' ∧ Frame c c' := by
  by_cases hst : c.state_ = .Connected
  · obtain ⟨c', h, hin, hv', -⟩ := send_connected hv hst msg written
    exact ⟨c', h, hv', hin, fun hne => absurd hst hne⟩
  · exact ⟨c, if_neg hst, hv, rfl, id⟩

lemma shutDown_frame (hv : c.outputBuffer_.Valid) :
    ∃ c', c.shutDown true = .ok c' ∧ Frame c c' := by
  by_cases hst : c.state_ = .Connected
  · obtain ⟨c', h, hin, hout, -⟩ := shutDown_connected hst
    exact ⟨c', h, by rwa [hout], hin, fun hne => absurd hst hne⟩
  · exact ⟨c, if_neg hst, hv, rfl, id⟩

lemma refuse_frame (hv : c.outputBuffer_.Valid) (written : Option ℕ) :
    ∃ c', refuse c written = .ok c' ∧ Frame c c' := by
  obtain ⟨c₁, h₁, hf₁⟩ := send_frame hv ((str "HTTP/1.1 400 Bad Request\r\n\r\n").take 8) written
  obtain ⟨c₂, h₂, hf₂⟩ := shutDown_frame hf₁.output
  exact ⟨c₂, bind_ok_iff.mpr ⟨c₁, h₁, h₂⟩, hf₁.trans hf₂⟩

lemma answer_frame (hv : c.outputBuffer_.Valid) (req : HttpRequest) (written : Option ℕ) :
    ∃ s, answer c req written = .ok s ∧ Frame c s.conn ∧
      s.context_.state_ = .ExpectRequestLine := by
  obtain ⟨c₁, h₁, hf₁⟩ := send_frame hv (response (keeps req)).text written
  obtain ⟨c₂, h₂, hf₂⟩ : ∃ c₂, hangUp (keeps req) c₁ = .ok c₂ ∧ Frame c₁ c₂ := by
    unfold hangUp
    split_ifs
    · exact shutDown_frame hf₁.output
    · exact ⟨c₁, rfl, hf₁.output, rfl, id⟩
  rw [answer_eq]
  exact ⟨_, bind_ok_iff.mpr ⟨c₁, h₁, bind_ok_iff.mpr ⟨c₂, h₂, rfl⟩⟩, hf₁.trans hf₂, rfl⟩

/-- The state of the parser after a call: where a request was completed it was reset. -/
def after (req : HttpRequest) : HttpRequest.State :=
  if req.state_ = .GotAll then .ExpectRequestLine else req.state_

/-- **A call goes through** when its `parseMessage` does. -/
theorem onMessage_total {s : Session} {ok : Bool} {req : HttpRequest} {input : Buffer}
    (written : Option ℕ) (hv : s.conn.outputBuffer_.Valid)
    (h : s.context_.parseMessage s.conn.inputBuffer_ = .ok (ok, req, input)) :
    ∃ s', onMessage s written = .ok s' ∧ Frame { s.conn with inputBuffer_ := input } s'.conn ∧
      s'.context_.state_ = after req := by
  have hend : ∀ c : Connection, c.outputBuffer_.Valid → ∃ s',
      (if req.state_ = .GotAll then answer c req written else .ok ⟨c, req⟩) = .ok s' ∧
        Frame c s'.conn ∧ s'.context_.state_ = after req := by
    intro c hv
    unfold after
    split_ifs
    · exact answer_frame hv req written
    · exact ⟨_, rfl, ⟨hv, rfl, id⟩, rfl⟩
  cases ok with
  | true =>
    rw [onMessage_parsed written h]
    exact hend _ hv
  | false =>
    rw [onMessage_refused written h]
    obtain ⟨c₁, h₁, hf₁⟩ := refuse_frame (c := { s.conn with inputBuffer_ := input }) hv written
    obtain ⟨s', hs', hf, hst⟩ := hend c₁ hf₁.output
    exact ⟨s', bind_ok_iff.mpr ⟨c₁, h₁, hs'⟩, hf₁.trans hf, hst⟩

end HttpServer

end MuduoZ
