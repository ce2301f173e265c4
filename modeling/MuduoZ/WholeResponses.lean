import MuduoZ.HttpChunks
import MuduoZ.KeepAlive
import MuduoZ.ParseMessage

/-!
What the server sends, whatever it receives.

A normal response is sent as a buffer, and whole. The response to a bad request is sent as a
pointer, of which the size is taken for the length: eight bytes of it go out. A call that leaves
the readable bytes does not go through, and the run with it.
-/

namespace MuduoZ.WholeResponses

open Search Connection HttpRequest HttpFormat HttpServer HttpLines RequestLine ParseMessage Runs
open KeepAlive (start)

/-- Bytes that arrive, and the result of the write of what they are answered with. -/
structure Chunk where
  bytes : Str
  written : Option ℕ

def receive (s : Session) (c : Chunk) : Result Session := do
  let input ← s.conn.inputBuffer_.append c.bytes
  onMessage { s with conn := { s.conn with inputBuffer_ := input } } c.written

/-- A version, a code of three digits and a reason. -/
def IsStatusLine (line : Str) : Prop :=
  ∃ code reason, line = str "HTTP/1.1" ++ SP :: (code ++ SP :: reason) ∧ code.length = 3 ∧
    (∀ d ∈ code, 48 ≤ d ∧ d ≤ 57) ∧ ¬ CRLF <:+: line

/-- A complete response: a status line, header lines and the empty line. -/
def Whole (bytes : Str) : Prop :=
  ∃ line headers, IsStatusLine line ∧ bytes = line ++ CRLF ++ (headerText headers ++ CRLF)

/-- The bytes handed to the connection are complete responses one after the other. -/
def Output (s : Session) : Prop :=
  ∃ responses : List Str, (∀ r ∈ responses, Whole r) ∧
    (messages s.conn.log).flatten = responses.flatten

/-- While the connection is connected, bytes arrive at the beginning of a request. -/
def AtStart (s : Session) (_ : Chunk) : Prop :=
  s.conn.state_ = .Connected → s.context_.state_ = .ExpectRequestLine

/-- What is readable when the chunk has been appended. -/
def text (s : Session) (c : Chunk) : Str := s.conn.inputBuffer_.readable ++ c.bytes

/-- An `int` holds the lengths of the lines the call reads. -/
def Short (s : Session) (c : Chunk) : Prop := Fits s.context_ (text s c)

/-- The chunk finds the parser at the beginning of a request; and a request line it is read from
can be cut into its parts, and has ended or is refused. -/
structure Begins (s : Session) (c : Chunk) : Prop where
  atStart : AtStart s c
  onTime : s.context_.state_ = .ExpectRequestLine → ¬ LateQuestion (firstLine (text s c))
  ended : s.context_.state_ = .ExpectRequestLine → Plain (text s c) →
    ∀ v target p, ¬ IsLine (text s c) v target p

/-! ### Responses -/

lemma response_whole (keepConnection : Bool) : Whole (response keepConnection).text := by
  refine ⟨str "HTTP/1.1 200 OK", [⟨str "Connection", if keepConnection then str "Keep-Alive" else
    str "close", by decide, by cases keepConnection <;> decide⟩], ⟨str "200", str "OK", ?_⟩, ?_⟩
  · exact ⟨rfl, rfl, by decide +kernel, by decide +kernel⟩
  · cases keepConnection <;> decide +kernel

lemma Whole.last {bytes : Str} (h : Whole bytes) : bytes.getLast? = some LF := by
  obtain ⟨line, headers, -, rfl⟩ := h
  rw [← List.append_assoc, List.getLast?_append]
  rfl

/-- After complete responses the last byte is the end of a line. -/
lemma flatten_last {responses : List Str} (h : ∀ r ∈ responses, Whole r) :
    responses.flatten = [] ∨ responses.flatten.getLast? = some LF := by
  induction responses using List.reverseRecOn with
  | nil => exact .inl rfl
  | append_singleton rs r _ =>
    right
    rw [List.flatten_append, List.flatten_singleton, List.getLast?_append,
      (h r (by simp)).last]
    rfl

/-- The eight bytes that are sent to refuse a request. -/
def refusal : Str := str "HTTP/1.1"

lemma refusal_eq : (str "HTTP/1.1 400 Bad Request\r\n\r\n").take 8 = refusal := by decide

/-! ### One call of `onMessage` -/

variable {s s' : Session} {c c' : Connection} {k : Chunk}

/-- What a call hands over. -/
structure Sends (c c' : Connection) (msgs : List Str) : Prop where
  valid : c'.outputBuffer_.Valid
  sent : messages c'.log = messages c.log ++ msgs

/-- The answer on a connection that is not connected is not sent. -/
lemma answer_silent (hv : c.outputBuffer_.Valid) (hst : c.state_ ≠ .Connected)
    {req : HttpRequest} {written : Option ℕ} (h : answer c req written = .ok s') :
    Sends c s'.conn [] := by
  have hsend : ∀ msg, c.send true msg written = .ok c := fun msg => if_neg hst
  have hshut : c.shutDown true = .ok c := if_neg hst
  rw [answer_eq] at h
  obtain ⟨c₁, hc₁, h⟩ := bind_ok_iff.mp h
  obtain rfl := Except.ok.inj ((hsend _).symm.trans hc₁)
  obtain ⟨c₂, hc₂, h⟩ := bind_ok_iff.mp h
  rw [hangUp, hshut, ite_self] at hc₂
  obtain rfl := Except.ok.inj hc₂
  obtain rfl := Except.ok.inj h
  exact ⟨hv, (List.append_nil _).symm⟩

lemma answer_sends (hv : c.outputBuffer_.Valid) (hst : c.state_ = .Connected)
    {req : HttpRequest} {written : Option ℕ} (h : answer c req written = .ok s') :
    Sends c s'.conn [(response (keeps req)).text] := by
  obtain ⟨c₁, hsend, -, hv₁, hst₁, hlog₁⟩ :=
    send_connected hv hst (response (keeps req)).text written
  obtain ⟨c₂, hshut, -, hout, -, hlog₂⟩ := shutDown_connected hst₁
  rw [answer_eq] at h
  obtain ⟨c₀, hc₀, h⟩ := bind_ok_iff.mp h
  obtain rfl := Except.ok.inj (hsend.symm.trans hc₀)
  obtain ⟨c₃, hc₃, h⟩ := bind_ok_iff.mp h
  obtain rfl := Except.ok.inj h
  unfold hangUp at hc₃
  split at hc₃
  · obtain rfl := Except.ok.inj (hshut.symm.trans hc₃)
    exact ⟨by rwa [hout], hlog₂.trans hlog₁⟩
  · obtain rfl := Except.ok.inj hc₃
    exact ⟨hv₁, hlog₁⟩

lemma refuse_silent (hst : c.state_ ≠ .Connected) (written : Option ℕ) :
    refuse c written = .ok c := by
  have hsend : ∀ msg, c.send true msg written = .ok c := fun msg => if_neg hst
  have hshut : c.shutDown true = .ok c := if_neg hst
  rw [refuse, sendText, hsend]
  exact hshut

lemma refuse_sends (hv : c.outputBuffer_.Valid) (hst : c.state_ = .Connected)
    (written : Option ℕ) : ∃ c', refuse c written = .ok c' ∧ Sends c c' [refusal] ∧
      c'.state_ ≠ .Connected := by
  obtain ⟨c₁, hsend, -, hv₁, hst₁, hlog₁⟩ := send_connected hv hst refusal written
  obtain ⟨c₂, hshut, -, hout, hst₂, hlog₂⟩ := shutDown_connected hst₁
  refine ⟨c₂, ?_, ⟨by rwa [hout], hlog₂.trans hlog₁⟩, by rw [hst₂]; decide⟩
  rw [refuse, sendText, refusal_eq, hsend]
  exact hshut

lemma Sends.trans {c'' : Connection} {msgs msgs' : List Str} (h : Sends c c' msgs)
    (h' : Sends c' c'' msgs') : Sends c c'' (msgs ++ msgs') :=
  ⟨h'.valid, by rw [h'.sent, h.sent, List.append_assoc]⟩

/-- The end of `onMessage`. -/
lemma end_silent (hv : c.outputBuffer_.Valid) (hst : c.state_ ≠ .Connected) {req : HttpRequest}
    {written : Option ℕ}
    (h : (if req.state_ = .GotAll then answer c req written else .ok ⟨c, req⟩) = .ok s') :
    Sends c s'.conn [] := by
  split at h
  · exact answer_silent hv hst h
  · obtain rfl := Except.ok.inj h
    exact ⟨hv, (List.append_nil _).symm⟩

lemma Sends.of_log {c₀ : Connection} {msgs : List Str} (h : Sends c c' msgs)
    (hlog : c.log = c₀.log) : Sends c₀ c' msgs :=
  ⟨h.valid, by rw [h.sent, hlog]⟩

/-- **What a call answers**: one that begins with a request line nothing or one complete
response, another one the refusal. -/
lemma onMessage_sends (hv : s.conn.outputBuffer_.Valid) {written : Option ℕ}
    (h : onMessage s written = .ok s') :
    ((s.conn.state_ = .Connected → s.context_.state_ = .ExpectRequestLine) →
      ∃ rs : List Str, (∀ r ∈ rs, Whole r) ∧ Sends s.conn s'.conn rs) ∧
    (¬ (s.conn.state_ = .Connected → s.context_.state_ = .ExpectRequestLine) →
      Sends s.conn s'.conn [refusal]) := by
  obtain ⟨⟨ok, req, input⟩, hp, -⟩ := bind_ok_iff.mp h
  have hflag := HttpChunks.parseMessage_flag hp
  obtain ⟨c, hc, hst, hlog, hout⟩ : ∃ c, { s.conn with inputBuffer_ := input } = c ∧
    c.state_ = s.conn.state_ ∧ c.log = s.conn.log ∧ c.outputBuffer_ = s.conn.outputBuffer_ :=
    ⟨_, rfl, rfl, rfl, rfl⟩
  rw [← hout] at hv
  rw [← hst, ← hflag]
  cases ok with
  | true =>
    rw [onMessage_parsed written hp, hc] at h
    refine ⟨fun _ => ?_, fun hk => absurd (fun _ => rfl) hk⟩
    by_cases hst' : c.state_ = .Connected
    · split at h
      · exact ⟨_, by simpa using response_whole _, (answer_sends hv hst' h).of_log hlog⟩
      · obtain rfl := Except.ok.inj h
        exact ⟨[], by simp, ⟨hv, by simp [hlog]⟩⟩
    · exact ⟨[], by simp, (end_silent hv hst' h).of_log hlog⟩
  | false =>
    rw [onMessage_refused written hp, hc] at h
    obtain ⟨c₁, hc₁, h⟩ := bind_ok_iff.mp h
    constructor <;> intro hk
    · have hst' : c.state_ ≠ .Connected := fun hst' => absurd (hk hst') (by decide)
      obtain rfl := Except.ok.inj ((refuse_silent hst' written).symm.trans hc₁)
      exact ⟨[], by simp, (end_silent hv hst' h).of_log hlog⟩
    · obtain ⟨hst', -⟩ := Classical.not_imp.mp hk
      obtain ⟨c₂, hc₂, hsend, hst₂⟩ := refuse_sends hv hst' written
      obtain rfl := Except.ok.inj (hc₂.symm.trans hc₁)
      exact (hsend.trans (end_silent hsend.valid hst₂ h)).of_log hlog

/-- The same for a chunk. -/
lemma receive_sends (hv : s.conn.outputBuffer_.Valid) (h : receive s k = .ok s') :
    (AtStart s k → ∃ rs : List Str, (∀ r ∈ rs, Whole r) ∧ Sends s.conn s'.conn rs) ∧
      (¬ AtStart s k → Sends s.conn s'.conn [refusal]) := by
  obtain ⟨input, -, h⟩ := bind_ok_iff.mp h
  obtain ⟨hwhole, hcut⟩ :=
    onMessage_sends (s := { s with conn := { s.conn with inputBuffer_ := input } }) hv h
  refine ⟨fun hk => ?_, fun hk => (hcut hk).of_log rfl⟩
  obtain ⟨rs, hrs, hsend⟩ := hwhole hk
  exact ⟨rs, hrs, hsend.of_log rfl⟩

/-! ### The run -/

/-- While the parser is at a request line, and after the connection was shut down, the positions of
the input buffer are in order; after it was shut down a line is left of the last request. -/
structure Inv (s : Session) : Prop where
  valid : s.conn.outputBuffer_.Valid
  output : Output s
  state : s.context_.state_ = .ExpectRequestLine ∨ s.context_.state_ = .ExpectHeaders
  input : s.context_.state_ = .ExpectRequestLine ∨ s.conn.state_ ≠ .Connected →
    s.conn.inputBuffer_.Valid
  left : s.context_.state_ = .ExpectRequestLine → s.conn.state_ ≠ .Connected →
    CRLF <:+: s.conn.inputBuffer_.readable

lemma start_inv : Inv start :=
  ⟨Buffer.new_valid 1024, ⟨[], by simp, rfl⟩, .inl rfl, fun _ => Buffer.new_valid 1024,
    fun _ hst => absurd rfl hst⟩

/-- A chunk that is asked for as it should be is appended to a buffer whose positions are in
order. -/
lemma input_valid (hs : Inv s) (hk : AtStart s k) : s.conn.inputBuffer_.Valid := by
  by_cases hst : s.conn.state_ = .Connected
  · exact hs.input (.inl (hk hst))
  · exact hs.input (.inr hst)

/-- The rest of the condition is that the call goes through. -/
lemma begins_iff {b : Buffer} (hk : AtStart s k) (hb : b.Valid) (hr : b.readable = text s k) :
    Begins s k ↔ Goes s.context_ b := by
  constructor
  · exact fun h => ⟨fun _ => hb.read_le, by rw [hr]; exact h.onTime, by rw [hr]; exact h.ended⟩
  · intro h
    obtain ⟨-, honTime, hended⟩ := h
    rw [hr] at honTime hended
    exact ⟨hk, honTime, hended⟩

/-- Bytes that do not complete a request leave the connection connected. -/
lemma stays_connected {ok : Bool} {req : HttpRequest} {b input : Buffer} {written : Option ℕ}
    (hp : s.context_.parseMessage b = .ok (ok, req, input))
    (h : onMessage { s with conn := { s.conn with inputBuffer_ := b } } written = .ok s')
    (hgot : req.state_ ≠ .GotAll) (hst : s.conn.state_ = .Connected)
    (hline : s.context_.state_ = .ExpectRequestLine) : s'.conn.state_ = .Connected := by
  obtain rfl : ok = true := (HttpChunks.parseMessage_flag hp).mpr hline
  rw [onMessage_parsed (s := { s with conn := { s.conn with inputBuffer_ := b } }) written hp,
    if_neg hgot] at h
  obtain rfl := Except.ok.inj h
  exact hst

lemma step_total (s : Session) (k : Chunk) (hs : Inv s) (hf : Short s k) (hk : Begins s k) :
    ∃ s', receive s k = .ok s' ∧ Inv s' := by
  obtain ⟨b, happ, hb, hr⟩ := (input_valid hs hk.atStart).append k.bytes
  have hfit : Fits s.context_ b.readable := by rw [hr]; exact hf
  obtain ⟨ok, req, input, hp⟩ :=
    (goes_iff hb.write_le hfit).mpr ((begins_iff hk.atStart hb hr).mp hk)
  obtain ⟨hstate, hvalid⟩ := parseMessage_leaves hs.state hb hfit hp
  have hcall : receive s k = onMessage { s with conn := { s.conn with inputBuffer_ := b } }
      k.written := by rw [receive, happ, ok_bind]
  obtain ⟨s', hs', hframe, hafter⟩ := onMessage_total
    (s := { s with conn := { s.conn with inputBuffer_ := b } }) k.written hs.valid hp
  obtain ⟨rs, hrs, hsend⟩ := (receive_sends hs.valid (hcall.trans hs')).1 hk.atStart
  obtain ⟨rs₀, hrs₀, hout⟩ := hs.output
  refine ⟨s', hcall.trans hs', hframe.output, ⟨rs₀ ++ rs, fun r hmem => ?_, ?_⟩, ?_, ?_, ?_⟩
  · exact (List.mem_append.mp hmem).elim (hrs₀ r) (hrs r)
  · rw [hsend.sent, List.flatten_append, List.flatten_append, hout]
  · rw [hafter, after]
    split_ifs with hgot
    · exact .inl rfl
    · exact .inr (hstate.resolve_right fun h => hgot h.1)
  · rw [hframe.input]
    intro h
    by_cases hgot : req.state_ = .GotAll
    · exact (hstate.resolve_left fun h => by rw [hgot] at h; cases h).2.1
    · -- the request goes on, so the connection was shut down before
      have hst : s.conn.state_ ≠ .Connected := by
        rw [hafter, after, if_neg hgot, hstate.resolve_right fun h => hgot h.1] at h
        exact fun hst => h.resolve_left (by decide)
          (stays_connected hp hs' hgot hst (hk.atStart hst))
      refine hvalid fun hline => ?_
      rw [hr]
      exact (hs.left hline hst).trans (List.infix_append' [] _ _)
  · rw [hframe.input, hafter, after]
    intro h _
    split_ifs at h with hgot
    · exact (hstate.resolve_left fun h => by rw [hgot] at h; cases h).2.2
    · exact absurd h (by rw [hstate.resolve_right fun h => hgot h.1]; decide)

/-- A chunk within a request is answered with the refusal, which does not end in the end of a line;
and where a call does not go through there is no state. -/
lemma step_broken (s : Session) (k : Chunk) (s' : Session) (hs : Inv s) (hf : Short s k)
    (hk : ¬ Begins s k) (h : receive s k = .ok s') : ¬ Output s' := by
  by_cases hstart : AtStart s k
  · obtain ⟨b, happ, hb, hr⟩ := (input_valid hs hstart).append k.bytes
    rw [receive, happ, ok_bind] at h
    obtain ⟨⟨ok, req, input⟩, hp, -⟩ := bind_ok_iff.mp h
    have hgoes := (goes_iff hb.write_le (by rw [hr]; exact hf)).mp ⟨ok, req, input, hp⟩
    exact absurd ((begins_iff hstart hb hr).mpr hgoes) hk
  · have hsend := (receive_sends hs.valid h).2 hstart
    rintro ⟨rs, hrs, hout⟩
    rw [hsend.sent, List.flatten_append, List.flatten_singleton] at hout
    have hlast : rs.flatten.getLast? = some 49 := by
      rw [← hout, List.getLast?_append]; rfl
    rcases flatten_last hrs with hnil | hlf
    · rw [hnil] at hlast; cases hlast
    · rw [hlf] at hlast; cases hlast

/-- **A run goes through and only complete responses are sent exactly when every chunk that arrives
on the connected connection finds the parser at a request line**, and no request line of the run
makes the parser leave the readable bytes. -/
theorem output_iff (chunks : List Chunk) (hf : Asks receive Short start chunks) :
    Always receive Output start chunks ↔ Asks receive Begins start chunks :=
  always_iff_asks step_total (fun _ => Inv.output) step_broken start_inv hf

lemma short_start {k : Chunk} (hk : k.bytes.length + 2 ≤ INT_MAX) : Short start k := by
  refine fits_of_length _ ?_
  rw [text, KeepAlive.start_between.rest, List.nil_append]
  exact hk

theorem output_iff_plainGet : Always receive Output start [⟨plainGet.text, some 64⟩] ↔
    Asks receive Begins start [⟨plainGet.text, some 64⟩] :=
  output_iff _ (asks_cons.mpr ⟨short_start (by decide), fun _ _ => asks_nil⟩)

/-- The request line in one chunk, and the blank line in the next. -/
def twoChunks : List Chunk := [⟨str "GET / HTTP/1.1\r\n", none⟩, ⟨CRLF, some 8⟩]

/-- A request in two chunks is answered with `HTTP/1.1`. -/
theorem refusal_cut_short : ¬ ∀ chunks : List Chunk, (∃ s, exec receive start chunks = .ok s) →
    Always receive Output start chunks := by
  intro h
  have hrun : (exec receive start twoChunks).toOption.map (fun s => (messages s.conn.log).flatten) =
      some refusal := by decide +kernel
  obtain ⟨s, hs, hout⟩ := exec_of_map hrun
  obtain ⟨t, ht, rs, hrs, he⟩ := h twoChunks ⟨s, hs⟩ twoChunks [] (by simp)
  obtain rfl := Except.ok.inj (hs.symm.trans ht)
  rw [hout] at he
  rcases flatten_last hrs with hnil | hlf
  · rw [← he] at hnil; cases hnil
  · rw [← he] at hlf; cases hlf

end MuduoZ.WholeResponses
