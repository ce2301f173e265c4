import MuduoZ.HttpServer
import MuduoZ.Lib.Run

/-!
Requests one after the other on one connection.

The blank line of the first request is what the second one is taken to begin with. The server
gives no answer to an empty request line, and the second request is never answered.
-/

namespace MuduoZ.KeepAlive

open Connection HttpRequest HttpFormat HttpServer Runs

/-- A request that arrives as one chunk, and the result of the write of its answer. -/
structure Arrival where
  request : Request
  written : Option ℕ

def receive (s : Session) (a : Arrival) : Result Session := do
  let input ← s.conn.inputBuffer_.append a.request.text
  onMessage { s with conn := { s.conn with inputBuffer_ := input } } a.written

/-- `onConnection` gives a connection just established a fresh parser. -/
def start : Session := ⟨(Connection.new true false).connectEstablished, .new⟩

/-- The request asks to keep the connection. -/
structure Kept (q : Request) : Prop where
  http11 : q.protocol = .http11
  noClose : ∀ h ∈ q.headers, h.name = str "Connection" → trim h.value ≠ str "close"
  fits : q.text.length ≤ INT_MAX

def okResponse : HttpResponse :=
  { HttpResponse.new true with statusCode_ := .C200Ok, codeMsg_ := str "OK" }

/-- After every request so far there is one response more. -/
def Answered (as : List Arrival) : Prop :=
  ∀ pre post, as = pre ++ post → ∃ s, exec receive start pre = .ok s ∧
    messages s.conn.log = List.replicate pre.length okResponse.text

/-- After every request no byte of it is left. -/
def Consumed (as : List Arrival) : Prop :=
  ∀ pre post, as = pre ++ post → ∃ s, exec receive start pre = .ok s ∧
    s.conn.inputBuffer_.readable = []

/-! ### The first request -/

lemma keeps_parsed {q : Request} (hq : Kept q) : keeps q.parsed = true := by
  have hv : q.parsed.version_ = .Http11 := by
    rw [Request.parsed, hq.http11]; rfl
  have hne : (q.parsed.getHeader (str "Connection")).1 ≠ str "close" := by
    unfold getHeader
    cases hget : SortedMap.get? (str "Connection") q.parsed.headers_ with
    | none =>
      show ([] : Str) ≠ str "close"
      decide
    | some v =>
      rintro rfl
      rw [Request.parsed, get?_headerMap, SortedMap.get?, Option.or_none] at hget
      obtain ⟨h, hlast, hvalue⟩ := Option.map_eq_some_iff.mp hget
      obtain ⟨hmem, hname⟩ := List.mem_filter.mp (List.mem_of_getLast? hlast)
      exact hq.noClose h hmem (by simpa using hname) hvalue
  simp [keeps, hv, hne]

lemma reset_getHeader (req : HttpRequest) (name : Str) :
    (req.getHeader name).2.reset = .new := by
  unfold getHeader
  split <;> rfl

/-- The answer to a request that keeps the connection. -/
lemma answer_kept {c : Connection} {q : Request} (written : Option ℕ) (hq : Kept q)
    (hv : c.outputBuffer_.Valid) (hst : c.state_ = .Connected) :
    ∃ c', answer c q.parsed written = .ok ⟨c', .new⟩ ∧ c'.inputBuffer_ = c.inputBuffer_ ∧
      c'.outputBuffer_.Valid ∧ c'.state_ = .Connected ∧
      messages c'.log = messages c.log ++ [okResponse.text] := by
  obtain ⟨c', hsend, hrest⟩ := send_connected hv hst okResponse.text written
  refine ⟨c', ?_, hrest⟩
  rw [answer_eq, keeps_parsed hq, reset_getHeader]
  change (c.send true okResponse.text written >>= _) = _
  rw [hsend]
  rfl

/-- The server between two requests, with the bytes that are in its input buffer. -/
structure Between (s : Session) (rest : Str) : Prop where
  fresh : s.context_ = .new
  connected : s.conn.state_ = .Connected
  input : s.conn.inputBuffer_.Valid
  output : s.conn.outputBuffer_.Valid
  rest : s.conn.inputBuffer_.readable = rest

lemma start_between : Between start [] :=
  ⟨rfl, rfl, Buffer.new_valid 1024, Buffer.new_valid 1024, Buffer.new_readable 1024⟩

/-- A request that arrives at an empty buffer is answered, and its blank line stays. -/
lemma receive_first {s : Session} (hs : Between s []) {a : Arrival} (ha : Kept a.request) :
    ∃ s', receive s a = .ok s' ∧ Between s' CRLF ∧
      messages s'.conn.log = messages s.conn.log ++ [okResponse.text] := by
  obtain ⟨input, happ, hv, hr⟩ := hs.input.append a.request.text
  rw [hs.rest, List.nil_append] at hr
  obtain ⟨input', hp, hv', hr'⟩ :=
    parseMessage_text a.request [] hv (by rw [hr, List.append_nil]) ha.fits
  rw [← hs.fresh] at hp
  obtain ⟨c, hc, hin, hout, hst, hlog⟩ := answer_kept (c := { s.conn with inputBuffer_ := input' })
    a.written ha hs.output hs.connected
  refine ⟨⟨c, .new⟩, ?_, ⟨rfl, hst, by rwa [hin], hout, by rw [hin]; exact hr'⟩, hlog⟩
  rw [receive, happ]
  exact
    (onMessage_parsed (s := { s with conn := { s.conn with inputBuffer_ := input } }) _ hp).trans hc

/-- A request that arrives behind a blank line is not answered. -/
lemma receive_second {s : Session} (hs : Between s CRLF) {a : Arrival} :
    ∃ s', receive s a = .ok s' ∧ messages s'.conn.log = messages s.conn.log := by
  obtain ⟨input, happ, hv, hr⟩ := hs.input.append a.request.text
  rw [hs.rest] at hr
  obtain ⟨input', hp⟩ : ∃ input', s.context_.parseMessage input =
      .ok (true, { HttpRequest.new with state_ := .ExpectHeaders }, input') := by
    have hempty : HttpRequest.new.parseRequestLine [] = .ok (false, HttpRequest.new) := rfl
    rw [hs.fresh, parseMessage, parseLoop_requestLine (u := []) rfl hv hr (by decide) hempty]
    exact ⟨_, rfl⟩
  refine ⟨⟨{ s.conn with inputBuffer_ := input' }, { HttpRequest.new with
    state_ := .ExpectHeaders }⟩, ?_, rfl⟩
  rw [receive, happ]
  exact onMessage_parsed (s := { s with conn := { s.conn with inputBuffer_ := input } }) _ hp

/-! ### The run -/

lemma exec_one {a : Arrival} (ha : Kept a.request) : ∃ s, exec receive start [a] = .ok s ∧
    Between s CRLF ∧ messages s.conn.log = [okResponse.text] := by
  obtain ⟨s, hs, hb, hm⟩ := receive_first start_between ha
  exact ⟨s, by rw [exec_cons_ok _ hs]; rfl, hb, hm⟩

lemma exec_two {a b : Arrival} (ha : Kept a.request) : ∃ s, exec receive start [a, b] = .ok s ∧
    messages s.conn.log = [okResponse.text] := by
  obtain ⟨s, hs, hb, hm⟩ := receive_first start_between ha
  obtain ⟨s', hs', hm'⟩ := receive_second hb (a := b)
  exact ⟨s', by rw [exec_cons_ok _ hs, exec_cons_ok _ hs']; rfl, hm'.trans hm⟩

lemma answered_iff {as : List Arrival} (hq : ∀ a ∈ as, Kept a.request) :
    Answered as ↔ as.length ≤ 1 := by
  constructor
  · intro h
    rcases as with _ | ⟨a, _ | ⟨b, as⟩⟩
    · simp
    · simp
    · obtain ⟨s, hs, hm⟩ := h [a, b] as rfl
      obtain ⟨s', hs', hm'⟩ := exec_two (a := a) (b := b) (hq a (by simp))
      obtain rfl := Except.ok.inj (hs.symm.trans hs')
      have := congrArg List.length (hm.symm.trans hm')
      simp at this
  · rintro h pre post rfl
    rcases pre with _ | ⟨a, _ | ⟨b, pre⟩⟩
    · exact ⟨start, rfl, rfl⟩
    · obtain ⟨s, hs, -, hm⟩ := exec_one (hq a (by simp))
      exact ⟨s, hs, hm⟩
    · simp at h

lemma consumed_iff {as : List Arrival} (hq : ∀ a ∈ as, Kept a.request) :
    Consumed as ↔ as = [] := by
  constructor
  · intro h
    rcases as with _ | ⟨a, as⟩
    · rfl
    · obtain ⟨s, hs, hr⟩ := h [a] as rfl
      obtain ⟨s', hs', hb, -⟩ := exec_one (hq a (by simp))
      obtain rfl := Except.ok.inj (hs.symm.trans hs')
      exact absurd (hb.rest.symm.trans hr) (by decide)
  · rintro rfl pre post he
    obtain ⟨rfl, rfl⟩ := List.append_eq_nil_iff.mp he.symm
    exact ⟨start, rfl, start_between.rest⟩

/-- **Keep-alive works for no sequence of requests**: only the first one is answered, and not
even that one is taken out of the input buffer as a whole. -/
theorem keepAlive_iff (as : List Arrival) (hq : ∀ a ∈ as, Kept a.request) :
    (Answered as ∧ Consumed as ↔ as = []) ∧ (Answered as ↔ as.length ≤ 1) := by
  refine ⟨?_, answered_iff hq⟩
  rw [answered_iff hq, consumed_iff hq]
  constructor
  · exact fun h => h.2
  · rintro rfl; simp

/-- A plain request, whose answer the socket accepts whole. -/
def arrival : Arrival := ⟨plainGet, some 64⟩

lemma plainGet_kept : Kept arrival.request :=
  ⟨rfl, fun _ h => absurd h List.not_mem_nil, by decide⟩

theorem keepAlive_iff_plainGet :
    (Answered [arrival] ∧ Consumed [arrival] ↔ [arrival] = []) ∧
      (Answered [arrival] ↔ [arrival].length ≤ 1) :=
  keepAlive_iff [arrival] (by simpa using plainGet_kept)

/-- The second of two requests is not answered. -/
theorem second_unanswered : (∀ a ∈ [arrival, arrival], Kept a.request) ∧
    ¬ (Answered [arrival, arrival] ∧ Consumed [arrival, arrival]) := by
  have hq : ∀ a ∈ [arrival, arrival], Kept a.request := by
    simpa using plainGet_kept
  exact ⟨hq, fun h => absurd ((answered_iff hq).mp h.1) (by simp)⟩

end MuduoZ.KeepAlive
