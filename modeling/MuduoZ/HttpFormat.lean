import MuduoZ.HttpRequest

/-!
The text of a body-less request, and what the parser makes of it when it arrives whole.
-/

namespace MuduoZ.HttpFormat

open Search HttpRequest

inductive Verb
  | get | post | put | delete | head

def Verb.text : Verb → Str
  | .get => str "GET"
  | .post => str "POST"
  | .put => str "PUT"
  | .delete => str "DELETE"
  | .head => str "HEAD"

def Verb.method : Verb → Method
  | .get => .Get
  | .post => .Post
  | .put => .Put
  | .delete => .Delete
  | .head => .Head

inductive Protocol
  | http10 | http11

def Protocol.text : Protocol → Str
  | .http10 => str "HTTP/1.0"
  | .http11 => str "HTTP/1.1"

def Protocol.version : Protocol → Version
  | .http10 => .Http10
  | .http11 => .Http11

/-- A header line: the colon after the name is its first, and no CRLF occurs in it. -/
structure HeaderLine where
  name : Str
  value : Str
  colon : COLON ∉ name
  plain : ¬ CRLF <:+: name ++ COLON :: SP :: value

def HeaderLine.text (h : HeaderLine) : Str := h.name ++ COLON :: SP :: h.value

/-- A well-formed request without a body. -/
structure Request where
  verb : Verb
  target : Str
  protocol : Protocol
  headers : List HeaderLine
  space : SP ∉ target
  plain : ¬ CRLF <:+: target

def Request.line (q : Request) : Str :=
  q.verb.text ++ SP :: (q.target ++ SP :: q.protocol.text)

def headerText (hs : List HeaderLine) : Str := hs.flatMap fun h => h.text ++ CRLF

def Request.text (q : Request) : Str := q.line ++ CRLF ++ (headerText q.headers ++ CRLF)

def Request.path (q : Request) : Str := q.target.take (q.target.idxOf QUESTION)
def Request.query (q : Request) : Str := q.target.drop (q.target.idxOf QUESTION + 1)

/-- The headers as the parser stores them: of one name the last line wins. -/
def headerMap (hs : List HeaderLine) (m : List (Str × Str)) : List (Str × Str) :=
  hs.foldl (fun m h => SortedMap.set h.name (trim h.value) m) m

/-- The parser after the whole request. -/
def Request.parsed (q : Request) : HttpRequest :=
  ⟨.GotAll, q.verb.method, q.protocol.version, q.path, q.query, headerMap q.headers []⟩

/-- `GET / HTTP/1.1` without headers. -/
def plainGet : Request := ⟨.get, str "/", .http11, [], by decide, by decide⟩

/-! ### The request line -/

lemma Request.line_plain (q : Request) : ¬ CRLF <:+: q.line := by
  intro h
  rcases pair_infix_split (by decide) (by decide) h with h | h
  · revert h; cases q.verb <;> decide
  · rcases pair_infix_split (by decide) (by decide) h with h | h
    · exact q.plain h
    · revert h; cases q.protocol <;> decide

lemma setMethod_text (r : HttpRequest) (v : Verb) :
    r.setMethod v.text = (true, { r with method_ := v.method }) := by
  cases v <;> rfl

lemma setVersion_text (r : HttpRequest) (p : Protocol) :
    r.setVersion p.text = (true, { r with version_ := p.version }) := by
  cases p <;> rfl

lemma setTarget_target (r : HttpRequest) (q : Request) (hq : r.query_ = []) :
    r.setTarget (q.target ++ SP :: q.protocol.text)
        ((q.target ++ SP :: q.protocol.text).idxOf QUESTION) q.target.length =
      .ok { r with path_ := q.path, query_ := q.query } := by
  unfold setTarget Request.path Request.query
  by_cases hm : QUESTION ∈ q.target
  · have hlt := List.idxOf_lt_length_of_mem hm
    rw [List.idxOf_append_of_mem hm, if_neg (by simp; omega), if_pos (by omega),
      List.take_append_of_le_length hlt.le, List.take_left]
  · have hp : QUESTION ∉ SP :: q.protocol.text := by cases q.protocol <;> decide
    have hn : QUESTION ∉ q.target ++ SP :: q.protocol.text := by
      simp only [List.mem_append, not_or]; exact ⟨hm, hp⟩
    rw [if_pos (List.idxOf_eq_length hn), List.take_left, List.idxOf_eq_length hm]
    simp [hq, List.drop_eq_nil_of_le]

lemma parseRequestLine_line (r : HttpRequest) (q : Request) (hq : r.query_ = []) :
    r.parseRequestLine q.line = .ok (true, { r with
      method_ := q.verb.method, path_ := q.path, query_ := q.query,
      version_ := q.protocol.version }) := by
  have hv : q.line.idxOf SP = q.verb.text.length :=
    idxOf_append_cons (by cases q.verb <;> decide) _
  have hr : (q.target ++ SP :: q.protocol.text).idxOf SP = q.target.length :=
    idxOf_append_cons q.space _
  have hd : q.line.drop (q.verb.text.length + 1) = q.target ++ SP :: q.protocol.text := by
    rw [← List.drop_drop, Request.line, List.drop_left]; rfl
  have hd2 : (q.target ++ SP :: q.protocol.text).drop (q.target.length + 1) = q.protocol.text := by
    rw [← List.drop_drop, List.drop_left]; rfl
  have hp : 0 < q.protocol.text.length := by cases q.protocol <;> decide
  have hlen : q.line.length =
      q.verb.text.length + 1 + (q.target.length + 1 + q.protocol.text.length) := by
    simp [Request.line]; omega
  have h1 : q.verb.text.length ≠ q.line.length := by omega
  have h2 : q.verb.text.length + 1 ≠ q.line.length := by omega
  have htake : q.line.take q.verb.text.length = q.verb.text := by simp [Request.line]
  unfold parseRequestLine
  simp only [hv, htake, setMethod_text, hd, hr, if_neg h1, if_neg h2, Bool.not_true,
    Bool.false_eq_true, if_false]
  rw [if_neg (by simp), setTarget_target { r with method_ := q.verb.method } q hq]
  simp only [bind, Except.bind, hd2, setVersion_text]
  rw [if_neg (by simp only [List.length_append, List.length_cons]; omega)]

/-! ### The headers -/

lemma parseHeader_text (r : HttpRequest) (h : HeaderLine) :
    r.parseHeader h.text h.name.length =
      { r with headers_ := SortedMap.set h.name (trim h.value) r.headers_ } := by
  have hd : h.text.drop (h.name.length + 1) = SP :: h.value := by
    rw [← List.drop_drop, HeaderLine.text, List.drop_left]; rfl
  have ht : trim (SP :: h.value) = trim h.value := by simp [trim]
  rw [parseHeader, hd, ht, HeaderLine.text, List.take_left]

lemma headerText_cons (h : HeaderLine) (hs : List HeaderLine) :
    headerText (h :: hs) = h.text ++ CRLF ++ headerText hs := rfl

/-- Of one name the last line wins. -/
lemma get?_headerMap (hs : List HeaderLine) (m : List (Str × Str)) (name : Str) :
    SortedMap.get? name (headerMap hs m) =
      ((hs.filter fun h => h.name = name).getLast?.map fun h => trim h.value).or
        (SortedMap.get? name m) := by
  induction hs using List.reverseRecOn with
  | nil => rfl
  | append_singleton hs h ih =>
    have hset : headerMap (hs ++ [h]) m = SortedMap.set h.name (trim h.value) (headerMap hs m) :=
      List.foldl_concat ..
    rw [hset, SortedMap.get?_set, List.filter_append]
    by_cases hn : name = h.name
    · simp [hn]
    · simp [hn, Ne.symm hn, ih]

lemma length_le_headerText (hs : List HeaderLine) : hs.length ≤ (headerText hs).length := by
  induction hs with
  | nil => simp
  | cons h hs ih => rw [headerText_cons]; simp [CRLF]; omega

/-- Consuming a line and the CRLF after it. -/
lemma consume_line {b : Buffer} (hb : b.Valid) {u v : Str} (h : b.readable = u ++ CRLF ++ v)
    (hu : u.length + 2 ≤ INT_MAX) :
    (b.haveReadForLen (toInt (u.length + 2 : ℕ))).Valid ∧
      (b.haveReadForLen (toInt (u.length + 2 : ℕ))).readable = v := by
  have hl : u.length + 2 = (u ++ CRLF).length := by simp [CRLF]
  rw [toInt_of_le hu]
  obtain ⟨hv, hr⟩ := hb.haveReadForLen (n := u.length + 2) (by rw [h]; simp [CRLF])
  exact ⟨hv, by rw [hr, h, hl, List.drop_left]⟩

variable {r : HttpRequest} {b : Buffer} {u v : Str} {fuel : ℕ} {succeed : Bool}

lemma search_line (h : b.readable = u ++ CRLF ++ v) (hu : ¬ CRLF <:+: u) :
    search CRLF b.readable = u.length := by
  rw [h, List.append_assoc]
  exact search_pair (c := CR) (d := LF) (by decide) hu v

/-- The first line, taken for a request line. -/
lemma parseLoop_requestLine (hst : r.state_ = .ExpectRequestLine) (hb : b.Valid)
    (h : b.readable = u ++ CRLF ++ v) (hu : ¬ CRLF <:+: u) {ok : Bool} {r' : HttpRequest}
    (hp : r.parseRequestLine u = .ok (ok, r')) :
    parseLoop (fuel + 1) r b succeed =
      if ok then parseLoop fuel { r' with state_ := .ExpectHeaders }
        (b.haveReadForLen (toInt (u.length + 2 : ℕ))) true
      else .ok (true, { r' with state_ := .ExpectHeaders },
        b.haveReadForLen (toInt (u.length + 2 : ℕ))) := by
  have ht : b.readable.take u.length = u := by rw [h, List.append_assoc, List.take_left]
  rw [parseLoop, hst]
  simp only [search_line h hu, ht, hp]
  rw [if_neg (not_lt.mpr hb.read_le)]
  rfl

/-- A line with a colon is stored as a header. -/
lemma parseLoop_header (hst : r.state_ = .ExpectHeaders) (hb : b.Valid)
    (h : b.readable = u ++ CRLF ++ v) (hu : ¬ CRLF <:+: u) (hc : COLON ∈ u) :
    parseLoop (fuel + 1) r b succeed = parseLoop fuel (r.parseHeader u (u.idxOf COLON))
      (b.haveReadForLen (toInt (u.length + 2 : ℕ))) succeed := by
  have ht : b.readable.take u.length = u := by rw [h, List.append_assoc, List.take_left]
  have hlt := List.idxOf_lt_length_of_mem hc
  rw [parseLoop, hst]
  simp only [search_line h hu, ht]
  rw [if_neg (not_lt.mpr hb.read_le), if_neg (by rw [h]; simp [CRLF]), if_pos hlt.ne]

/-- A line without a colon ends the request and stays where it is. -/
lemma parseLoop_blank (hst : r.state_ = .ExpectHeaders) (hb : b.Valid)
    (h : b.readable = u ++ CRLF ++ v) (hu : ¬ CRLF <:+: u) (hc : COLON ∉ u) :
    parseLoop (fuel + 1) r b succeed = .ok (succeed, { r with state_ := .GotAll }, b) := by
  have ht : b.readable.take u.length = u := by rw [h, List.append_assoc, List.take_left]
  rw [parseLoop, hst]
  simp only [search_line h hu, ht, List.idxOf_eq_length hc]
  rw [if_neg (not_lt.mpr hb.read_le), if_neg (by rw [h]; simp [CRLF]), if_neg (by simp)]

/-- **The header loop** stores the headers and stops in front of the blank line. -/
lemma parseLoop_headers (hs : List HeaderLine) (rest : Str) (succeed : Bool) :
    ∀ (fuel : ℕ) (r : HttpRequest) (b : Buffer), hs.length < fuel → r.state_ = .ExpectHeaders →
      b.Valid → b.readable = headerText hs ++ CRLF ++ rest →
      (headerText hs).length + 2 ≤ INT_MAX →
      ∃ b', parseLoop fuel r b succeed =
          .ok (succeed, { r with state_ := .GotAll, headers_ := headerMap hs r.headers_ }, b') ∧
        b'.Valid ∧ b'.readable = CRLF ++ rest := by
  induction hs with
  | nil =>
    intro fuel r b hf hst hb hrd _
    obtain ⟨fuel, rfl⟩ : ∃ k, fuel = k + 1 := ⟨fuel - 1, by simp at hf; omega⟩
    exact ⟨b, parseLoop_blank (u := []) hst hb hrd (by decide) (by simp), hb, hrd⟩
  | cons h hs ih =>
    intro fuel r b hf hst hb hrd hlen
    obtain ⟨fuel, rfl⟩ : ∃ k, fuel = k + 1 := ⟨fuel - 1, by simp at hf; omega⟩
    have hrd' : b.readable = h.text ++ CRLF ++ (headerText hs ++ CRLF ++ rest) := by
      rw [hrd, headerText_cons]; simp only [List.append_assoc]
    rw [headerText_cons] at hlen
    simp only [List.length_append, CRLF, List.length_cons, List.length_nil] at hlen
    obtain ⟨hb', hbr⟩ := consume_line hb hrd' (by omega)
    have hcol : h.text.idxOf COLON = h.name.length := idxOf_append_cons h.colon _
    obtain ⟨b', hp, hv', hr'⟩ := ih fuel (r.parseHeader h.text h.name.length)
      (b.haveReadForLen (toInt (h.text.length + 2 : ℕ))) (by simp at hf; omega)
      (by rw [parseHeader_text]; exact hst) hb' hbr (by omega)
    refine ⟨b', ?_, hv', hr'⟩
    rw [parseLoop_header hst hb hrd' h.plain (by simp [HeaderLine.text]), hcol, hp,
      parseHeader_text]
    simp [headerMap]

/-- **A whole request is parsed in one call**, which leaves its blank line in the buffer. -/
theorem parseMessage_text (q : Request) (rest : Str) (hb : b.Valid)
    (hrd : b.readable = q.text ++ rest) (hlen : q.text.length ≤ INT_MAX) :
    ∃ b', HttpRequest.new.parseMessage b = .ok (true, q.parsed, b') ∧ b'.Valid ∧
      b'.readable = CRLF ++ rest := by
  have hrd' : b.readable = q.line ++ CRLF ++ (headerText q.headers ++ CRLF ++ rest) := by
    rw [hrd, Request.text]; simp only [List.append_assoc]
  simp only [Request.text, List.length_append, CRLF, List.length_cons, List.length_nil] at hlen
  obtain ⟨hb', hbr⟩ := consume_line hb hrd' (by omega)
  have hfuel : q.headers.length < b.readable.length + 1 := by
    have := length_le_headerText q.headers
    rw [hrd']; simp only [List.length_append]; omega
  obtain ⟨b', hp, hv', hr'⟩ := parseLoop_headers q.headers rest true (b.readable.length + 1)
    ⟨.ExpectHeaders, q.verb.method, q.protocol.version, q.path, q.query, []⟩ _ hfuel rfl hb' hbr
    (by omega)
  refine ⟨b', ?_, hv', hr'⟩
  rw [parseMessage, parseLoop_requestLine rfl hb hrd' q.line_plain
    (parseRequestLine_line _ q rfl), if_pos rfl]
  exact hp

end MuduoZ.HttpFormat
