import MuduoZ.HttpFormat

/-!
Writing a request and parsing it.

The fields of a request are written as its text, the text is given to a fresh parser, and the
parser then holds the fields.
-/

namespace MuduoZ.HttpRoundTrip

open Search HttpRequest HttpFormat

/-- A header. The parser takes the colon and the spaces around the value away. -/
structure Header where
  name : Str
  value : Str
  colon : COLON ∉ name
  nameCR : CR ∉ name
  valueCR : CR ∉ value
  first : value.head? ≠ some SP
  last : value.getLast? ≠ some SP

/-- The fields of a request. -/
structure Message where
  verb : Verb
  path : Str
  query : Option Str
  protocol : Protocol
  headers : List Header
  pathSpace : SP ∉ path
  pathQuestion : QUESTION ∉ path
  pathCR : CR ∉ path
  querySpace : ∀ q, query = some q → SP ∉ q
  queryCR : ∀ q, query = some q → CR ∉ q

def Message.target (m : Message) : Str :=
  match m.query with
  | none => m.path
  | some q => m.path ++ QUESTION :: q

/-- `METHOD SP path[?query] SP VERSION CRLF (name: value CRLF)* CRLF` -/
def Message.text (m : Message) : Str :=
  m.verb.text ++ [SP] ++ m.target ++ [SP] ++ m.protocol.text ++ CRLF ++
    (m.headers.flatMap fun h => h.name ++ [COLON, SP] ++ h.value ++ CRLF) ++ CRLF

/-- The last value that is listed for a name. -/
def Message.lastValue (m : Message) (name : Str) : Option Str :=
  (m.headers.filter fun h => h.name = name).getLast?.map Header.value

/-! ### The request as a well-formed one -/

lemma no_crlf {u : Str} (h : CR ∉ u) : ¬ CRLF <:+: u :=
  fun hin => h (hin.subset List.mem_cons_self)

lemma Header.plain (h : Header) : ¬ CRLF <:+: h.name ++ COLON :: SP :: h.value := by
  refine no_crlf ?_
  simp only [List.mem_append, List.mem_cons, not_or]
  exact ⟨h.nameCR, by decide, by decide, h.valueCR⟩

def Header.line (h : Header) : HeaderLine := ⟨h.name, h.value, h.colon, h.plain⟩

lemma Message.target_space (m : Message) : SP ∉ m.target := by
  unfold target
  cases hq : m.query with
  | none => exact m.pathSpace
  | some q =>
    simp only [List.mem_append, List.mem_cons, not_or]
    exact ⟨m.pathSpace, by decide, m.querySpace q hq⟩

lemma Message.target_plain (m : Message) : ¬ CRLF <:+: m.target := by
  refine no_crlf ?_
  unfold target
  cases hq : m.query with
  | none => exact m.pathCR
  | some q =>
    simp only [List.mem_append, List.mem_cons, not_or]
    exact ⟨m.pathCR, by decide, m.queryCR q hq⟩

def Message.request (m : Message) : Request :=
  ⟨m.verb, m.target, m.protocol, m.headers.map Header.line, m.target_space, m.target_plain⟩

lemma Message.request_text (m : Message) : m.request.text = m.text := by
  simp [Request.text, Request.line, Message.text, request, headerText, HeaderLine.text,
    Header.line, List.flatMap_map]

/-! ### The fields that come back -/

lemma Message.request_path (m : Message) : m.request.path = m.path := by
  change m.target.take (m.target.idxOf QUESTION) = m.path
  unfold target
  cases m.query with
  | none => rw [List.idxOf_eq_length m.pathQuestion, List.take_length]
  | some q => rw [idxOf_append_cons m.pathQuestion, List.take_left]

lemma Message.request_query (m : Message) : m.request.query = m.query.getD [] := by
  change m.target.drop (m.target.idxOf QUESTION + 1) = m.query.getD []
  unfold target
  cases m.query with
  | none => rw [List.idxOf_eq_length m.pathQuestion]; simp
  | some q => rw [idxOf_append_cons m.pathQuestion, ← List.drop_drop, List.drop_left]; rfl

/-- A value without spaces around it stays as it is. -/
lemma Header.trim_value (h : Header) : trim h.value = h.value := by
  have hdrop : h.value.dropWhile (· = SP) = h.value := by
    cases hv : h.value with
    | nil => rfl
    | cons a v =>
      have ha : a ≠ SP := fun ha => h.first (by rw [hv, ha]; rfl)
      simp [ha]
  rw [trim, hdrop, List.rdropWhile_eq_self_iff]
  intro hne hsp
  refine h.last ?_
  rw [List.getLast?_eq_some_getLast hne]
  exact congrArg some (by simpa using hsp)

lemma Message.getHeader_request (m : Message) {name value : Str}
    (h : m.lastValue name = some value) : (m.request.parsed.getHeader name).1 = value := by
  have hlast : ((m.request.headers.filter fun h => h.name = name).getLast?.map
      fun h => trim h.value) = m.lastValue name := by
    rw [request, List.filter_map, List.getLast?_map, Option.map_map, lastValue]
    congr 1
    funext h
    exact h.trim_value
  rw [getHeader, Request.parsed, get?_headerMap, hlast, h]
  rfl

/-- **What was written is read back**: a text that the buffer is given in one call, whose length
is an `int`, is parsed to the fields it was written from. -/
theorem parse_text (m : Message) {b : Buffer} (hb : b.Valid) (hr : b.readable = [])
    (hlen : m.text.length ≤ INT_MAX) : ∃ b₁ r b₂, b.append m.text = .ok b₁ ∧
      HttpRequest.new.parseMessage b₁ = .ok (true, r, b₂) ∧ r.state_ = .GotAll ∧
      r.method_ = m.verb.method ∧ r.path_ = m.path ∧ r.query_ = m.query.getD [] ∧
      r.version_ = m.protocol.version ∧
      ∀ name value, m.lastValue name = some value → (r.getHeader name).1 = value := by
  obtain ⟨b₁, happ, hv, hr₁⟩ := hb.append m.text
  rw [hr, List.nil_append] at hr₁
  rw [← m.request_text] at hlen hr₁
  obtain ⟨b₂, hp, -, -⟩ := parseMessage_text m.request [] hv (by simpa using hr₁) hlen
  exact ⟨b₁, m.request.parsed, b₂, happ, hp, rfl, rfl, m.request_path, m.request_query, rfl,
    fun name value h => m.getHeader_request h⟩

/-- A request with a query and a header that is given twice. -/
def message : Message where
  verb := .get
  path := str "/index"
  query := some (str "a=1?")
  protocol := .http11
  headers := [
    ⟨str "Host", str "a b", by decide, by decide, by decide, by decide, by decide⟩,
    ⟨str "Host", str "c:d", by decide, by decide, by decide, by decide, by decide⟩]
  pathSpace := by decide
  pathQuestion := by decide
  pathCR := by decide
  querySpace := by rintro q ⟨⟩; decide
  queryCR := by rintro q ⟨⟩; decide

theorem parse_text_message : ∃ b₁ r b₂, Buffer.new.append message.text = .ok b₁ ∧
    HttpRequest.new.parseMessage b₁ = .ok (true, r, b₂) ∧ r.state_ = .GotAll ∧
    r.method_ = .Get ∧ r.path_ = str "/index" ∧ r.query_ = str "a=1?" ∧ r.version_ = .Http11 ∧
    ∀ name value, message.lastValue name = some value → (r.getHeader name).1 = value :=
  parse_text message (Buffer.new_valid 1024) (Buffer.new_readable 1024) (by decide)

end MuduoZ.HttpRoundTrip
