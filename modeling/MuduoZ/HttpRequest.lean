import Mathlib.Data.List.DropRight
import MuduoZ.Buffer
import MuduoZ.Lib.Search
import MuduoZ.Lib.SortedMap

/-!
The request parser of the HTTP server: a state machine that reads lines off a buffer.
-/

namespace MuduoZ

open Search

namespace HttpRequest

inductive State
  | ExpectRequestLine | ExpectHeaders | ExpectBody | GotAll
  deriving DecidableEq, Repr

inductive Method
  | Invalid | Get | Post | Put | Delete | Head
  deriving DecidableEq, Repr

inductive Version
  | Unknown | Http10 | Http11
  deriving DecidableEq, Repr

end HttpRequest

open HttpRequest in
structure HttpRequest where
  state_ : State
  method_ : Method
  version_ : Version
  path_ : Str
  query_ : Str
  headers_ : List (Str × Str)
  deriving DecidableEq, Repr

abbrev CR : UInt8 := 13
abbrev LF : UInt8 := 10
abbrev SP : UInt8 := 32
abbrev COLON : UInt8 := 58
abbrev QUESTION : UInt8 := 63

def CRLF : Str := [CR, LF]

namespace HttpRequest

def new : HttpRequest := ⟨.ExpectRequestLine, .Invalid, .Unknown, [], [], []⟩

/-- `headers_[name]`, which stores an empty value under a name it does not hold. -/
def getHeader (r : HttpRequest) (name : Str) : Str × HttpRequest :=
  match SortedMap.get? name r.headers_ with
  | some v => (v, r)
  | none => ([], { r with headers_ := SortedMap.set name [] r.headers_ })

def reset (r : HttpRequest) : HttpRequest :=
  { r with state_ := .ExpectRequestLine, method_ := .Invalid, version_ := .Unknown,
           path_ := [], query_ := [], headers_ := [] }

def setMethod (r : HttpRequest) (s : Str) : Bool × HttpRequest :=
  if s = str "GET" then (true, { r with method_ := .Get })
  else if s = str "POST" then (true, { r with method_ := .Post })
  else if s = str "PUT" then (true, { r with method_ := .Put })
  else if s = str "DELETE" then (true, { r with method_ := .Delete })
  else if s = str "HEAD" then (true, { r with method_ := .Head })
  else (false, { r with method_ := .Invalid })

def setVersion (r : HttpRequest) (s : Str) : Bool × HttpRequest :=
  if s = str "HTTP/1.0" then (true, { r with version_ := .Http10 })
  else if s = str "HTTP/1.1" then (true, { r with version_ := .Http11 })
  else (false, { r with version_ := .Unknown })

/-- `path_` and `query_` from what follows the method; the query is a range from the byte after
the first question mark to the first space, whichever of the two comes first. -/
def setTarget (r : HttpRequest) (rest : Str) (question space : ℕ) : Result HttpRequest :=
  if question = rest.length then .ok { r with path_ := rest.take space }
  else if question + 1 ≤ space then
    .ok { r with path_ := rest.take question, query_ := (rest.take space).drop (question + 1) }
  else .error .range

/-- `parseRequestLine(start, crlf)` on the bytes of the range. -/
def parseRequestLine (r : HttpRequest) (line : Str) : Result (Bool × HttpRequest) :=
  let space := line.idxOf SP
  if space = line.length then .ok (false, r)
  else
    let (ok, r) := r.setMethod (line.take space)
    if !ok then .ok (false, r)
    else if space + 1 = line.length then .ok (false, r)
    else
      let rest := line.drop (space + 1)
      let question := rest.idxOf QUESTION
      let space := rest.idxOf SP
      if space = rest.length then .ok (false, r)
      else do
        let r ← r.setTarget rest question space
        if space + 1 = rest.length then .ok (false, r)
        else .ok (r.setVersion (rest.drop (space + 1)))

/-- The value of a header: what follows the colon, without the spaces around it. -/
def trim (s : Str) : Str := (s.dropWhile (· = SP)).rdropWhile (· = SP)

/-- `parseHeader(start, colon, CRLF)` on the bytes of the line. -/
def parseHeader (r : HttpRequest) (line : Str) (colon : ℕ) : HttpRequest :=
  { r with
    headers_ := SortedMap.set (line.take colon) (trim (line.drop (colon + 1))) r.headers_ }

/-- The loop of `parseMessage`; leaving it is `hasMore = false`. -/
def parseLoop : ℕ → HttpRequest → Buffer → Bool → Result (Bool × HttpRequest × Buffer)
  | 0, _, _, _ => .error .fuel
  | fuel + 1, r, buf, succeed =>
    match r.state_ with
    | .ExpectRequestLine =>
      if buf.writeIndex_ < buf.readIndex_ then .error .range
      else
        let crlf := search CRLF buf.readable
        do
          let (ok, r) ← r.parseRequestLine (buf.readable.take crlf)
          -- the line is consumed whether or not a CRLF ends it
          let buf := buf.haveReadForLen (toInt (crlf + 2 : ℕ))
          let r := { r with state_ := .ExpectHeaders }
          if ok then parseLoop fuel r buf true else .ok (true, r, buf)
    | .ExpectHeaders =>
      if buf.writeIndex_ < buf.readIndex_ then .error .range
      else
        let crlf := search CRLF buf.readable
        if crlf = buf.readable.length then .ok (succeed, r, buf)
        else
          let line := buf.readable.take crlf
          let colon := line.idxOf COLON
          -- `state_ == ExpectBody;` is a comparison: the state stays ExpectHeaders
          if colon ≠ line.length then
            parseLoop fuel (r.parseHeader line colon)
              (buf.haveReadForLen (toInt (crlf + 2 : ℕ))) succeed
          -- the blank line is not consumed
          else .ok (succeed, { r with state_ := .GotAll }, buf)
    | .ExpectBody => parseLoop fuel { r with state_ := .GotAll } buf succeed
    | .GotAll => .ok (succeed, r, buf.haveReadAll)

def parseMessage (r : HttpRequest) (buf : Buffer) : Result (Bool × HttpRequest × Buffer) :=
  parseLoop (buf.readable.length + 2) r buf false

/-- **What a round of the loop does**, by the state it begins in: it returns, or goes on. -/
lemma parseLoop_cases {fuel : ℕ} {r r' : HttpRequest} {buf buf' : Buffer} {succeed ok : Bool}
    (h : parseLoop (fuel + 1) r buf succeed = .ok (ok, r', buf')) :
    match r.state_ with
    | .ExpectRequestLine => ∃ (r₁ : HttpRequest) (len : ℤ),
      parseLoop fuel { r₁ with state_ := .ExpectHeaders } (buf.haveReadForLen len) true =
          .ok (ok, r', buf') ∨
        ok = true ∧ r' = { r₁ with state_ := .ExpectHeaders } ∧ buf' = buf.haveReadForLen len
    | .ExpectHeaders =>
      (ok = succeed ∧ buf' = buf ∧ (r' = r ∨ r' = { r with state_ := .GotAll })) ∨
        ∃ (line : Str) (colon : ℕ) (len : ℤ),
          parseLoop fuel (r.parseHeader line colon) (buf.haveReadForLen len) succeed =
            .ok (ok, r', buf')
    | .ExpectBody => parseLoop fuel { r with state_ := .GotAll } buf succeed = .ok (ok, r', buf')
    | .GotAll => ok = succeed ∧ r' = r ∧ buf' = buf.haveReadAll := by
  rw [parseLoop] at h
  cases hst : r.state_ with
  | ExpectRequestLine =>
    rw [hst] at h
    dsimp only at h ⊢
    split at h
    · cases h
    · obtain ⟨⟨ok', r₁⟩, -, h⟩ := bind_ok_iff.mp h
      dsimp only at h
      split at h
      · exact ⟨r₁, _, .inl h⟩
      · cases h
        exact ⟨r₁, _, .inr ⟨rfl, rfl, rfl⟩⟩
  | ExpectHeaders =>
    rw [hst] at h
    dsimp only at h ⊢
    split at h
    · cases h
    · split at h
      · cases h
        exact .inl ⟨rfl, rfl, .inl rfl⟩
      · split at h
        · exact .inr ⟨_, _, _, h⟩
        · cases h
          exact .inl ⟨rfl, rfl, .inr rfl⟩
  | ExpectBody =>
    rw [hst] at h
    exact h
  | GotAll =>
    rw [hst] at h
    cases h
    exact ⟨rfl, rfl, rfl⟩

end HttpRequest

end MuduoZ
