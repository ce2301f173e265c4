import MuduoZ.HttpLines
import MuduoZ.RequestLine

/-!
What one call of `parseMessage` searches and consumes, against what is readable.

Where the call begins at a request line it takes for granted that the line is complete: of an
unfinished one it consumes the two bytes of a CRLF that is not there.
-/

namespace MuduoZ.ParseBounds

open Search HttpRequest HttpLines RequestLine

/-- The ranges the call searches begin before they end, it comes to an end, and when it returns
it has consumed no more than was readable. -/
structure Bounded (r : HttpRequest) (b : Buffer) : Prop where
  ranges : ∀ s ∈ searches r b, s.1 ≤ s.2
  ends : r.parseMessage b ≠ .error .fuel
  consumed : ∀ ok r' b', r.parseMessage b = .ok (ok, r', b') →
    b'.readIndex_ ≤ b.readIndex_ + b.getReadableLen ∧ b'.readIndex_ ≤ b'.writeIndex_

variable {r : HttpRequest} {b : Buffer}

lemma bounded_of_ok {ok : Bool} {r' : HttpRequest} {b' : Buffer} (hb : b.Valid)
    (hs : ∀ s ∈ searches r b, s.1 ≤ s.2)
    (h : r.parseMessage b = .ok (ok, r', b')) (hb' : b'.Valid)
    (hw : b'.writeIndex_ = b.writeIndex_) : Bounded r b := by
  refine ⟨hs, by rw [h]; simp, fun ok1 r1 b1 h1 => ?_⟩
  rw [h] at h1
  cases h1
  have hr := hb.read_le
  have hr' := hb'.read_le
  rw [hb.getReadableLen]
  omega

lemma bounded_of_error (hs : ∀ s ∈ searches r b, s.1 ≤ s.2)
    (h : r.parseMessage b = .error .range) : Bounded r b :=
  ⟨hs, by rw [h]; simp, fun ok r' b' h' => by rw [h] at h'; cases h'⟩

/-- A call that begins with headers. -/
lemma bounded_headers (hst : r.state_ = .ExpectHeaders) (hb : b.Valid) (hfit : Fits r b.readable) :
    Bounded r b := by
  obtain ⟨hs, r', b', hp, hw, hstop⟩ := headers_spec false (b.readable.length + 2) hst hb
    (fun w hw hc => hfit w (.header hst hw hc)) (by omega)
  exact bounded_of_ok hb hs hp hstop.valid hw

/-- A call that begins with a complete line. -/
lemma bounded_line (hst : r.state_ = .ExpectRequestLine) (hb : b.Valid) {u v : Str}
    (ht : b.readable = u ++ CRLF ++ v) (hu : Plain u) (hfit : Fits r b.readable) : Bounded r b := by
  have hfirst := firstLine_of_line ht hu
  have hr := hb.read_le
  rcases parseRequestLine_cases r u with ⟨-, he⟩ | ⟨-, ok, r', hok, -⟩
  · obtain ⟨hp, hs⟩ := parseMessage_error hst hb (by rw [hfirst]; exact he)
    exact bounded_of_error (by rw [hs]; simpa using hr) hp
  · cases ok with
    | false =>
      obtain ⟨hp, hs⟩ := parseMessage_refused hst hb (by rw [hfirst]; exact hok)
      obtain ⟨hb', -⟩ := consumed_line hb ht hu (hfit u (by rw [ht]; exact .request hst hu))
      exact bounded_of_ok hb (by rw [hs]; simpa using hr) hp hb' (consumed_write b)
    | true =>
      obtain ⟨hs, r1, b1, hp, hw, hstop⟩ := parseMessage_accepted hst hb ht hu hfit hok
      exact bounded_of_ok hb hs hp hstop.valid hw

/-- A call that begins with a line that has not ended. -/
lemma bounded_unfinished (hst : r.state_ = .ExpectRequestLine) (hb : b.Valid)
    (ht : Plain b.readable) (hfit : Fits r b.readable) :
    Bounded r b ↔ LateQuestion b.readable := by
  have hfirst := firstLine_of_plain ht
  rcases parseRequestLine_cases r b.readable with ⟨hl, he⟩ | ⟨hl, ok, r', hok, -⟩
  · obtain ⟨hp, hs⟩ := parseMessage_error hst hb (by rw [hfirst]; exact he)
    have hr := hb.read_le
    exact iff_of_true (bounded_of_error (by rw [hs]; simpa using hr) hp) hl
  · refine iff_of_false (fun h => ?_) hl
    cases ok with
    | false =>
      obtain ⟨hp, -⟩ := parseMessage_refused hst hb (by rw [hfirst]; exact hok)
      have hend := (h.consumed _ _ _ hp).2
      rw [consumed_unfinished hb ht (hfit _ (.unfinished hst ht)), consumed_write] at hend
      omega
    | true =>
      have hend := h.ranges _ (parseMessage_unfinished hst hb ht hfit hok).2
      omega

/-- **A call stays inside the readable bytes exactly when a request line it begins with is
complete**, or goes wrong before it is consumed. -/
theorem bounded_iff (r : HttpRequest) (b : Buffer) (hb : b.Valid) (hfit : Fits r b.readable) :
    Bounded r b ↔
      (r.state_ = .ExpectRequestLine → CRLF <:+: b.readable ∨ LateQuestion b.readable) := by
  cases hst : r.state_ with
  | ExpectRequestLine =>
    rcases plain_or_line b.readable with ht | ⟨u, v, hu, ht⟩
    · rw [bounded_unfinished hst hb ht hfit]
      exact ⟨fun h _ => .inr h, fun h => (h rfl).resolve_left ht⟩
    · exact iff_of_true (bounded_line hst hb ht hu hfit)
        fun _ => .inl (by rw [ht]; exact infix_line u v)
  | ExpectHeaders => exact iff_of_true (bounded_headers hst hb hfit) (by simp)
  | ExpectBody =>
    have hp : r.parseMessage b = .ok (false, { r with state_ := .GotAll }, b.haveReadAll) := by
      rw [parseMessage, parseLoop, hst]
      rfl
    exact iff_of_true (bounded_of_ok hb (by simp [searches, scans, hst]) hp hb.haveReadAll.1 rfl)
      (by simp)
  | GotAll =>
    have hp : r.parseMessage b = .ok (false, r, b.haveReadAll) := by
      rw [parseMessage, parseLoop, hst]
    exact iff_of_true (bounded_of_ok hb (by simp [searches, scans, hst]) hp hb.haveReadAll.1 rfl)
      (by simp)

theorem bounded_iff_plainGet : Bounded .new (holding HttpFormat.plainGet.text) ↔
    (HttpRequest.new.state_ = .ExpectRequestLine →
      CRLF <:+: (holding HttpFormat.plainGet.text).readable ∨
        LateQuestion (holding HttpFormat.plainGet.text).readable) :=
  bounded_iff .new _ (holding_valid _)
    (fits_of_length _ (by rw [holding_readable]; decide))

/-- A request line that has not ended yet: `GET / HTTP/1.1`. -/
theorem unfinished_line : (holding (str "GET / HTTP/1.1")).Valid ∧
    ¬ Bounded .new (holding (str "GET / HTTP/1.1")) :=
  ⟨holding_valid _, fun h => absurd h.ranges (by decide +kernel)⟩

end MuduoZ.ParseBounds
