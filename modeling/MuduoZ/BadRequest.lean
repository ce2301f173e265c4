import MuduoZ.WholeResponses

/-!
The answer of `parseMessage` against the request line it has read.

The flag is set to `true` where a request line is read, whether or not the line was refused, and
stays `false` in a call that goes on with the headers.
-/

namespace MuduoZ.BadRequest

open Search Connection HttpRequest HttpLines RequestLine ParseMessage HttpServer WholeResponses

/-- The call reads a request line and refuses it. -/
def Refused (r : HttpRequest) (b : Buffer) : Prop :=
  r.state_ = .ExpectRequestLine ∧
    ∃ r', r.parseRequestLine (firstLine b.readable) = .ok (false, r')

/-- The call returns `false`, and the server answers with a refusal, exactly if a request line
was refused. -/
structure Exactly (r : HttpRequest) (b : Buffer) : Prop where
  flag : ∃ ok r' b', r.parseMessage b = .ok (ok, r', b') ∧ (ok = false ↔ Refused r b)
  answer : ∀ (s : Session) (written : Option ℕ), s.context_ = r → s.conn.inputBuffer_ = b →
    s.conn.state_ = .Connected → s.conn.outputBuffer_.Valid →
    ∃ s', onMessage s written = .ok s' ∧ (Sends s.conn s'.conn [refusal] ↔ Refused r b)

/-- The call begins at a request line, which is complete and well formed. -/
def WellBegun (r : HttpRequest) (b : Buffer) : Prop :=
  r.state_ = .ExpectRequestLine ∧ ∃ line rest, b.readable = line ++ CRLF ++ rest ∧ Plain line ∧
    ∃ v target p, IsLine line v target p

variable {r : HttpRequest} {b : Buffer}

lemma refusal_not_whole : ¬ Whole refusal := by
  intro h
  have hlast : refusal.getLast? = some 49 := rfl
  cases hlast.symm.trans h.last

lemma exactly_of_wellBegun (hb : b.Valid) (hfit : Fits r b.readable) (h : WellBegun r b) :
    Exactly r b := by
  obtain ⟨hst, line, rest, ht, hline, hl⟩ := h
  obtain ⟨r', hok⟩ : Accepts r line := accepts_iff.mpr hl
  have hno : ¬ Refused r b := by
    rintro ⟨-, r2, hr2⟩
    rw [firstLine_of_line ht hline, hok] at hr2
    cases hr2
  obtain ⟨-, r1, b1, hp, -⟩ := parseMessage_accepted hst hb ht hline hfit hok
  refine ⟨⟨true, r1, b1, hp, iff_of_false (by simp) hno⟩, fun s written hr hi hc hv => ?_⟩
  obtain ⟨s', hs', -⟩ := onMessage_total written hv (by rw [hr, hi]; exact hp)
  refine ⟨s', hs', iff_of_false (fun hsend => ?_) hno⟩
  obtain ⟨rs, hrs, hsend'⟩ := (onMessage_sends hv hs').1 fun _ => by rw [hr]; exact hst
  have heq : [refusal] = rs := List.append_cancel_left (hsend.sent.symm.trans hsend'.sent)
  exact refusal_not_whole (hrs refusal (by rw [← heq]; simp))

lemma valid_of_wellBegun (hw : b.writeIndex_ ≤ b.buffer_.length) (h : WellBegun r b) :
    b.Valid := by
  obtain ⟨-, line, rest, ht, -⟩ := h
  refine ⟨?_, hw⟩
  have hpos : 0 < b.readable.length := by rw [ht]; simp [CRLF]
  rw [Buffer.readable, List.length_drop, List.length_take_of_le hw] at hpos
  omega

/-- The flag is right only in a call that begins at a request line. -/
lemma request_of_flag {ok : Bool} {r' : HttpRequest} {b' : Buffer}
    (hp : r.parseMessage b = .ok (ok, r', b')) (hiff : ok = false ↔ Refused r b) :
    r.state_ = .ExpectRequestLine := by
  have hflag := HttpChunks.parseMessage_flag hp
  by_contra hne
  have hfalse : ok = false := by simpa [hne] using hflag
  exact hne (hiff.mp hfalse).1

lemma wellBegun_of_flag (hb : b.Valid) (hfit : Fits r b.readable) {ok : Bool} {r' : HttpRequest}
    {b' : Buffer} (hp : r.parseMessage b = .ok (ok, r', b')) (hiff : ok = false ↔ Refused r b) :
    WellBegun r b := by
  have hflag := HttpChunks.parseMessage_flag hp
  have hst := request_of_flag hp hiff
  have hno : ¬ Refused r b := fun h => by simp [hiff.mpr h, hst] at hflag
  refine ⟨hst, ?_⟩
  cases parseMessage_cases (.inl hst) hb hfit with
  | late _ _ he | unfinished _ _ _ he => cases he.symm.trans hp
  | cut _ ht _ _ r1 hline =>
    exact absurd ⟨hst, r1, by rwa [firstLine_of_plain ht]⟩ hno
  | refused _ ht hu _ r1 hline =>
    exact absurd ⟨hst, r1, by rwa [firstLine_of_line ht hu]⟩ hno
  | accepted _ ht hu _ hline => exact ⟨_, _, ht, hu, accepts_iff.mp hline⟩
  | headers hst' => rw [hst] at hst'; cases hst'

/-- **A bad request is recognised exactly when the call begins at a request line that is complete
and well formed**: then it returns `true`, as it should. -/
theorem exactly_iff (r : HttpRequest) (b : Buffer) (hw : b.writeIndex_ ≤ b.buffer_.length)
    (hfit : Fits r b.readable) : Exactly r b ↔ WellBegun r b := by
  constructor
  · rintro ⟨⟨ok, r', b', hp, hiff⟩, -⟩
    have hst := request_of_flag hp hiff
    exact wellBegun_of_flag ⟨read_le_of_ok (.inl hst) hp, hw⟩ hfit hp hiff
  · intro h
    exact exactly_of_wellBegun (valid_of_wellBegun hw h) hfit h

theorem exactly_iff_plainGet : Exactly .new (holding HttpFormat.plainGet.text) ↔
    WellBegun .new (holding HttpFormat.plainGet.text) :=
  exactly_iff .new _ (holding_valid _).write_le
    (fits_of_length _ (by rw [holding_readable]; decide))

/-- A request line with an unknown method is refused, and `true` is returned. -/
theorem refused_unnoticed : (holding (str "LIST / HTTP/1.1\r\n\r\n")).Valid ∧
    ¬ Exactly .new (holding (str "LIST / HTTP/1.1\r\n\r\n")) := by
  refine ⟨holding_valid _, fun h => ?_⟩
  obtain ⟨ok, r', b', hp, hiff⟩ := h.flag
  have hok : ok = true := (HttpChunks.parseMessage_flag hp).mpr rfl
  have href : Refused .new (holding (str "LIST / HTTP/1.1\r\n\r\n")) := by
    refine ⟨rfl, .new, ?_⟩
    rw [holding_readable]
    decide +kernel
  rw [hiff.mpr href] at hok
  cases hok

end MuduoZ.BadRequest
