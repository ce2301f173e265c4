import MuduoZ.HttpLines
import MuduoZ.RequestLine

/-!
All the ways in which a call of `parseMessage` ends, and when it does not go through.

A request line that cannot be cut into its parts, and one that is accepted before it has ended,
make the call leave the readable bytes. A line that is refused before it has ended is consumed with
two bytes that are not there, and it is the next call that finds the positions out of order.
-/

namespace MuduoZ.ParseMessage

open HttpRequest HttpLines RequestLine

/-- The line is taken for a request line. -/
def Accepts (r : HttpRequest) (line : Str) : Prop :=
  ∃ r', r.parseRequestLine line = .ok (true, r')

/-- What the call has in front of it, and how it ends. -/
inductive Outcome (r : HttpRequest) (b : Buffer) : Prop
  | late (hst : r.state_ = .ExpectRequestLine) (hline : LateQuestion (firstLine b.readable))
    (h : r.parseMessage b = .error .range)
  | unfinished (hst : r.state_ = .ExpectRequestLine) (ht : Plain b.readable)
    (hline : ∃ v target p, IsLine b.readable v target p) (h : r.parseMessage b = .error .range)
  | cut (hst : r.state_ = .ExpectRequestLine) (ht : Plain b.readable)
    (hlate : ¬ LateQuestion b.readable) (hline : ∀ v target p, ¬ IsLine b.readable v target p)
    (r' : HttpRequest) (hp : r.parseRequestLine b.readable = .ok (false, r'))
    (h : r.parseMessage b = .ok (true, { r' with state_ := .ExpectHeaders }, consumed b))
  | refused (hst : r.state_ = .ExpectRequestLine) {u v : Str} (ht : b.readable = u ++ CRLF ++ v)
    (hu : Plain u) (hlate : ¬ LateQuestion u) (r' : HttpRequest)
    (hp : r.parseRequestLine u = .ok (false, r'))
    (h : r.parseMessage b = .ok (true, { r' with state_ := .ExpectHeaders }, consumed b))
    (hv : (consumed b).Valid)
  | accepted (hst : r.state_ = .ExpectRequestLine) {u v : Str} (ht : b.readable = u ++ CRLF ++ v)
    (hu : Plain u) (hlate : ¬ LateQuestion u) (hp : Accepts r u) (r' : HttpRequest) (b' : Buffer)
    (h : r.parseMessage b = .ok (true, r', b')) (hstop : Stops v r' b')
  | headers (hst : r.state_ = .ExpectHeaders) (r' : HttpRequest) (b' : Buffer)
    (h : r.parseMessage b = .ok (false, r', b')) (hstop : Stops b.readable r' b')

/-- The positions are in order; and a request line that the call begins with can be cut into its
parts, and has ended or is refused. -/
structure Goes (r : HttpRequest) (b : Buffer) : Prop where
  order : r.state_ = .ExpectRequestLine ∨ r.state_ = .ExpectHeaders → b.readIndex_ ≤ b.writeIndex_
  onTime : r.state_ = .ExpectRequestLine → ¬ LateQuestion (firstLine b.readable)
  ended : r.state_ = .ExpectRequestLine → Plain b.readable →
    ∀ v target p, ¬ IsLine b.readable v target p

variable {r r' : HttpRequest} {b b' : Buffer} {ok : Bool}

/-- What is accepted is a request line. -/
lemma accepts_iff {line : Str} : Accepts r line ↔ ∃ v target p, IsLine line v target p := by
  rcases parseRequestLine_cases r line with ⟨hl, he⟩ | ⟨-, ok, r', hok, hline, -⟩
  · refine iff_of_false (fun ⟨r', h⟩ => ?_) fun ⟨v, t, p, h⟩ => not_late_of_isLine h hl
    cases he.symm.trans h
  · rw [← hline]
    constructor
    · rintro ⟨r1, h⟩
      exact congrArg Prod.fst (Except.ok.inj (hok.symm.trans h))
    · rintro rfl
      exact ⟨r', hok⟩

/-- **All that a call does** at a request line or within the headers. -/
theorem parseMessage_cases (hst : r.state_ = .ExpectRequestLine ∨ r.state_ = .ExpectHeaders)
    (hb : b.Valid) (hfit : Fits r b.readable) : Outcome r b := by
  rcases hst with hst | hst
  · rcases plain_or_line b.readable with ht | ⟨u, v, hu, ht⟩
    · have hfirst := firstLine_of_plain ht
      rcases parseRequestLine_cases r b.readable with ⟨hl, he⟩ | ⟨hl, ok, r', hok, hline, -⟩
      · exact .late hst (by rwa [hfirst]) (parseMessage_error hst hb (by rwa [hfirst])).1
      · cases ok with
        | false =>
          refine .cut hst ht hl (fun v t p h => ?_) r' hok
            (parseMessage_refused hst hb (by rwa [hfirst])).1
          exact absurd (hline.mpr ⟨v, t, p, h⟩) (by decide)
        | true =>
          exact .unfinished hst ht (hline.mp rfl) (parseMessage_unfinished hst hb ht hfit hok).1
    · have hfirst := firstLine_of_line ht hu
      rcases parseRequestLine_cases r u with ⟨hl, he⟩ | ⟨hl, ok, r', hok, -⟩
      · exact .late hst (by rwa [hfirst]) (parseMessage_error hst hb (by rwa [hfirst])).1
      · cases ok with
        | false =>
          obtain ⟨hv, -⟩ := consumed_line hb ht hu (hfit u (by rw [ht]; exact .request hst hu))
          exact .refused hst ht hu hl r' hok (parseMessage_refused hst hb (by rwa [hfirst])).1 hv
        | true =>
          obtain ⟨-, r1, b1, hp, -, hstop⟩ := parseMessage_accepted hst hb ht hu hfit hok
          exact .accepted hst ht hu hl ⟨r', hok⟩ r1 b1 hp hstop
  · obtain ⟨-, r1, b1, hp, -, hstop⟩ := headers_spec false (b.readable.length + 2) hst hb
      (fun w hw hc => hfit w (.header hst hw hc)) (by omega)
    exact .headers hst r1 b1 hp hstop

/-- **A call goes through exactly** when the positions are in order and its request line is not
accepted before it has ended. -/
theorem goes_iff (hw : b.writeIndex_ ≤ b.buffer_.length) (hfit : Fits r b.readable) :
    (∃ ok r' b', r.parseMessage b = .ok (ok, r', b')) ↔ Goes r b := by
  by_cases hst : r.state_ = .ExpectRequestLine ∨ r.state_ = .ExpectHeaders
  · by_cases hr : b.readIndex_ ≤ b.writeIndex_
    · have hgoes : Goes r b ↔ (r.state_ = .ExpectRequestLine →
          ¬ LateQuestion (firstLine b.readable) ∧
            (Plain b.readable → ∀ v target p, ¬ IsLine b.readable v target p)) :=
        ⟨fun h hst => ⟨h.onTime hst, h.ended hst⟩,
          fun h => ⟨fun _ => hr, fun hst => (h hst).1, fun hst => (h hst).2⟩⟩
      rw [hgoes]
      cases parseMessage_cases hst ⟨hr, hw⟩ hfit with
      | late hst hline h =>
        exact iff_of_false (by simp [h]) fun hg => (hg hst).1 hline
      | unfinished hst ht hline h =>
        obtain ⟨v, t, p, hl⟩ := hline
        exact iff_of_false (by simp [h]) fun hg => (hg hst).2 ht v t p hl
      | cut hst ht hlate hline r' _ h =>
        exact iff_of_true ⟨_, _, _, h⟩ fun _ => ⟨by rwa [firstLine_of_plain ht], fun _ => hline⟩
      | refused hst ht hu hlate r' hp h hv =>
        exact iff_of_true ⟨_, _, _, h⟩ fun _ => ⟨by rwa [firstLine_of_line ht hu],
          fun hplain => absurd (by rw [ht]; exact infix_line _ _) hplain⟩
      | accepted hst ht hu hlate hp r' b' h hstop =>
        exact iff_of_true ⟨_, _, _, h⟩ fun _ => ⟨by rwa [firstLine_of_line ht hu],
          fun hplain => absurd (by rw [ht]; exact infix_line _ _) hplain⟩
      | headers hst' r' b' h hstop =>
        exact iff_of_true ⟨_, _, _, h⟩ fun hst => by rw [hst] at hst'; cases hst'
    · exact iff_of_false (fun ⟨_, _, _, h⟩ => hr (read_le_of_ok hst h)) fun hg => hr (hg.order hst)
  · obtain ⟨h1, h2⟩ := not_or.mp hst
    refine iff_of_true ?_ ⟨fun h => absurd h hst, fun h => absurd h h1, fun h => absurd h h1⟩
    cases h : r.state_ with
    | ExpectRequestLine | ExpectHeaders => simp_all
    | ExpectBody => exact ⟨false, _, _, by rw [parseMessage, parseLoop, h]; rfl⟩
    | GotAll => exact ⟨false, r, _, by rw [parseMessage, parseLoop, h]⟩

/-- What a call that goes through leaves: it waits for more of the headers, or has come to their
end; and where it began with headers or a complete line the positions are still in order. -/
structure Leaves (r : HttpRequest) (b : Buffer) (r' : HttpRequest) (b' : Buffer) : Prop where
  state : r'.state_ = .ExpectHeaders ∨ r'.state_ = .GotAll ∧ b'.Valid ∧ CRLF <:+: b'.readable
  valid : (r.state_ = .ExpectRequestLine → CRLF <:+: b.readable) → b'.Valid

lemma leaves_of_stops {t : Str} (h : Stops t r' b') : Leaves r b r' b' := by
  refine ⟨?_, fun _ => h.valid⟩
  rcases h.state with ⟨hst, -⟩ | ⟨hst, u, v, -, -, -, hr⟩
  · exact .inl hst
  · exact .inr ⟨hst, h.valid, by rw [hr]; exact infix_line u v⟩

lemma parseMessage_leaves (hst : r.state_ = .ExpectRequestLine ∨ r.state_ = .ExpectHeaders)
    (hb : b.Valid) (hfit : Fits r b.readable) (h : r.parseMessage b = .ok (ok, r', b')) :
    Leaves r b r' b' := by
  cases parseMessage_cases hst hb hfit with
  | late _ _ he | unfinished _ _ _ he => cases he.symm.trans h
  | cut hst ht _ _ r1 _ h1 =>
    cases h1.symm.trans h
    exact ⟨.inl rfl, fun hc => absurd (hc hst) ht⟩
  | refused _ _ _ _ r1 _ h1 hv =>
    cases h1.symm.trans h
    exact ⟨.inl rfl, fun _ => hv⟩
  | accepted _ _ _ _ _ r1 b1 h1 hstop | headers _ r1 b1 h1 hstop =>
    cases h1.symm.trans h
    exact leaves_of_stops hstop

end MuduoZ.ParseMessage
