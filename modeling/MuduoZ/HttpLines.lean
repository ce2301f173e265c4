import MuduoZ.HttpFormat

/-!
One call of `parseMessage` on whatever bytes there are: the lines it reads, the ranges it searches
and where it stops.

A line without a colon ends the header block, and so does the end of the complete lines. A line is
left behind by an `int` count of its bytes, so the walk from line to line is the expected one as
long as an `int` holds the lengths.
-/

namespace MuduoZ.HttpLines

open Search HttpRequest HttpFormat

/-- No line ends in it. -/
def Plain (u : Str) : Prop := ¬ CRLF <:+: u

/-- A complete line of a header block: every line in front of it has a colon. -/
inductive Line : Str → Str → Prop
  | here {u v : Str} (hu : Plain u) : Line (u ++ CRLF ++ v) u
  | next {u v w : Str} (hu : Plain u) (hc : COLON ∈ u) (hw : Line v w) : Line (u ++ CRLF ++ v) w

/-- A line the call may count the bytes of, in the readable text. -/
inductive Counted (r : HttpRequest) : Str → Str → Prop
  | request {u v : Str} (hst : r.state_ = .ExpectRequestLine) (hu : Plain u) :
      Counted r (u ++ CRLF ++ v) u
  | unfinished {t : Str} (hst : r.state_ = .ExpectRequestLine) (ht : Plain t) : Counted r t t
  | later {u v w : Str} {r' : HttpRequest} (hst : r.state_ = .ExpectRequestLine) (hu : Plain u)
      (hp : r.parseRequestLine u = .ok (true, r')) (hw : Line v w) (hc : COLON ∈ w) :
      Counted r (u ++ CRLF ++ v) w
  | header {t w : Str} (hst : r.state_ = .ExpectHeaders) (hw : Line t w) (hc : COLON ∈ w) :
      Counted r t w

/-- An `int` holds the length of every line the call may count, with its CRLF. -/
def Fits (r : HttpRequest) (t : Str) : Prop := ∀ u, Counted r t u → u.length + 2 ≤ INT_MAX

/-- The line that ends the header block, where it is complete. -/
inductive Ends (r : HttpRequest) : Str → Str → Prop
  | later {u v w : Str} {r' : HttpRequest} (hst : r.state_ = .ExpectRequestLine) (hu : Plain u)
      (hp : r.parseRequestLine u = .ok (true, r')) (hw : Line v w) (hc : COLON ∉ w) :
      Ends r (u ++ CRLF ++ v) w
  | header {t w : Str} (hst : r.state_ = .ExpectHeaders) (hw : Line t w) (hc : COLON ∉ w) :
      Ends r t w

/-- The ranges `parseLoop` gives to `std::search` and `std::find`, as positions in the vector. -/
def scans : ℕ → HttpRequest → Buffer → List (ℕ × ℕ)
  | 0, _, _ => []
  | fuel + 1, r, buf =>
    match r.state_ with
    | .ExpectRequestLine =>
      (buf.readIndex_, buf.writeIndex_) ::
        if buf.writeIndex_ < buf.readIndex_ then []
        else
          let crlf := search CRLF buf.readable
          match r.parseRequestLine (buf.readable.take crlf) with
          | .ok (true, r) => scans fuel { r with state_ := .ExpectHeaders }
              (buf.haveReadForLen (toInt (crlf + 2 : ℕ)))
          | _ => []
    | .ExpectHeaders =>
      (buf.readIndex_, buf.writeIndex_) ::
        if buf.writeIndex_ < buf.readIndex_ then []
        else
          let crlf := search CRLF buf.readable
          if crlf = buf.readable.length then []
          else
            let line := buf.readable.take crlf
            let colon := line.idxOf COLON
            (buf.readIndex_, buf.readIndex_ + crlf) ::
              if colon ≠ line.length then scans fuel (r.parseHeader line colon)
                (buf.haveReadForLen (toInt (crlf + 2 : ℕ)))
              else []
    | .ExpectBody => scans fuel { r with state_ := .GotAll } buf
    | .GotAll => []

/-- The ranges the call searches. -/
def searches (r : HttpRequest) (b : Buffer) : List (ℕ × ℕ) := scans (b.readable.length + 2) r b

lemma searches_eq (r : HttpRequest) (b : Buffer) :
    searches r b = scans (b.readable.length + 1 + 1) r b := rfl

/-! ### Lines -/

/-- A text begins with a complete line, or no line ends in it. -/
lemma plain_or_line (t : Str) : Plain t ∨ ∃ u v, Plain u ∧ t = u ++ CRLF ++ v := by
  by_cases h : CRLF <:+: t
  · obtain ⟨u, v, hu, rfl⟩ := exists_first_pair h
    exact .inr ⟨u, v, hu, by simp [CRLF]⟩
  · exact .inl h

lemma infix_line (u v : Str) : CRLF <:+: u ++ CRLF ++ v := ⟨u, v, rfl⟩

lemma line_inj {u u' v v' : Str} (hu : Plain u) (hu' : Plain u')
    (h : u ++ CRLF ++ v = u' ++ CRLF ++ v') : u = u' ∧ v = v' := by
  simp only [CRLF, List.append_assoc] at h
  exact first_pair_inj (by decide) hu hu' h

/-- What `parseMessage` takes for the first line. -/
def firstLine (t : Str) : Str := t.take (search CRLF t)

lemma firstLine_of_plain {t : Str} (ht : Plain t) : firstLine t = t := by
  rw [firstLine, search_of_missing ht, List.take_length]

lemma firstLine_of_line {t u v : Str} (ht : t = u ++ CRLF ++ v) (hu : Plain u) :
    firstLine t = u := by
  subst ht
  simp only [firstLine, CRLF, List.append_assoc]
  rw [List.cons_append, List.cons_append, search_pair (by decide) hu, List.take_left]

lemma length_firstLine (t : Str) : (firstLine t).length = search CRLF t := by
  rcases plain_or_line t with ht | ⟨u, v, hu, rfl⟩
  · rw [firstLine_of_plain ht, search_of_missing ht]
  · rw [firstLine_of_line rfl hu]
    simp only [CRLF, List.append_assoc]
    rw [List.cons_append, List.cons_append, search_pair (by decide) hu]

lemma not_line {t w : Str} (ht : Plain t) : ¬ Line t w := by
  intro h
  cases h with
  | here hu => exact ht (infix_line _ _)
  | next hu hc hw => exact ht (infix_line _ _)

/-- The first line, or, if that has a colon, one after it. -/
lemma line_iff {u v w : Str} (hu : Plain u) :
    Line (u ++ CRLF ++ v) w ↔ w = u ∨ COLON ∈ u ∧ Line v w := by
  constructor
  · intro h
    generalize ht : u ++ CRLF ++ v = t at h
    cases h with
    | here hu' => exact .inl (line_inj hu hu' ht).1.symm
    | next hu' hc hw =>
      obtain ⟨rfl, rfl⟩ := line_inj hu hu' ht
      exact .inr ⟨hc, hw⟩
  · rintro (rfl | ⟨hc, hw⟩)
    exacts [.here hu, .next hu hc hw]

lemma Line.plain {t w : Str} (h : Line t w) : Plain w := by
  induction h with
  | here hu => exact hu
  | next _ _ _ ih => exact ih

lemma Line.length_le {t w : Str} (h : Line t w) : w.length ≤ t.length := by
  induction h with
  | here => simp
  | next _ _ _ ih => simp; omega

lemma Counted.length_le {r : HttpRequest} {t u : Str} (h : Counted r t u) :
    u.length ≤ t.length := by
  cases h with
  | request => simp
  | unfinished => exact le_rfl
  | later _ _ _ hw => have := hw.length_le; simp; omega
  | header _ hw => exact hw.length_le

lemma fits_of_length (r : HttpRequest) {t : Str} (h : t.length + 2 ≤ INT_MAX) : Fits r t :=
  fun _ hu => (Nat.add_le_add_right hu.length_le 2).trans h

/-! ### The headers -/

/-- The end of a call that reads headers: it waits for the rest of a line, or it has found the
line that ends the block and left it in the buffer. -/
structure Stops (t : Str) (r : HttpRequest) (b : Buffer) : Prop where
  valid : b.Valid
  state : r.state_ = .ExpectHeaders ∧ (∀ w, Line t w → COLON ∈ w) ∨
    r.state_ = .GotAll ∧ ∃ u v, Line t u ∧ COLON ∉ u ∧ (∀ w, Line t w → COLON ∉ w → w = u) ∧
      b.readable = u ++ CRLF ++ v

lemma Stops.next {u v : Str} {r : HttpRequest} {b : Buffer} (hu : Plain u) (hc : COLON ∈ u)
    (h : Stops v r b) : Stops (u ++ CRLF ++ v) r b := by
  refine ⟨h.valid, ?_⟩
  rcases h.state with ⟨hst, hall⟩ | ⟨hst, x, y, hx, hcx, hone, hr⟩
  · refine .inl ⟨hst, fun w hw => ?_⟩
    rcases (line_iff hu).mp hw with rfl | ⟨-, hw⟩
    exacts [hc, hall w hw]
  · refine .inr ⟨hst, x, y, .next hu hc hx, hcx, fun w hw hcw => ?_, hr⟩
    rcases (line_iff hu).mp hw with rfl | ⟨-, hw⟩
    exacts [absurd hc hcw, hone w hw hcw]

variable {r : HttpRequest} {b : Buffer} {succeed : Bool}

lemma parseLoop_wait {fuel : ℕ} (hst : r.state_ = .ExpectHeaders) (hb : b.Valid)
    (ht : Plain b.readable) : parseLoop (fuel + 1) r b succeed = .ok (succeed, r, b) := by
  rw [parseLoop, hst]
  simp only [search_of_missing ht]
  rw [if_neg (not_lt.mpr hb.read_le), if_pos trivial]

/-- The range of the search for the colon lies in that of the search for the line. -/
lemma scans_header {fuel : ℕ} (hst : r.state_ = .ExpectHeaders) (hb : b.Valid) {u v : Str}
    (h : b.readable = u ++ CRLF ++ v) (hu : Plain u) :
    scans (fuel + 1) r b =
      (b.readIndex_, b.writeIndex_) :: (b.readIndex_, b.readIndex_ + u.length) ::
        if COLON ∈ u then scans fuel (r.parseHeader u (u.idxOf COLON))
          (b.haveReadForLen (toInt (u.length + 2 : ℕ)))
        else [] := by
  have ht : b.readable.take u.length = u := by rw [h, List.append_assoc, List.take_left]
  rw [scans, hst]
  simp only [search_line h hu, ht, ne_eq]
  rw [if_neg (not_lt.mpr hb.read_le), if_neg (by rw [h]; simp [CRLF])]
  by_cases hc : COLON ∈ u
  · rw [if_pos (List.idxOf_lt_length_of_mem hc).ne, if_pos hc]
  · rw [if_neg (by simp [List.idxOf_eq_length hc]), if_neg hc]

/-- **The header loop on any text**: it ends, every search is inside the readable bytes, and it
stops at the first line without a colon or at the last complete line. -/
theorem headers_spec (succeed : Bool) (fuel : ℕ) : ∀ {r : HttpRequest} {b : Buffer},
    r.state_ = .ExpectHeaders → b.Valid →
    (∀ w, Line b.readable w → COLON ∈ w → w.length + 2 ≤ INT_MAX) → b.readable.length < fuel →
    (∀ s ∈ scans fuel r b, s.1 ≤ s.2) ∧ ∃ r' b', parseLoop fuel r b succeed =
      .ok (succeed, r', b') ∧ b'.writeIndex_ = b.writeIndex_ ∧ Stops b.readable r' b' := by
  induction fuel with
  | zero => exact fun _ _ _ hf => absurd hf (Nat.not_lt_zero _)
  | succ fuel ih =>
    intro r b hst hb hfit hf
    rcases plain_or_line b.readable with ht | ⟨u, v, hu, ht⟩
    · refine ⟨?_, r, b, parseLoop_wait hst hb ht, rfl, hb, .inl ⟨hst, fun w hw => ?_⟩⟩
      · rw [scans, hst]
        simp only [search_of_missing ht]
        rw [if_neg (not_lt.mpr hb.read_le), if_pos trivial]
        simpa using hb.read_le
      · exact absurd hw (not_line ht)
    · rw [scans_header hst hb ht hu]
      have hr := hb.read_le
      by_cases hc : COLON ∈ u
      · -- a header line: the rest is the text after it
        have hlen : u.length + 2 ≤ INT_MAX := hfit u (by rw [ht]; exact .here hu) hc
        obtain ⟨hb', hbr⟩ := consume_line hb ht hlen
        have hlt : v.length < fuel := by rw [ht] at hf; simp [CRLF] at hf; omega
        obtain ⟨hscans, r', b', hp, hw, hstop⟩ := ih (r := r.parseHeader u (u.idxOf COLON))
          (b := b.haveReadForLen (toInt (u.length + 2 : ℕ))) hst hb'
          (fun w hw hcw => hfit w (by rw [ht]; rw [hbr] at hw; exact .next hu hc hw) hcw)
          (by rw [hbr]; exact hlt)
        rw [hbr] at hstop
        rw [Buffer.haveReadForLen_write] at hw
        refine ⟨?_, r', b', ?_, hw, ?_⟩
        · rw [if_pos hc]
          simpa [hr] using hscans
        · rw [parseLoop_header hst hb ht hu hc, hp]
        · rw [ht]; exact hstop.next hu hc
      · -- the line that ends the block stays where it is
        refine ⟨by rw [if_neg hc]; simpa using hr, _, b, parseLoop_blank hst hb ht hu hc, rfl, hb,
          .inr ⟨rfl, u, v, by rw [ht]; exact .here hu, hc, fun w hw hcw => ?_, ht⟩⟩
        rw [ht] at hw
        rcases (line_iff hu).mp hw with rfl | ⟨hcu, -⟩
        exacts [rfl, absurd hcu hc]

/-! ### The request line -/

/-- The buffer once the first line is consumed. -/
def consumed (b : Buffer) : Buffer :=
  b.haveReadForLen (toInt ((firstLine b.readable).length + 2 : ℕ))

@[simp] lemma consumed_write (b : Buffer) : (consumed b).writeIndex_ = b.writeIndex_ := by
  rw [consumed, Buffer.haveReadForLen_write]

lemma consumed_line (hb : b.Valid) {u v : Str} (ht : b.readable = u ++ CRLF ++ v) (hu : Plain u)
    (hlen : u.length + 2 ≤ INT_MAX) : (consumed b).Valid ∧ (consumed b).readable = v := by
  rw [consumed, firstLine_of_line ht hu]
  exact consume_line hb ht hlen

/-- Where no line ends, the line is all there is, and two bytes too many are consumed. -/
lemma consumed_unfinished (hb : b.Valid) (ht : Plain b.readable)
    (hlen : b.readable.length + 2 ≤ INT_MAX) : (consumed b).readIndex_ = b.writeIndex_ + 2 := by
  have hr := hb.read_le
  have hl := hb.length_readable
  rw [hb.getReadableLen] at hl
  rw [consumed, firstLine_of_plain ht, Buffer.haveReadForLen, toInt_of_le hlen, szAdd_natCast]
  dsimp only
  omega

variable (succeed : Bool) (fuel : ℕ) {r' : HttpRequest}

/-- One round that begins at a request line. -/
lemma parseLoop_request (hst : r.state_ = .ExpectRequestLine) (hb : b.Valid) :
    parseLoop (fuel + 1) r b succeed = (do
      let (ok, r') ← r.parseRequestLine (firstLine b.readable)
      let r' := { r' with state_ := .ExpectHeaders }
      if ok then parseLoop fuel r' (consumed b) true else .ok (true, r', consumed b)) := by
  rw [parseLoop, hst, consumed, length_firstLine]
  exact if_neg (not_lt.mpr hb.read_le)

lemma scans_request (hst : r.state_ = .ExpectRequestLine) (hb : b.Valid) :
    scans (fuel + 1) r b = (b.readIndex_, b.writeIndex_) ::
      match r.parseRequestLine (firstLine b.readable) with
      | .ok (true, r') => scans fuel { r' with state_ := .ExpectHeaders } (consumed b)
      | _ => [] := by
  rw [scans, hst, consumed, length_firstLine]
  exact congrArg _ (if_neg (not_lt.mpr hb.read_le))

/-- A line that goes wrong ends the loop, after one search. -/
lemma parseLoop_error (hst : r.state_ = .ExpectRequestLine) (hb : b.Valid) {e : Fault}
    (hp : r.parseRequestLine (firstLine b.readable) = .error e) :
    parseLoop (fuel + 1) r b succeed = .error e ∧
      scans (fuel + 1) r b = [(b.readIndex_, b.writeIndex_)] := by
  rw [parseLoop_request _ _ hst hb, scans_request _ hst hb, hp]
  exact ⟨rfl, rfl⟩

lemma parseLoop_refused (hst : r.state_ = .ExpectRequestLine) (hb : b.Valid)
    (hp : r.parseRequestLine (firstLine b.readable) = .ok (false, r')) :
    parseLoop (fuel + 1) r b succeed =
        .ok (true, { r' with state_ := .ExpectHeaders }, consumed b) ∧
      scans (fuel + 1) r b = [(b.readIndex_, b.writeIndex_)] := by
  rw [parseLoop_request _ _ hst hb, scans_request _ hst hb, hp]
  exact ⟨rfl, rfl⟩

lemma parseLoop_accepted (hst : r.state_ = .ExpectRequestLine) (hb : b.Valid)
    (hp : r.parseRequestLine (firstLine b.readable) = .ok (true, r')) :
    parseLoop (fuel + 1) r b succeed =
        parseLoop fuel { r' with state_ := .ExpectHeaders } (consumed b) true ∧
      scans (fuel + 1) r b = (b.readIndex_, b.writeIndex_) ::
        scans fuel { r' with state_ := .ExpectHeaders } (consumed b) := by
  rw [parseLoop_request _ _ hst hb, scans_request _ hst hb, hp]
  exact ⟨rfl, rfl⟩

lemma parseMessage_eq (r : HttpRequest) (b : Buffer) :
    r.parseMessage b = parseLoop (b.readable.length + 1 + 1) r b false := rfl

/-- Positions that are out of order end the call. -/
lemma read_le_of_ok (hst : r.state_ = .ExpectRequestLine ∨ r.state_ = .ExpectHeaders)
    {ok : Bool} {b' : Buffer} (h : r.parseMessage b = .ok (ok, r', b')) :
    b.readIndex_ ≤ b.writeIndex_ := by
  by_contra hlt
  rw [parseMessage_eq, parseLoop] at h
  rcases hst with hst | hst <;> rw [hst] at h <;> cases (if_pos (not_le.mp hlt)).symm.trans h

lemma parseMessage_error (hst : r.state_ = .ExpectRequestLine) (hb : b.Valid) {e : Fault}
    (hp : r.parseRequestLine (firstLine b.readable) = .error e) :
    r.parseMessage b = .error e ∧ searches r b = [(b.readIndex_, b.writeIndex_)] := by
  rw [parseMessage_eq, searches_eq]
  exact parseLoop_error false _ hst hb hp

lemma parseMessage_refused (hst : r.state_ = .ExpectRequestLine) (hb : b.Valid)
    (hp : r.parseRequestLine (firstLine b.readable) = .ok (false, r')) :
    r.parseMessage b = .ok (true, { r' with state_ := .ExpectHeaders }, consumed b) ∧
      searches r b = [(b.readIndex_, b.writeIndex_)] := by
  rw [parseMessage_eq, searches_eq]
  exact parseLoop_refused false _ hst hb hp

/-- After an unfinished line the next search begins after its end. -/
lemma parseMessage_unfinished (hst : r.state_ = .ExpectRequestLine) (hb : b.Valid)
    (ht : Plain b.readable) (hfit : Fits r b.readable)
    (hp : r.parseRequestLine b.readable = .ok (true, r')) :
    r.parseMessage b = .error .range ∧ (b.writeIndex_ + 2, b.writeIndex_) ∈ searches r b := by
  have hri := consumed_unfinished hb ht (hfit _ (.unfinished hst ht))
  obtain ⟨hloop, hscans⟩ := parseLoop_accepted false (b.readable.length + 1) hst hb
    (by rw [firstLine_of_plain ht]; exact hp)
  rw [parseMessage_eq, searches_eq, hloop, hscans, parseLoop, scans, hri, consumed_write]
  exact ⟨if_pos (by omega), List.mem_cons_of_mem _ List.mem_cons_self⟩

/-- **A complete request line that is accepted** is followed by the headers. -/
theorem parseMessage_accepted (hst : r.state_ = .ExpectRequestLine) (hb : b.Valid) {u v : Str}
    (ht : b.readable = u ++ CRLF ++ v) (hu : Plain u) (hfit : Fits r b.readable)
    (hp : r.parseRequestLine u = .ok (true, r')) :
    (∀ s ∈ searches r b, s.1 ≤ s.2) ∧ ∃ r1 b1, r.parseMessage b = .ok (true, r1, b1) ∧
      b1.writeIndex_ = b.writeIndex_ ∧ Stops v r1 b1 := by
  obtain ⟨hloop, hscans⟩ := parseLoop_accepted false (b.readable.length + 1) hst hb
    (by rw [firstLine_of_line ht hu]; exact hp)
  obtain ⟨hb', hbr⟩ := consumed_line hb ht hu (hfit u (by rw [ht]; exact .request hst hu))
  have hlt : v.length < b.readable.length + 1 := by rw [ht]; simp [CRLF]; omega
  obtain ⟨hs, r1, b1, hp1, hw, hstop⟩ := headers_spec true (b.readable.length + 1)
    (r := { r' with state_ := .ExpectHeaders }) (b := consumed b) rfl hb'
    (fun w hw hc => hfit w (by rw [ht]; rw [hbr] at hw; exact .later hst hu hp hw hc))
    (by rw [hbr]; exact hlt)
  rw [hbr] at hstop
  rw [parseMessage_eq, searches_eq, hloop, hscans]
  exact ⟨by simpa [hb.read_le] using hs, r1, b1, hp1, hw.trans (consumed_write b), hstop⟩

/-- A buffer that holds a text and nothing else. -/
def holding (t : Str) : Buffer := ⟨t, t.length, 0⟩

lemma holding_valid (t : Str) : (holding t).Valid := ⟨Nat.zero_le _, le_rfl⟩

lemma holding_readable (t : Str) : (holding t).readable = t := by
  simp [holding, Buffer.readable]

end MuduoZ.HttpLines
