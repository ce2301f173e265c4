import MuduoZ.ParseMessage
import MuduoZ.Lib.Run

/-!
Where a request ends, over any sequence of calls on a stream of bytes.

The header block is ended by the first line without a colon. It is the blank line unless a client
sends another such line, and what follows that line is then left for the next request. A call that
leaves the readable bytes does not go through, and the run with it.
-/

namespace MuduoZ.BlankLine

open Search HttpRequest HttpLines RequestLine ParseMessage Runs

/-- The parser, its input, and the readable bytes each time it entered `GotAll`. -/
structure Sys where
  req : HttpRequest
  input : Buffer
  ended : List Str

inductive Action
  | receive (bytes : Str)
  | parseMessage
  | reset

def step (s : Sys) : Action → Result Sys
  | .receive bytes => do .ok { s with input := ← s.input.append bytes }
  | .parseMessage => do
    let (_, req, input) ← s.req.parseMessage s.input
    let ended := if s.req.state_ ≠ .GotAll ∧ req.state_ = .GotAll then s.ended ++ [input.readable]
      else s.ended
    .ok ⟨req, input, ended⟩
  | .reset => .ok { s with req := s.req.reset }

def start : Sys := ⟨.new, .new, []⟩

/-- Whenever a request ended, the next complete line was empty. -/
def AtBlank (s : Sys) : Prop := ∀ t ∈ s.ended, CRLF <+: t

/-- An `int` holds the lengths of the lines the call reads. -/
def Short (s : Sys) : Action → Prop
  | .parseMessage => Fits s.req s.input.readable
  | _ => True

/-- The line that ends the header block is empty, where the call reads it; and the call goes
through. -/
def EndsEmpty (s : Sys) : Action → Prop
  | .receive bytes => s.input.Takes bytes
  | .parseMessage => Goes s.req s.input ∧ ∀ w, Ends s.req s.input.readable w → w = []
  | .reset => True

/-! ### One call -/

variable {r r' : HttpRequest} {b b' : Buffer} {ok : Bool}

lemma ends_line {u v w : Str} (hst : r.state_ = .ExpectRequestLine) (hu : Plain u) :
    Ends r (u ++ CRLF ++ v) w ↔
      (∃ r', r.parseRequestLine u = .ok (true, r')) ∧ Line v w ∧ COLON ∉ w := by
  constructor
  · intro h
    generalize ht : u ++ CRLF ++ v = t at h
    cases h with
    | later _ hu' hp hw hc =>
      obtain ⟨rfl, rfl⟩ := line_inj hu hu' ht
      exact ⟨⟨_, hp⟩, hw, hc⟩
    | header hst' => rw [hst] at hst'; cases hst'
  · rintro ⟨⟨r', hp⟩, hw, hc⟩
    exact .later hst hu hp hw hc

lemma ends_plain {t w : Str} (ht : Plain t) : ¬ Ends r t w := by
  intro h
  cases h with
  | later => exact ht (infix_line _ _)
  | header _ hw => exact not_line ht hw

lemma ends_header {t w : Str} (hst : r.state_ = .ExpectHeaders) :
    Ends r t w ↔ Line t w ∧ COLON ∉ w := by
  constructor
  · intro h
    cases h with
    | later hst' => rw [hst] at hst'; cases hst'
    | header _ hw hc => exact ⟨hw, hc⟩
  · rintro ⟨hw, hc⟩
    exact .header hst hw hc

lemma ends_gotAll {t w : Str} (hst : r.state_ = .GotAll) : ¬ Ends r t w := by
  intro h
  cases h with
  | later hst' => rw [hst] at hst'; cases hst'
  | header hst' => rw [hst] at hst'; cases hst'

/-- How a call leaves the parser: within the headers, or at the line that ended them, which is
still in the buffer. -/
def Left (r : HttpRequest) (t : Str) (r' : HttpRequest) (b' : Buffer) : Prop :=
  r'.state_ = .ExpectHeaders ∧ (∀ w, ¬ Ends r t w) ∨
    r'.state_ = .GotAll ∧ ∃ u v, Plain u ∧ Ends r t u ∧ (∀ w, Ends r t w → w = u) ∧
      b'.readable = u ++ CRLF ++ v

/-- A header loop that stops, for a call whose header block is the text. -/
lemma left_of_stops {t v : Str} (hends : ∀ w, Ends r t w ↔ Line v w ∧ COLON ∉ w)
    (h : Stops v r' b') : Left r t r' b' := by
  rcases h.state with ⟨hst, hall⟩ | ⟨hst, u, rest, hu, hc, hone, hr⟩
  · exact .inl ⟨hst, fun w hw => ((hends w).mp hw).2 (hall w ((hends w).mp hw).1)⟩
  · refine .inr ⟨hst, u, rest, hu.plain, (hends u).mpr ⟨hu, hc⟩, fun w hw => ?_, hr⟩
    exact hone w ((hends w).mp hw).1 ((hends w).mp hw).2

lemma parseMessage_left (hst : r.state_ = .ExpectRequestLine ∨ r.state_ = .ExpectHeaders)
    (hb : b.Valid) (hfit : Fits r b.readable) (h : r.parseMessage b = .ok (ok, r', b')) :
    Left r b.readable r' b' := by
  cases parseMessage_cases hst hb hfit with
  | late _ _ he | unfinished _ _ _ he => cases he.symm.trans h
  | cut _ ht _ _ r1 _ h1 =>
    cases h1.symm.trans h
    exact .inl ⟨rfl, fun w => ends_plain ht⟩
  | refused hst ht hu _ r1 hp h1 =>
    cases h1.symm.trans h
    refine .inl ⟨rfl, fun w hw => ?_⟩
    rw [ht] at hw
    obtain ⟨⟨r2, hr2⟩, -⟩ := (ends_line hst hu).mp hw
    cases hp.symm.trans hr2
  | accepted hst ht hu _ hp r1 b1 h1 hstop =>
    cases h1.symm.trans h
    refine left_of_stops (fun w => ?_) hstop
    rw [ht, ends_line hst hu]
    exact and_iff_right hp
  | headers hst r1 b1 h1 hstop =>
    cases h1.symm.trans h
    exact left_of_stops (fun w => ends_header hst) hstop

/-- A blank line is at the front exactly if the line at the front is empty. -/
lemma blank_iff {u v : Str} (hu : Plain u) : CRLF <+: u ++ CRLF ++ v ↔ u = [] := by
  constructor
  · rintro ⟨w, hw⟩
    exact (line_inj (u := []) (fun h => absurd h (by decide)) hu hw).1.symm
  · rintro rfl
    exact List.prefix_append CRLF v

/-- The call touches neither the bytes nor the write position, and it does not stop in the state
the parser never enters. -/
lemma parseLoop_frame (fuel : ℕ) : ∀ {r r' : HttpRequest} {b b' : Buffer} {s ok : Bool},
    r.state_ ≠ .ExpectBody → parseLoop fuel r b s = .ok (ok, r', b') →
    r'.state_ ≠ .ExpectBody ∧ b'.buffer_ = b.buffer_ ∧ b'.writeIndex_ = b.writeIndex_ := by
  induction fuel with
  | zero => intro r r' b b' s ok _ h; simp [parseLoop] at h
  | succ fuel ih =>
    intro r r' b b' s ok hne h
    have hgo : ∀ {r₁ : HttpRequest} {len s₁}, r₁.state_ ≠ .ExpectBody →
        parseLoop fuel r₁ (b.haveReadForLen len) s₁ = .ok (ok, r', b') →
        r'.state_ ≠ .ExpectBody ∧ b'.buffer_ = b.buffer_ ∧ b'.writeIndex_ = b.writeIndex_ := by
      intro r₁ len s₁ hne₁ h₁
      obtain ⟨h1, h2, h3⟩ := ih hne₁ h₁
      rw [Buffer.haveReadForLen_buffer] at h2
      rw [Buffer.haveReadForLen_write] at h3
      exact ⟨h1, h2, h3⟩
    have hround := parseLoop_cases h
    cases hst : r.state_ with
    | ExpectRequestLine =>
      rw [hst] at hround
      obtain ⟨r₁, len, h | ⟨-, rfl, rfl⟩⟩ := hround
      · exact hgo (by simp) h
      · exact ⟨by simp, Buffer.haveReadForLen_buffer .., Buffer.haveReadForLen_write ..⟩
    | ExpectHeaders =>
      rw [hst] at hround
      rcases hround with ⟨-, rfl, hr⟩ | ⟨line, colon, len, h⟩
      · refine ⟨?_, rfl, rfl⟩
        rcases hr with rfl | rfl
        · exact hne
        · simp
      · exact hgo (by simp [parseHeader, hst]) h
    | ExpectBody => exact absurd hst hne
    | GotAll =>
      rw [hst] at hround
      obtain ⟨-, rfl, rfl⟩ := hround
      exact ⟨hne, rfl, rfl⟩

/-! ### The run -/

structure Inv (s : Sys) : Prop where
  state : s.req.state_ ≠ .ExpectBody
  write_le : s.input.writeIndex_ ≤ s.input.buffer_.length
  blank : AtBlank s

/-- What a call that ends a request leaves in the buffer. -/
lemma ended_cases {s s' : Sys} (hs : Inv s) (hf : Short s .parseMessage)
    (h : step s .parseMessage = .ok s') :
    (s'.ended = s.ended ∧ ∀ w, ¬ Ends s.req s.input.readable w) ∨
      ∃ u v, Plain u ∧ (∀ w, Ends s.req s.input.readable w ↔ w = u) ∧
        s'.ended = s.ended ++ [u ++ CRLF ++ v] := by
  obtain ⟨⟨ok, req, input⟩, hp, h⟩ := bind_ok_iff.mp h
  obtain rfl := Except.ok.inj h
  dsimp only
  by_cases hst : s.req.state_ = .GotAll
  · exact .inl ⟨if_neg fun hc => hc.1 hst, fun w => ends_gotAll hst⟩
  · have hst' : s.req.state_ = .ExpectRequestLine ∨ s.req.state_ = .ExpectHeaders := by
      have := hs.state
      cases hc : s.req.state_ <;> simp_all
    have hb : s.input.Valid := ⟨read_le_of_ok hst' hp, hs.write_le⟩
    rcases parseMessage_left hst' hb hf hp with ⟨hreq, hno⟩ | ⟨hreq, u, v, hu, he, hone, hr⟩
    · exact .inl ⟨if_neg fun hc => absurd (hreq.symm.trans hc.2) (by decide), hno⟩
    · refine .inr ⟨u, v, hu, fun w => ⟨hone w, fun hw => by rw [hw]; exact he⟩, ?_⟩
      rw [if_pos ⟨hst, hreq⟩, hr]

lemma step_frame {s s' : Sys} (hs : Inv s) (h : step s .parseMessage = .ok s') :
    s'.req.state_ ≠ .ExpectBody ∧ s'.input.writeIndex_ ≤ s'.input.buffer_.length := by
  obtain ⟨⟨ok, req, input⟩, hp, h⟩ := bind_ok_iff.mp h
  obtain rfl := Except.ok.inj h
  obtain ⟨hst, hbuf, hw⟩ := parseLoop_frame _ hs.state hp
  exact ⟨hst, by rw [hbuf, hw]; exact hs.write_le⟩

/-- What a call keeps that ends no request, or ends one at an empty line. -/
lemma parseMessage_inv {s s' : Sys} (hs : Inv s) (hf : Short s .parseMessage)
    (hk : EndsEmpty s .parseMessage) (h : step s .parseMessage = .ok s') : Inv s' := by
  obtain ⟨hst, hw⟩ := step_frame hs h
  refine ⟨hst, hw, ?_⟩
  rcases ended_cases hs hf h with ⟨he, -⟩ | ⟨u, v, hu, hends, he⟩
  · intro t ht
    rw [he] at ht
    exact hs.blank t ht
  · intro t ht
    rw [he] at ht
    rcases List.mem_append.mp ht with ht | ht
    · exact hs.blank t ht
    · obtain rfl := List.mem_singleton.mp ht
      exact (blank_iff hu).mpr (hk.2 u ((hends u).mpr rfl))

lemma step_total (s : Sys) (a : Action) (hs : Inv s) (hf : Short s a) (hk : EndsEmpty s a) :
    ∃ s', step s a = .ok s' ∧ Inv s' := by
  cases a with
  | receive bytes =>
    obtain ⟨b, hb⟩ := (Buffer.append_ok_iff hs.write_le).mpr hk
    exact ⟨{ s with input := b }, by rw [step, hb, ok_bind],
      hs.state, Buffer.append_write_le hb, hs.blank⟩
  | reset => exact ⟨_, rfl, by simp [HttpRequest.reset], hs.write_le, hs.blank⟩
  | parseMessage =>
    obtain ⟨ok, req, input, hp⟩ := (goes_iff hs.write_le hf).mpr hk.1
    obtain ⟨s', hs'⟩ : ∃ s', step s .parseMessage = .ok s' := ⟨_, by rw [step, hp, ok_bind]⟩
    exact ⟨s', hs', parseMessage_inv hs hf hk hs'⟩

lemma step_broken (s : Sys) (a : Action) (s' : Sys) (hs : Inv s) (hf : Short s a)
    (hk : ¬ EndsEmpty s a) (h : step s a = .ok s') : ¬ AtBlank s' := by
  cases a with
  | reset => exact absurd trivial hk
  | receive bytes =>
    obtain ⟨b, hb, -⟩ := bind_ok_iff.mp h
    exact absurd ((Buffer.append_ok_iff hs.write_le).mp ⟨b, hb⟩) hk
  | parseMessage =>
    obtain ⟨⟨ok, req, input⟩, hp, -⟩ := bind_ok_iff.mp h
    have hgoes := (goes_iff hs.write_le hf).mp ⟨ok, req, input, hp⟩
    obtain ⟨w, hw, hne⟩ : ∃ w, Ends s.req s.input.readable w ∧ w ≠ [] := by
      simpa [EndsEmpty, hgoes] using hk
    rcases ended_cases hs hf h with ⟨-, hno⟩ | ⟨u, v, hu, hends, he⟩
    · exact absurd hw (hno w)
    · intro hblank
      obtain rfl := (hends w).mp hw
      exact hne ((blank_iff hu).mp (hblank (w ++ CRLF ++ v) (by rw [he]; simp)))

lemma start_inv : Inv start :=
  ⟨by simp [start, HttpRequest.new], Nat.zero_le _, by simp [AtBlank, start]⟩

/-- **A run goes through, with every request ended at a blank line, exactly when the line that ends
each header block is empty** and no call of the run leaves the readable bytes, as long as the lines
are short enough for an `int`. -/
theorem atBlank_iff (as : List Action) (hf : Asks step Short start as) :
    Always step AtBlank start as ↔ Asks step EndsEmpty start as :=
  always_iff_asks step_total (fun _ h => h.blank) step_broken start_inv hf

lemma short_once {bytes : Str} (h : bytes.length + 2 ≤ INT_MAX) :
    Asks step Short start [.receive bytes, .parseMessage] := by
  refine asks_cons.mpr ⟨trivial, fun s hs => asks_cons.mpr ⟨?_, fun _ _ => asks_nil⟩⟩
  obtain ⟨b, hb, -, hr⟩ := (Buffer.new_valid 1024).append bytes
  obtain ⟨b', hb', hs⟩ := bind_ok_iff.mp hs
  obtain rfl := Except.ok.inj (hb.symm.trans hb')
  obtain rfl := Except.ok.inj hs
  refine fits_of_length _ ?_
  rw [hr, Buffer.new_readable, List.nil_append]
  exact h

theorem atBlank_iff_plainGet :
    Always step AtBlank start [.receive HttpFormat.plainGet.text, .parseMessage] ↔
      Asks step EndsEmpty start [.receive HttpFormat.plainGet.text, .parseMessage] :=
  atBlank_iff _ (short_once (by decide))

/-- A header line without a colon ends the request, and a header after it is left behind. -/
theorem colonless_line : ¬ ∀ as : List Action, (∃ s, exec step start as = .ok s) →
    Always step AtBlank start as := by
  intro h
  have hrun : (exec step start
      [.receive (str "GET / HTTP/1.1\r\nHost\r\nA: b\r\n\r\n"), .parseMessage]).toOption.map
      (fun s => decide (∀ t ∈ s.ended, CRLF <+: t)) = some false := by decide +kernel
  obtain ⟨s, hs, hblank⟩ := exec_of_map hrun
  obtain ⟨t, ht, hat⟩ := h _ ⟨s, hs⟩ _ [] (List.append_nil _).symm
  obtain rfl := Except.ok.inj (hs.symm.trans ht)
  exact of_decide_eq_false hblank hat

end MuduoZ.BlankLine
