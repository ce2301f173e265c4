import MuduoZ.HttpFormat

/-!
A request that arrives in several chunks.

The flag `parseMessage` returns is set only where a request line is read. A first call always
leaves that state, so every later call on the same request returns `false`, which the server
takes for a bad request.
-/

namespace MuduoZ.HttpChunks

open HttpRequest HttpFormat

/-- A text in non-empty chunks, each of which `append` can be given. -/
structure Cut (text : Str) (chunks : List Str) : Prop where
  join : chunks.flatten = text
  nonempty : ∀ c ∈ chunks, c ≠ []
  fits : ∀ c ∈ chunks, c.length ≤ INT_MAX

/-- Appending the chunks one by one, with a call of `parseMessage` after each: the answers, and
the parser after each of them. -/
def feed : HttpRequest → Buffer → List Str → Result (List (Bool × HttpRequest))
  | _, _, [] => .ok []
  | r, b, c :: cs => do
    let b ← b.append c
    let (ok, r, b) ← r.parseMessage b
    let rest ← feed r b cs
    .ok ((ok, r) :: rest)

/-- The chunks are read as the whole text is: no call returns `false`, the last one and no
other completes the request, and the parser ends with the same data. -/
def SameAsWhole (text : Str) (chunks : List Str) : Prop :=
  ∃ answers whole final,
    feed .new .new chunks = .ok answers ∧ feed .new .new [text] = .ok [whole] ∧
    (∀ a ∈ answers, a.1 = true) ∧
    (∀ i a, answers[i]? = some a → (a.2.state_ = .GotAll ↔ i + 1 = chunks.length)) ∧
    answers.getLast? = some final ∧
    final.2.method_ = whole.2.method_ ∧ final.2.path_ = whole.2.path_ ∧
    final.2.query_ = whole.2.query_ ∧ final.2.version_ = whole.2.version_ ∧
    final.2.headers_ = whole.2.headers_

/-! ### One call -/

/-- A call never leaves the parser waiting for a request line, and outside that state it
returns the flag it started with. -/
lemma parseLoop_flag (fuel : ℕ) : ∀ {r r' : HttpRequest} {b b' : Buffer} {s ok : Bool},
    parseLoop fuel r b s = .ok (ok, r', b') →
    r'.state_ ≠ .ExpectRequestLine ∧ (r.state_ ≠ .ExpectRequestLine → ok = s) := by
  induction fuel with
  | zero => intro r r' b b' s ok h; simp [parseLoop] at h
  | succ fuel ih =>
    intro r r' b b' s ok h
    have hround := parseLoop_cases h
    cases hst : r.state_ with
    | ExpectRequestLine =>
      rw [hst] at hround
      refine ⟨?_, fun hne => absurd rfl hne⟩
      obtain ⟨r₁, len, h | ⟨-, rfl, -⟩⟩ := hround
      · exact (ih h).1
      · simp
    | ExpectHeaders =>
      rw [hst] at hround
      rcases hround with ⟨rfl, -, hr⟩ | ⟨line, colon, len, h⟩
      · refine ⟨?_, fun _ => rfl⟩
        rcases hr with rfl | rfl
        · simp [hst]
        · simp
      · obtain ⟨h1, h2⟩ := ih h
        exact ⟨h1, fun _ => h2 (by simp [parseHeader, hst])⟩
    | ExpectBody =>
      rw [hst] at hround
      obtain ⟨h1, h2⟩ := ih hround
      exact ⟨h1, fun _ => h2 (by simp)⟩
    | GotAll =>
      rw [hst] at hround
      obtain ⟨rfl, rfl, -⟩ := hround
      simp [hst]

lemma parseMessage_state {r r' : HttpRequest} {b b' : Buffer} {ok : Bool}
    (h : r.parseMessage b = .ok (ok, r', b')) : r'.state_ ≠ .ExpectRequestLine :=
  (parseLoop_flag _ h).1

lemma parseMessage_later {r r' : HttpRequest} {b b' : Buffer} {ok : Bool}
    (h : r.parseMessage b = .ok (ok, r', b')) (hr : r.state_ ≠ .ExpectRequestLine) :
    ok = false :=
  (parseLoop_flag _ h).2 hr

/-- A call that reads a request line returns `true`. -/
lemma parseLoop_first {fuel : ℕ} {r r' : HttpRequest} {b b' : Buffer} {s ok : Bool}
    (hr : r.state_ = .ExpectRequestLine) (h : parseLoop (fuel + 1) r b s = .ok (ok, r', b')) :
    ok = true := by
  have hround := parseLoop_cases h
  rw [hr] at hround
  obtain ⟨r₁, len, h | ⟨hok, -, -⟩⟩ := hround
  · exact (parseLoop_flag _ h).2 (by simp)
  · exact hok

/-- The flag says whether the call began with a request line. -/
lemma parseMessage_flag {r r' : HttpRequest} {b b' : Buffer} {ok : Bool}
    (h : r.parseMessage b = .ok (ok, r', b')) : ok = true ↔ r.state_ = .ExpectRequestLine := by
  constructor
  · intro hok
    by_contra hr
    exact absurd ((parseMessage_later h hr).symm.trans hok) (by decide)
  · exact fun hr => parseLoop_first hr h

/-! ### Several calls -/

lemma feed_cons {r : HttpRequest} {b : Buffer} {c : Str} {cs : List Str}
    {answers : List (Bool × HttpRequest)} (h : feed r b (c :: cs) = .ok answers) :
    ∃ b1 ok r' b' rest, b.append c = .ok b1 ∧ r.parseMessage b1 = .ok (ok, r', b') ∧
      feed r' b' cs = .ok rest ∧ answers = (ok, r') :: rest := by
  rw [feed] at h
  obtain ⟨b1, hb1, h⟩ := bind_ok_iff.mp h
  obtain ⟨⟨ok, r', b'⟩, hp, h⟩ := bind_ok_iff.mp h
  obtain ⟨rest, hrest, h⟩ := bind_ok_iff.mp h
  cases h
  exact ⟨b1, ok, r', b', rest, hb1, hp, hrest, rfl⟩

/-- The second chunk is answered `false`. -/
lemma feed_second {r : HttpRequest} {b : Buffer} {c d : Str} {cs : List Str}
    {answers : List (Bool × HttpRequest)} (h : feed r b (c :: d :: cs) = .ok answers) :
    ∃ a ∈ answers, a.1 = false := by
  obtain ⟨b1, ok, r1, b2, rest, -, hp, h', rfl⟩ := feed_cons h
  obtain ⟨b3, ok', r2, b4, rest', -, hp', -, rfl⟩ := feed_cons h'
  exact ⟨(ok', r2), by simp, parseMessage_later hp' (parseMessage_state hp)⟩

/-- The whole text in one chunk completes the request. -/
lemma feed_whole (q : Request) (hlen : q.text.length ≤ INT_MAX) :
    feed .new .new [q.text] = .ok [(true, q.parsed)] := by
  obtain ⟨b, hb, hv, hr⟩ := (Buffer.new_valid 1024).append q.text
  obtain ⟨b', hp, -, -⟩ := parseMessage_text q [] hv (by simpa using hr) hlen
  simp [feed, hb, hp]

/-- **A request is read as it should be exactly when it arrives in one chunk.** -/
theorem sameAsWhole_iff (q : Request) (chunks : List Str) (h : Cut q.text chunks) :
    SameAsWhole q.text chunks ↔ chunks.length = 1 := by
  constructor
  · rintro ⟨answers, whole, final, hf, -, htrue, -, hlast, -⟩
    rcases chunks with _ | ⟨c, _ | ⟨d, cs⟩⟩
    · obtain rfl : [] = answers := by simpa [feed] using hf
      simp at hlast
    · rfl
    · obtain ⟨a, ha, hfalse⟩ := feed_second hf
      rw [htrue a ha] at hfalse
      cases hfalse
  · intro h1
    obtain ⟨c, rfl⟩ := List.length_eq_one_iff.mp h1
    obtain rfl : c = q.text := by simpa using h.join
    have hw := feed_whole q (h.fits _ (by simp))
    refine ⟨_, _, (true, q.parsed), hw, hw, by simp, ?_, rfl, rfl, rfl, rfl, rfl, rfl⟩
    rintro (_ | i) a ha
    · obtain rfl : (true, q.parsed) = a := by simpa using ha
      simp [Request.parsed]
    · simp at ha

/-! ### A request in two chunks -/

/-- The request line in one chunk, the blank line in a second. -/
def plainGetChunks : List Str := [plainGet.line ++ CRLF, CRLF]

theorem sameAsWhole_iff_plainGet :
    SameAsWhole plainGet.text [plainGet.text] ↔ [plainGet.text].length = 1 :=
  sameAsWhole_iff plainGet [plainGet.text] ⟨by simp, by decide, by decide⟩

/-- The blank line, arriving in a chunk of its own, is answered `false`. -/
theorem plainGet_in_two :
    Cut plainGet.text plainGetChunks ∧ ¬ SameAsWhole plainGet.text plainGetChunks := by
  refine ⟨⟨by decide, by decide, by decide⟩, ?_⟩
  rintro ⟨answers, whole, final, hf, -, htrue, -⟩
  obtain ⟨a, ha, hfalse⟩ := feed_second hf
  rw [htrue a ha] at hfalse
  cases hfalse

end MuduoZ.HttpChunks
