import MuduoZ.HttpServer
import MuduoZ.Lib.Framing
import MuduoZ.Lib.Search

/-!
The responses of a kept-alive connection, one after the other.

A response says nothing about the length of its body, so a body may be taken for further responses.
Only a stream whose bodies are free of the beginning of a response is decoded in one way.
-/

namespace MuduoZ.ResponseStream

open Search

/-- No CR and no LF. -/
def OneLine (s : Str) : Prop := CR ∉ s ∧ LF ∉ s

/-- What the text of a response begins with. -/
def marker : Str := str "HTTP/1.1 "

/-- A response that keeps the connection, as the class can build it: the headers are the entries
of a map, and the version is what the constructor sets. -/
structure KeptAlive (r : HttpResponse) : Prop where
  keep : r.keepConnection_ = true
  version : r.version_ = str "HTTP/1.1"
  msg : OneLine r.codeMsg_
  headers : ∀ h ∈ r.headers_, OneLine h.1 ∧ OneLine h.2 ∧ COLON ∉ h.1
  sorted : r.headers_.Pairwise fun h h' => h.1 < h'.1

/-- The body does not have the beginning of a response in it, and `append` takes each string of the
response whole. -/
structure Framed (r : HttpResponse) : Prop extends KeptAlive r where
  body : ¬ marker <:+: r.body_
  short : ∀ p ∈ r.pieces, p.length ≤ INT_MAX

/-- What a new buffer holds after `addToBuffer` of each response. -/
def written (rs : List HttpResponse) : Result Str := do
  let b ← rs.foldlM (fun b r => r.addToBuffer b) .new
  .ok b.readable

/-! ### The text of a response -/

/-- The code, the message and the headers. -/
abbrev Key := HttpStatusCode × Str × List (Str × Str)

def headerText (headers : List (Str × Str)) : Str :=
  headers.flatMap fun h => h.1 ++ (str ": " ++ (h.2 ++ CRLF))

/-- The text of a response up to its body. -/
def head (k : Key) : Str :=
  marker ++ (k.1.digits ++ SP :: (k.2.1 ++ (CRLF ++ (str "Connection: Keep-Alive\r\n" ++
    (headerText k.2.2 ++ CRLF)))))

structure Key.Ok (k : Key) : Prop where
  msg : OneLine k.2.1
  headers : ∀ h ∈ k.2.2, OneLine h.1 ∧ OneLine h.2 ∧ COLON ∉ h.1
  sorted : k.2.2.Pairwise fun h h' => h.1 < h'.1

/-- A response as a record. -/
def record (r : HttpResponse) : Key × Str := ((r.statusCode_, r.codeMsg_, r.headers_), r.body_)

/-- A record as a response. -/
def ofRecord (p : Key × Str) : HttpResponse :=
  ⟨p.1.1, p.1.2.1, p.1.2.2, true, str "HTTP/1.1", p.2⟩

variable {r s : HttpResponse} {rs ss : List HttpResponse}

lemma KeptAlive.ok (h : KeptAlive r) : Key.Ok (record r).1 := ⟨h.msg, h.headers, h.sorted⟩

lemma ofRecord_keptAlive {p : Key × Str} (hp : Key.Ok p.1) : KeptAlive (ofRecord p) :=
  ⟨rfl, rfl, hp.msg, hp.headers, hp.sorted⟩

lemma KeptAlive.ofRecord_record (h : KeptAlive r) : ofRecord (record r) = r := by
  obtain ⟨hk, hv, -⟩ := h
  cases r
  simp_all [ofRecord, record]

lemma statusLine_eq (code : HttpStatusCode) :
    (str "HTTP/1.1" ++ SP :: code.digits ++ [SP]).take 13 = marker ++ (code.digits ++ [SP]) := by
  cases code <;> decide

lemma headerText_eq (headers : List (Str × Str)) :
    (headers.flatMap fun h => [h.1, str ": ", h.2, CRLF]).flatten = headerText headers := by
  induction headers with
  | nil => rfl
  | cons h hs ih =>
    rw [List.flatMap_cons, List.flatten_append, ih]
    simp [headerText]

lemma KeptAlive.text (h : KeptAlive r) : r.text = Framing.encode head (record r) := by
  have hline : r.statusLine = marker ++ (r.statusCode_.digits ++ [SP]) := by
    rw [HttpResponse.statusLine, h.version, statusLine_eq]
  simp only [HttpResponse.text, HttpResponse.pieces, hline, h.keep, if_true, List.flatten_append,
    headerText_eq, Framing.encode, head, record]
  simp

lemma text_stream (h : ∀ r ∈ rs, KeptAlive r) :
    rs.flatMap HttpResponse.text = Framing.stream head (rs.map record) := by
  induction rs with
  | nil => rfl
  | cons r rs ih =>
    obtain ⟨hr, hrs⟩ := List.forall_mem_cons.mp h
    rw [List.flatMap_cons, ih hrs, hr.text]
    simp [Framing.stream]

/-! ### Reading a head -/

lemma digits_space (code : HttpStatusCode) : SP ∉ code.digits := by cases code <;> decide

lemma digits_inj {c c' : HttpStatusCode} (h : c.digits = c'.digits) : c = c' := by
  cases c <;> cases c' <;> first | rfl | exact absurd h (by decide)

/-- A header line is not the blank line. -/
lemma header_ne_blank {name v x : Str} (hn : CR ∉ name) : name ++ COLON :: v ≠ CR :: x := by
  cases name with
  | nil => exact fun h => absurd (List.cons.inj h).1 (by decide)
  | cons c name => exact fun h => hn (by rw [(List.cons.inj h).1]; exact List.mem_cons_self)

lemma headerText_cons (h : Str × Str) (hs : List (Str × Str)) (x : Str) :
    headerText (h :: hs) ++ x =
      h.1 ++ COLON :: (SP :: (h.2 ++ CR :: (LF :: (headerText hs ++ x)))) := by
  simp [headerText, CRLF, str]

lemma headerText_inj {hs hs' : List (Str × Str)} {x y : Str}
    (h1 : ∀ h ∈ hs, OneLine h.1 ∧ OneLine h.2 ∧ COLON ∉ h.1)
    (h2 : ∀ h ∈ hs', OneLine h.1 ∧ OneLine h.2 ∧ COLON ∉ h.1)
    (h : headerText hs ++ CRLF ++ x = headerText hs' ++ CRLF ++ y) : hs = hs' ∧ x = y := by
  simp only [List.append_assoc] at h
  induction hs generalizing hs' with
  | nil =>
    cases hs' with
    | nil => exact ⟨rfl, List.append_cancel_left h⟩
    | cons b bs =>
      rw [headerText_cons] at h
      exact absurd h.symm (header_ne_blank (h2 b (by simp)).1.1)
  | cons a as ih =>
    cases hs' with
    | nil =>
      rw [headerText_cons] at h
      exact absurd h (header_ne_blank (h1 a (by simp)).1.1)
    | cons b bs =>
      obtain ⟨⟨hn, hv, hc⟩, has⟩ := List.forall_mem_cons.mp h1
      obtain ⟨⟨hn', hv', hc'⟩, hbs⟩ := List.forall_mem_cons.mp h2
      rw [headerText_cons, headerText_cons] at h
      obtain ⟨hname, h⟩ := cut_inj hc hc' h
      obtain ⟨hvalue, h⟩ := cut_inj hv.1 hv'.1 (List.cons.inj h).2
      obtain ⟨rfl, rfl⟩ := ih has hbs (List.cons.inj h).2
      exact ⟨by rw [Prod.ext hname hvalue], rfl⟩

lemma head_prefixFree : Framing.PrefixFree head Key.Ok := by
  rintro ⟨c, m, hs⟩ ⟨c', m', hs'⟩ x y hk hk' h
  have hm : CR ∉ m := hk.msg.1
  have hm' : CR ∉ m' := hk'.msg.1
  simp only [head, List.append_assoc, List.cons_append, CRLF, List.nil_append] at h
  obtain ⟨hc, h⟩ := cut_inj (digits_space c) (digits_space c') (List.append_cancel_left h)
  obtain ⟨rfl, hrest⟩ := cut_inj hm hm' h
  have hheaders := List.append_cancel_left (List.cons.inj hrest).2
  obtain ⟨rfl, rfl⟩ := headerText_inj (x := x) (y := y) hk.headers hk'.headers
    (by simpa [CRLF] using hheaders)
  rw [digits_inj hc]
  exact ⟨rfl, rfl⟩

lemma head_marks : Framing.Marks head Key.Ok marker := by
  refine ⟨by decide, fun _ _ => List.prefix_append _ _, fun n h0 hn => ?_⟩
  have hall : ∀ n < 9, 0 < n → marker.take n ≠ marker.drop (9 - n) := by decide
  exact hall n hn h0

/-! ### The stream -/

lemma foldlM_text (h : ∀ r ∈ rs, ∀ p ∈ r.pieces, p.length ≤ INT_MAX) {b : Buffer} (hb : b.Valid) :
    ∃ b', rs.foldlM (fun b r => r.addToBuffer b) b = .ok b' ∧ b'.Valid ∧
      b'.readable = b.readable ++ rs.flatMap HttpResponse.text := by
  induction rs generalizing b with
  | nil => exact ⟨b, rfl, hb, by simp⟩
  | cons r rs ih =>
    obtain ⟨hr, hrs⟩ := List.forall_mem_cons.mp h
    obtain ⟨b1, h1, hv1, hr1⟩ := r.addToBuffer_text hb hr
    obtain ⟨b2, h2, hv2, hr2⟩ := ih hrs hv1
    refine ⟨b2, ?_, hv2, by rw [hr2, hr1]; simp⟩
    rw [List.foldlM_cons, h1]
    exact h2

lemma written_text (h : ∀ r ∈ rs, ∀ p ∈ r.pieces, p.length ≤ INT_MAX) :
    written rs = .ok (rs.flatMap HttpResponse.text) := by
  obtain ⟨b, hb, -, hr⟩ := foldlM_text h (Buffer.new_valid 1024)
  rw [written, hb, ← List.nil_append (rs.flatMap _), ← Buffer.new_readable 1024, ← hr]
  rfl

lemma map_record_inj (hr : ∀ r ∈ rs, KeptAlive r) (hs : ∀ s ∈ ss, KeptAlive s)
    (h : rs.map record = ss.map record) : rs = ss := by
  have hback : ∀ {ts : List HttpResponse}, (∀ t ∈ ts, KeptAlive t) →
      (ts.map record).map ofRecord = ts := fun {ts} ht => by
    rw [List.map_map]
    exact (List.map_congr_left (g := id) fun t hmem => (ht t hmem).ofRecord_record).trans
      (List.map_id ts)
  rw [← hback hr, h, hback hs]

/-- **The responses are decoded in one way** if no body has the beginning of a response in it. -/
theorem decoded_in_one_way (rs ss : List HttpResponse) (hr : ∀ r ∈ rs, Framed r)
    (hs : ∀ s ∈ ss, Framed s) :
    ∃ x y, written rs = .ok x ∧ written ss = .ok y ∧ (x = y → rs = ss) := by
  refine ⟨_, _, written_text fun r h => (hr r h).short, written_text fun s h => (hs s h).short, ?_⟩
  have hr' : ∀ r ∈ rs, KeptAlive r := fun r h => (hr r h).toKeptAlive
  have hs' : ∀ s ∈ ss, KeptAlive s := fun s h => (hs s h).toKeptAlive
  intro h
  rw [text_stream hr', text_stream hs'] at h
  refine map_record_inj hr' hs' (Framing.stream_inj head_prefixFree head_marks ?_ ?_ h)
  · intro p hp
    obtain ⟨r, hmem, rfl⟩ := List.mem_map.mp hp
    exact ⟨(hr' r hmem).ok, (hr r hmem).body⟩
  · intro p hp
    obtain ⟨s, hmem, rfl⟩ := List.mem_map.mp hp
    exact ⟨(hs' s hmem).ok, (hs s hmem).body⟩

/-- **Bodies of any content**: the text of some responses is theirs alone exactly if there is at
most one, and its body does not end in the text of a response. -/
theorem told_apart_iff (rs : List HttpResponse) (hr : ∀ r ∈ rs, KeptAlive r) :
    (∀ ss, (∀ s ∈ ss, KeptAlive s) →
        ss.flatMap HttpResponse.text = rs.flatMap HttpResponse.text → ss = rs) ↔
      rs.length ≤ 1 ∧ ∀ r ∈ rs, ∀ s, KeptAlive s → ¬ s.text <:+ r.body_ := by
  have hok : ∀ p ∈ rs.map record, Key.Ok p.1 := fun p hp => by
    obtain ⟨r, hmem, rfl⟩ := List.mem_map.mp hp
    exact (hr r hmem).ok
  have hiff := Framing.stream_unique_iff head_prefixFree head_marks hok
  rw [List.length_map] at hiff
  constructor
  · intro h
    have hrec := hiff.mp fun qs hq hstream => by
      have hqs : ∀ s ∈ qs.map ofRecord, KeptAlive s := fun s hs => by
        obtain ⟨q, hmem, rfl⟩ := List.mem_map.mp hs
        exact ofRecord_keptAlive (hq q hmem)
      have hmap : (qs.map ofRecord).map record = qs := by rw [List.map_map]; exact List.map_id qs
      rw [← h _ hqs (by rw [text_stream hqs, hmap, hstream, text_stream hr]), hmap]
    refine ⟨hrec.1, fun r hmem s hs hsuf => ?_⟩
    rw [hs.text] at hsuf
    exact hrec.2 (record r) (List.mem_map_of_mem hmem) (record s) hs.ok hsuf
  · rintro ⟨hlen, hbody⟩ ss hs htext
    rw [text_stream hs, text_stream hr] at htext
    refine map_record_inj hs hr (hiff.mpr ⟨hlen, fun p hp q hq hsuf => ?_⟩ _ (fun p hp => ?_) htext)
    · obtain ⟨r, hmem, rfl⟩ := List.mem_map.mp hp
      refine hbody r hmem (ofRecord q) (ofRecord_keptAlive hq) ?_
      rw [(ofRecord_keptAlive hq).text]
      exact hsuf
    · obtain ⟨s, hmem, rfl⟩ := List.mem_map.mp hp
      exact (hs s hmem).ok

/-! ### A body that is a response -/

/-- The response to a request that keeps the connection. -/
def plain : HttpResponse := HttpServer.response true

def nested : HttpResponse := { plain with body_ := plain.text }

lemma plain_framed : Framed plain :=
  ⟨⟨rfl, rfl, ⟨by decide, by decide⟩, fun _ h => absurd h List.not_mem_nil, List.Pairwise.nil⟩,
    by decide, HttpServer.response_pieces true⟩

theorem decoded_in_one_way_plain :
    ∃ x y, written [plain] = .ok x ∧ written [plain, plain] = .ok y ∧
      (x = y → [plain] = [plain, plain]) :=
  decoded_in_one_way [plain] [plain, plain] (by simpa using plain_framed)
    (by simpa using plain_framed)

/-- One response with a body, or two without. -/
theorem body_read_as_response : KeptAlive plain ∧ KeptAlive nested ∧
    written [nested] = .ok (plain.text ++ plain.text) ∧
    written [plain, plain] = .ok (plain.text ++ plain.text) ∧ [nested] ≠ [plain, plain] := by
  have hp := plain_framed.toKeptAlive
  have hshort : ∀ p ∈ nested.pieces, p.length ≤ INT_MAX := by decide +kernel
  have htext : nested.text = plain.text ++ plain.text := by decide +kernel
  refine ⟨hp, ⟨hp.keep, hp.version, hp.msg, hp.headers, hp.sorted⟩, ?_, ?_, by simp⟩
  · rw [written_text (by simpa using hshort)]
    simp [htext]
  · rw [written_text (by simpa using plain_framed.short)]
    simp

end MuduoZ.ResponseStream
