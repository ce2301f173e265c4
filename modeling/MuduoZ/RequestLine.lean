import MuduoZ.HttpFormat

/-!
The request line: which lines `parseRequestLine` accepts, and what it makes of the target.

The question mark is looked for up to the end of the line, not up to the space that ends the
target. If the first one comes after that space, the query is a range that ends before it begins.
-/

namespace MuduoZ.RequestLine

open Search HttpRequest HttpFormat

/-- `M SP T SP V`, with a target that has no space. -/
def IsLine (line : Str) (v : Verb) (target : Str) (p : Protocol) : Prop :=
  SP ∉ target ∧ line = v.text ++ SP :: (target ++ SP :: p.text)

/-- A fresh parser reads the line without leaving its range, accepts it exactly if it is a
request line, and then splits the target at its first question mark. -/
def Exact (line : Str) : Prop :=
  ∃ ok r, HttpRequest.new.parseRequestLine line = .ok (ok, r) ∧
    (ok = true ↔ ∃ v target p, IsLine line v target p) ∧
    ∀ v target p, IsLine line v target p →
      r.path_ = target.take (target.idxOf QUESTION) ∧
      r.query_ = target.drop (target.idxOf QUESTION + 1)

/-- After a known method and a target without a question mark, there is one in what follows. -/
def LateQuestion (line : Str) : Prop :=
  ∃ (v : Verb) (target rest : Str), SP ∉ target ∧ QUESTION ∉ target ∧ QUESTION ∈ rest ∧
    line = v.text ++ SP :: (target ++ SP :: rest)

variable (r : HttpRequest)

lemma verb_space (v : Verb) : SP ∉ v.text := by cases v <;> decide

lemma setMethod_iff (m : Str) : (r.setMethod m).1 = true ↔ ∃ v : Verb, m = v.text := by
  constructor
  · intro h
    unfold setMethod at h
    split_ifs at h with h1 h2 h3 h4 h5
    exacts [⟨.get, h1⟩, ⟨.post, h2⟩, ⟨.put, h3⟩, ⟨.delete, h4⟩, ⟨.head, h5⟩]
  · rintro ⟨v, rfl⟩
    rw [setMethod_text]

lemma setVersion_iff (w : Str) : (r.setVersion w).1 = true ↔ ∃ p : Protocol, w = p.text := by
  constructor
  · intro h
    unfold setVersion at h
    split_ifs at h with h1 h2
    exacts [⟨.http10, h1⟩, ⟨.http11, h2⟩]
  · rintro ⟨p, rfl⟩
    rw [setVersion_text]

lemma setVersion_target (w : Str) : (r.setVersion w).2.path_ = r.path_ ∧
    (r.setVersion w).2.query_ = r.query_ := by
  unfold setVersion
  split_ifs <;> exact ⟨rfl, rfl⟩

/-! ### One space after the other -/

lemma parseRequestLine_noSpace {line : Str} (h : SP ∉ line) :
    r.parseRequestLine line = .ok (false, r) := by
  rw [parseRequestLine, if_pos (List.idxOf_eq_length h)]

lemma drop_cut (u v : Str) : (u ++ SP :: v).drop (u.length + 1) = v := by
  rw [← List.drop_drop, List.drop_left]; rfl

lemma length_ne_cut (u v : Str) : u.length ≠ (u ++ SP :: v).length := by simp

lemma parseRequestLine_refused {m : Str} (hm : SP ∉ m) (rest : Str)
    (h : (r.setMethod m).1 = false) :
    r.parseRequestLine (m ++ SP :: rest) = .ok (false, (r.setMethod m).2) := by
  unfold parseRequestLine
  simp only [idxOf_append_cons hm, List.take_left]
  rw [if_neg (length_ne_cut m rest), h]
  rfl

lemma parseRequestLine_noTarget (v : Verb) {rest : Str} (hr : SP ∉ rest) :
    r.parseRequestLine (v.text ++ SP :: rest) =
      .ok (false, { r with method_ := v.method }) := by
  unfold parseRequestLine
  simp only [idxOf_append_cons (verb_space v), List.take_left, setMethod_text, drop_cut,
    List.idxOf_eq_length hr]
  rw [if_neg (length_ne_cut v.text rest)]
  split_ifs <;> rfl

lemma parseRequestLine_cut (v : Verb) {t : Str} (ht : SP ∉ t) (w : Str) :
    r.parseRequestLine (v.text ++ SP :: (t ++ SP :: w)) = (do
      let r ← { r with method_ := v.method }.setTarget (t ++ SP :: w)
        ((t ++ SP :: w).idxOf QUESTION) t.length
      if w = [] then .ok (false, r) else .ok (r.setVersion w)) := by
  have hend : ∀ u : Str, t.length + 1 = (t ++ SP :: u).length ↔ u = [] := by
    intro u
    rw [← List.length_eq_zero_iff]
    simp
  unfold parseRequestLine
  simp only [idxOf_append_cons (verb_space v), List.take_left, setMethod_text, drop_cut,
    idxOf_append_cons ht, hend]
  rw [if_neg (length_ne_cut _ _), if_neg (by simp), if_neg (by simp),
    if_neg (length_ne_cut t w)]

/-! ### The target -/

/-- The query a target gives, if it has a question mark. -/
def queryOf (r : HttpRequest) (target : Str) : Str :=
  if QUESTION ∈ target then target.drop (target.idxOf QUESTION + 1) else r.query_

lemma setTarget_split {t w : Str} (h : QUESTION ∈ t ∨ QUESTION ∉ w) :
    r.setTarget (t ++ SP :: w) ((t ++ SP :: w).idxOf QUESTION) t.length =
      .ok { r with path_ := t.take (t.idxOf QUESTION), query_ := queryOf r t } := by
  unfold setTarget queryOf
  by_cases hm : QUESTION ∈ t
  · have hlt := List.idxOf_lt_length_of_mem hm
    rw [List.idxOf_append_of_mem hm, if_neg (by simp; omega), if_pos (by omega), if_pos hm,
      List.take_append_of_le_length hlt.le, List.take_left]
  · have hw : QUESTION ∉ SP :: w :=
      List.not_mem_cons_of_ne_of_not_mem (by decide) (h.resolve_left hm)
    have hn : QUESTION ∉ t ++ SP :: w := fun hmem => (List.mem_append.mp hmem).elim hm hw
    rw [if_pos (List.idxOf_eq_length hn), if_neg hm, List.take_left, List.idxOf_eq_length hm,
      List.take_length]

lemma setTarget_late {t w : Str} (ht : QUESTION ∉ t) (hw : QUESTION ∈ w) :
    r.setTarget (t ++ SP :: w) ((t ++ SP :: w).idxOf QUESTION) t.length = .error .range := by
  have hlt := List.idxOf_lt_length_of_mem (List.mem_append_right t (List.mem_cons_of_mem SP hw))
  rw [List.idxOf_append_of_notMem ht] at hlt ⊢
  rw [setTarget, if_neg hlt.ne, if_neg (by omega)]

/-! ### The line -/

lemma isLine_cut {v v' : Verb} {t t' w : Str} {p : Protocol} (ht : SP ∉ t)
    (h : IsLine (v.text ++ SP :: (t ++ SP :: w)) v' t' p) :
    v.text = v'.text ∧ t = t' ∧ w = p.text := by
  obtain ⟨ht', h⟩ := h
  obtain ⟨hv, h⟩ := cut_inj (verb_space v) (verb_space v') h
  exact ⟨hv, cut_inj ht ht' h⟩

lemma not_late_of_isLine {line : Str} {v : Verb} {t : Str} {p : Protocol} (h : IsLine line v t p) :
    ¬ LateQuestion line := by
  rintro ⟨v', t', w, ht', -, hw, rfl⟩
  rw [(isLine_cut ht' h).2.2] at hw
  revert hw
  cases p <;> decide

/-- The line is read: it is accepted exactly if it is a request line, and then the parser holds
the two parts of its target. -/
def Reads (line : Str) : Prop :=
  ∃ ok r', r.parseRequestLine line = .ok (ok, r') ∧
    (ok = true ↔ ∃ v target p, IsLine line v target p) ∧
    ∀ v target p, IsLine line v target p →
      r'.path_ = target.take (target.idxOf QUESTION) ∧ r'.query_ = queryOf r target

/-- A line that is refused, and rightly. -/
lemma reads_of_refused {line : Str} {r' : HttpRequest}
    (h : r.parseRequestLine line = .ok (false, r'))
    (hno : ∀ v target p, ¬ IsLine line v target p) : Reads r line :=
  ⟨false, r', h, ⟨by simp, fun ⟨v, t, p, hl⟩ => absurd hl (hno v t p)⟩,
    fun v t p hl => absurd hl (hno v t p)⟩

lemma reads_of_cut (v : Verb) {t w : Str} (ht : SP ∉ t) (h : QUESTION ∈ t ∨ QUESTION ∉ w) :
    Reads r (v.text ++ SP :: (t ++ SP :: w)) := by
  have hp := parseRequestLine_cut r v ht w
  rw [setTarget_split _ h] at hp
  by_cases hw : w = []
  · subst hw
    refine reads_of_refused r hp fun v' t' p hl => ?_
    have hnil := (isLine_cut ht hl).2.2
    cases p <;> cases hnil
  · obtain ⟨r1, hr1⟩ : ∃ r1 : HttpRequest, r1 = { r with
      method_ := v.method, path_ := t.take (t.idxOf QUESTION), query_ := queryOf r t } := ⟨_, rfl⟩
    obtain ⟨hpath, hquery⟩ := setVersion_target r1 w
    refine ⟨(r1.setVersion w).1, (r1.setVersion w).2, ?_, ?_, fun v' t' p hl => ?_⟩
    · rw [hr1]; exact hp.trans (if_neg hw)
    · rw [setVersion_iff]
      constructor
      · rintro ⟨p, rfl⟩; exact ⟨v, t, p, ht, rfl⟩
      · rintro ⟨v', t', p, hl⟩; exact ⟨p, (isLine_cut ht hl).2.2⟩
    · obtain rfl := (isLine_cut ht hl).2.1
      rw [hpath, hquery, hr1]
      exact ⟨rfl, rfl⟩

/-- **All that `parseRequestLine` does**: it leaves its range, or it reads the line. -/
theorem parseRequestLine_cases (line : Str) :
    LateQuestion line ∧ r.parseRequestLine line = .error .range ∨
      ¬ LateQuestion line ∧ Reads r line := by
  by_cases hl : LateQuestion line
  · refine .inl ⟨hl, ?_⟩
    obtain ⟨v, t, w, ht, hq, hw, rfl⟩ := hl
    rw [parseRequestLine_cut _ v ht w, setTarget_late _ hq hw]
    rfl
  · refine .inr ⟨hl, ?_⟩
    by_cases h1 : SP ∈ line
    · obtain ⟨m, rest, rfl, hm⟩ := List.eq_append_cons_of_mem h1
      cases hset : (r.setMethod m).1 with
      | false =>
        refine reads_of_refused r (parseRequestLine_refused r hm rest hset) fun v t p hline => ?_
        have hv := (setMethod_iff r m).mpr ⟨v, (cut_inj hm (verb_space v) hline.2).1⟩
        rw [hset] at hv
        cases hv
      | true =>
        obtain ⟨v, rfl⟩ := (setMethod_iff r m).mp hset
        by_cases h2 : SP ∈ rest
        · obtain ⟨t, w, rfl, ht⟩ := List.eq_append_cons_of_mem h2
          refine reads_of_cut r v ht ?_
          by_contra hno
          obtain ⟨hq, hw⟩ := not_or.mp hno
          exact hl ⟨v, t, w, ht, hq, not_not.mp hw, rfl⟩
        · refine reads_of_refused r (parseRequestLine_noTarget r v h2) fun v' t p hline => ?_
          obtain ⟨-, rfl⟩ := cut_inj (verb_space v) (verb_space v') hline.2
          exact h2 (by simp)
    · refine reads_of_refused r (parseRequestLine_noSpace r h1) fun v t p hline => ?_
      rw [hline.2] at h1
      exact h1 (by simp)

lemma queryOf_new (target : Str) :
    queryOf .new target = target.drop (target.idxOf QUESTION + 1) := by
  unfold queryOf
  split_ifs with h
  · rfl
  · rw [List.idxOf_eq_length h, List.drop_eq_nil_of_le (Nat.le_succ _)]
    rfl

lemma not_exact_of_late {line : Str} (hl : LateQuestion line) : ¬ Exact line := by
  rintro ⟨ok, r, hp, -⟩
  rcases parseRequestLine_cases .new line with ⟨-, he⟩ | ⟨hno, -⟩
  · rw [hp] at he; cases he
  · exact hno hl

/-- **A request line is parsed exactly unless its first question mark comes after the target.** -/
theorem exact_iff (line : Str) : Exact line ↔ ¬ LateQuestion line := by
  rcases parseRequestLine_cases .new line with ⟨hl, -⟩ | ⟨hl, ok, r, hp, hiff, hsplit⟩
  · exact ⟨fun h => absurd h (not_exact_of_late hl), fun hno => absurd hl hno⟩
  · refine ⟨fun _ => hl, fun _ => ⟨ok, r, hp, hiff, fun v t p hline => ?_⟩⟩
    rw [← queryOf_new]
    exact hsplit v t p hline

/-- `GET / HTTP/1.1?` -/
theorem late_question :
    ¬ CRLF <:+: str "GET / HTTP/1.1?" ∧ ¬ Exact (str "GET / HTTP/1.1?") :=
  ⟨by decide +kernel, not_exact_of_late
    ⟨.get, str "/", str "HTTP/1.1?", by decide, by decide, by decide, by decide⟩⟩

end MuduoZ.RequestLine
