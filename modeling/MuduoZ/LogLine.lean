import MuduoZ.LogStream

/-!
Whether a log record ends its line.

The constructor of `Logger` inserts the time in front of what the user inserts, and the destructor
the place in the source and a newline behind. All of this goes into the stream like the user's
text, each piece if there is room for it, and no room is kept for the newline.
-/

namespace MuduoZ

open LogStream Runs

structure Logger where
  stream_ : LogStream
  programFileName_ : Str
  line_ : IntType.size_t.Value

namespace Logger

def newline : UInt8 := 10

/-- `formatTime`: what `strftime` makes of the seconds, and the microseconds. -/
def formatTime (str_t : CString) (tv_usec : IntType.long.Value) : List Insertion :=
  [.charPtr (some str_t), .integer .long tv_usec, .charPtr (some ⟨str " ", by decide⟩)]

/-- The constructor, with a stream on whatever its array holds. -/
def new (stream_ : LogStream) (str_t : CString) (tv_usec : IntType.long.Value)
    (programFileName : Str) (line : IntType.size_t.Value) : Result Logger := do
  .ok ⟨← exec insert stream_ (formatTime str_t tv_usec), programFileName, line⟩

/-- What the user inserts. -/
def log (l : Logger) (is : List Insertion) : Result Logger := do
  .ok { l with stream_ := ← exec insert l.stream_ is }

/-- A log statement, up to the destructor. -/
def statement (stream_ : LogStream) (str_t : CString) (tv_usec : IntType.long.Value)
    (programFileName : Str) (line : IntType.size_t.Value) (is : List Insertion) :
    Result Logger := do
  (← new stream_ str_t tv_usec programFileName line).log is

/-- What the destructor inserts. -/
def trailer (l : Logger) : List Insertion :=
  [.charPtr (some ⟨str " -- ", by decide⟩), .string l.programFileName_, .char 58,
    .integer .size_t l.line_, .char newline]

/-- The destructor, and what it passes to `output()`. -/
def destroy (l : Logger) : Result Str := do
  .ok (← exec insert l.stream_ l.trailer).buffer_.data_

/-- The record ends with a newline. -/
def EndsLine (l : Logger) : Prop := ∃ bytes, l.destroy = .ok bytes ∧ bytes.getLast? = some newline

/-- The room after a text of `len` bytes was inserted, or dropped. -/
def left (room : ℤ) (len : ℕ) : ℤ := if toInt len < room then room - len else room

/-- The room after the separator. -/
def roomForName (l : Logger) : ℤ := left l.stream_.buffer_.getRemainLen 4

/-- The text up to the name of the source file. -/
def front (l : Logger) : Str :=
  l.stream_.buffer_.data_ ++ (if 4 < l.stream_.buffer_.getRemainLen then str " -- " else []) ++
    if toInt l.programFileName_.length < l.roomForName then l.programFileName_ else []

/-- The name does not pass for shorter than the room; and it leaves three bytes, or just one behind
text that happens to end with a newline. -/
def Room (l : Logger) : Prop :=
  (toInt l.programFileName_.length < l.roomForName →
    l.programFileName_.length ≤ l.roomForName) ∧
  (3 ≤ left l.roomForName l.programFileName_.length ∨
    left l.roomForName l.programFileName_.length ≤ 1 ∧ l.front.getLast? = some newline)

variable {l : Logger}

/-! ### The trailer -/

lemma append_left (s : LogStream) (msg : Str)
    (h : toInt msg.length < s.buffer_.getRemainLen → msg.length ≤ s.buffer_.getRemainLen) :
    ∃ t, s.append msg = .ok t ∧
      t.buffer_.data_ = s.buffer_.data_ ++
        (if toInt msg.length < s.buffer_.getRemainLen then msg else []) ∧
      t.buffer_.getRemainLen = left s.buffer_.getRemainLen msg.length := by
  obtain ⟨t, ht, hdata⟩ := append_spec h
  refine ⟨t, ht, hdata, ?_⟩
  rw [FixedBuffer.getRemainLen, hdata, List.length_append, left]
  split
  · rw [FixedBuffer.getRemainLen]
    push_cast
    ring
  · rw [FixedBuffer.getRemainLen, List.length_nil, Nat.add_zero]

/-- A text of ordinary length passes for what it is. -/
lemma append_small (s : LogStream) (msg : Str) (h : msg.length ≤ INT_MAX) :
    ∃ t, s.append msg = .ok t ∧
      t.buffer_.data_ = s.buffer_.data_ ++
        (if (msg.length : ℤ) < s.buffer_.getRemainLen then msg else []) ∧
      t.buffer_.getRemainLen = left s.buffer_.getRemainLen msg.length := by
  have hint := toInt_of_le h
  obtain ⟨t, ht, hdata, hroom⟩ := append_left s msg fun hlt => by
    rw [hint] at hlt; exact hlt.le
  rw [hint] at hdata
  exact ⟨t, ht, hdata, hroom⟩

lemma left_small {room : ℤ} {len : ℕ} (h : len ≤ INT_MAX) :
    left room len = if (len : ℤ) < room then room - len else room := by
  rw [left, toInt_of_le h]

/-- The number of the line leaves more than one byte, if there was more than one. -/
lemma line_left (s : LogStream) (line : IntType.size_t.Value) :
    ∃ t, s.formatInteger .size_t line = .ok t ∧
      (1 < s.buffer_.getRemainLen → 1 < t.buffer_.getRemainLen) ∧
      (s.buffer_.getRemainLen ≤ 1 → t.buffer_ = s.buffer_) := by
  obtain ⟨t, ht, hdata⟩ := formatInteger_spec s .size_t line
  have hlen := IntegerFormat.length_ofInt line
  by_cases hroom : IntegerFormat.kMaxNumericSize ≤ s.buffer_.getRemainLen
  · have hlong : (32 : ℤ) ≤ s.buffer_.getRemainLen := hroom
    rw [if_pos hroom] at hdata
    refine ⟨t, ht, fun _ => ?_, fun hone => by omega⟩
    rw [FixedBuffer.getRemainLen] at hlong ⊢
    rw [hdata, List.length_append]
    push_cast
    omega
  · rw [if_neg hroom, List.append_nil] at hdata
    have hsame : t.buffer_ = s.buffer_ := congrArg FixedBuffer.mk hdata
    exact ⟨t, ht, fun hone => by rwa [hsame], fun _ => hsame⟩

/-- What the destructor does behind the name of the source file. -/
lemma destroy_rest (l : Logger) (s : LogStream) : ∃ t,
    exec insert s [.char 58, .integer .size_t l.line_, .char newline] = .ok t ∧
    (t.buffer_.data_.getLast? = some newline ↔ 3 ≤ s.buffer_.getRemainLen ∨
      s.buffer_.getRemainLen ≤ 1 ∧ s.buffer_.data_.getLast? = some newline) := by
  obtain ⟨t₁, h₁, hdata₁, hroom₁⟩ := append_small s [58] (by decide)
  obtain ⟨t₂, h₂, hmore, hsame⟩ := line_left t₁ l.line_
  obtain ⟨t₃, h₃, hdata₃, -⟩ := append_small t₂ [newline] (by decide)
  refine ⟨t₃, ?_, ?_⟩
  · rw [exec_cons_ok insert (show s.insert (.char 58) = .ok t₁ from h₁),
      exec_cons_ok insert (show t₁.insert (.integer .size_t l.line_) = .ok t₂ from h₂),
      exec_cons_ok insert (show t₂.insert (.char newline) = .ok t₃ from h₃), exec_nil]
  · rw [left_small (by decide)] at hroom₁
    simp only [List.length_singleton, Nat.cast_one] at hdata₁ hroom₁ hdata₃
    rcases lt_or_ge 2 s.buffer_.getRemainLen with hlarge | hsmall
    · -- the newline is there
      rw [if_pos (by omega)] at hroom₁
      rw [if_pos (hmore (by omega))] at hdata₃
      rw [hdata₃, List.getLast?_append]
      exact iff_of_true rfl (.inl hlarge)
    · have hone : t₁.buffer_.getRemainLen ≤ 1 := by split at hroom₁ <;> omega
      rw [hsame hone, if_neg (not_lt.mpr hone), List.append_nil] at hdata₃
      rw [hdata₃, hdata₁]
      by_cases htwo : 1 < s.buffer_.getRemainLen
      · -- the colon is the last byte
        rw [if_pos htwo, List.getLast?_append]
        exact iff_of_false (fun he => absurd (Option.some.inj he) (by decide)) (by omega)
      · rw [if_neg htwo, List.append_nil]
        exact ⟨fun h => .inr ⟨not_lt.mp htwo, h⟩, fun h => (h.resolve_left (by omega)).2⟩

/-! ### The record -/

/-- **A record ends with a newline exactly when there is room for it.** -/
lemma endsLine_iff_room (l : Logger) : l.EndsLine ↔ l.Room := by
  obtain ⟨t₁, h₁, hdata₁, hroom₁⟩ := append_small l.stream_ (str " -- ") (by decide)
  have hlen : (str " -- ").length = 4 := rfl
  rw [hlen] at hdata₁ hroom₁
  have h₁ : l.stream_.insert (.charPtr (some ⟨str " -- ", by decide⟩)) = .ok t₁ := h₁
  have hdestroy : l.destroy = (do
      .ok (← exec insert t₁ (.string l.programFileName_ ::
        [.char 58, .integer .size_t l.line_, .char newline])).buffer_.data_) := by
    rw [destroy, trailer, exec_cons_ok insert h₁]
  by_cases hfit : toInt l.programFileName_.length < l.roomForName →
      l.programFileName_.length ≤ l.roomForName
  · rw [roomForName, ← hroom₁] at hfit
    obtain ⟨t₂, h₂, hdata₂, hroom₂⟩ := append_left _ _ hfit
    obtain ⟨t, ht, hlast⟩ := destroy_rest l t₂
    have h₂ : t₁.insert (.string l.programFileName_) = .ok t₂ := h₂
    rw [exec_cons_ok insert h₂, ht, ok_bind] at hdestroy
    have hends : l.EndsLine ↔ t.buffer_.data_.getLast? = some newline := by
      rw [EndsLine, hdestroy]
      simp
    have hfront : t₂.buffer_.data_ = l.front := by
      rw [hdata₂, hdata₁, hroom₁]
      rfl
    rw [hroom₁] at hroom₂ hfit
    rw [hends, hlast, hfront, hroom₂]
    exact ⟨fun h => ⟨hfit, h⟩, fun h => h.2⟩
  · refine iff_of_false ?_ fun h => hfit h.1
    obtain ⟨hlt, hgt⟩ := Classical.not_imp.mp hfit
    rw [roomForName, ← hroom₁] at hlt hgt
    rintro ⟨bytes, hbytes, -⟩
    obtain ⟨t, ht, -⟩ := bind_ok_iff.mp (hdestroy.symm.trans hbytes)
    obtain ⟨t₂, ht₂, -⟩ := (exec_cons_iff insert).mp ht
    exact append_range hlt hgt t₂ ht₂

/-- **A log record ends its line exactly when the user's insertions leave room for it**, for every
time, source file, line and sequence of insertions. -/
theorem endsLine_iff (stream : LogStream) (str_t : CString) (tv_usec : IntType.long.Value)
    (programFileName : Str) (line : IntType.size_t.Value) (is : List Insertion) :
    (∀ l, statement stream str_t tv_usec programFileName line is = .ok l → l.EndsLine) ↔
      ∀ l, statement stream str_t tv_usec programFileName line is = .ok l → l.Room :=
  forall₂_congr fun l _ => endsLine_iff_room l

/-- Behind a time and a text that leave one byte there is no newline. -/
theorem unended_line : ∃ l, statement blank ⟨str "2024-01-01 00:00:00  ", by decide⟩ ⟨0, by decide⟩
    (str "a.cc") ⟨1, by decide⟩ [.string (List.replicate 3976 97)] = .ok l ∧ ¬ l.EndsLine := by
  generalize hr : statement blank ⟨str "2024-01-01 00:00:00  ", by decide⟩ ⟨0, by decide⟩
    (str "a.cc") ⟨1, by decide⟩ [.string (List.replicate 3976 97)] = r
  have hrun : r.toOption.map (fun l => (l.stream_.buffer_.getRemainLen,
      l.stream_.buffer_.data_.getLast?, l.programFileName_)) = some (1, some 97, str "a.cc") := by
    rw [← hr]; decide +kernel
  cases r with
  | error e => cases hrun
  | ok l =>
    refine ⟨l, rfl, fun h => ?_⟩
    obtain ⟨hroom, hlast, hname⟩ : l.stream_.buffer_.getRemainLen = 1 ∧
        l.stream_.buffer_.data_.getLast? = some 97 ∧ l.programFileName_ = str "a.cc" := by
      simpa only [Prod.mk.injEq] using Option.some.inj hrun
    have hleft : left 1 4 = 1 := by decide
    have hname' : l.roomForName = 1 := by rw [roomForName, hroom, hleft]
    have hlen : (str "a.cc").length = 4 := rfl
    obtain ⟨-, hend⟩ := (endsLine_iff_room l).mp h
    rw [hname', hname, hlen, hleft] at hend
    obtain ⟨-, hend⟩ := hend.resolve_left (by decide)
    rw [front, hroom, hname, hname', if_neg (by decide), if_neg (by decide), List.append_nil,
      List.append_nil, hlast] at hend
    exact absurd (Option.some.inj hend) (by decide)

end Logger

end MuduoZ
