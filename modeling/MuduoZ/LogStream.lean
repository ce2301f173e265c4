import MuduoZ.FixedBuffer
import MuduoZ.IntegerFormat
import MuduoZ.Lib.Run

/-!
The stream into which a log record is written.

Text is copied if there is room for it. A number is written in place, behind the cursor, and then
the cursor is moved on by its length. To `snprintf` the size of the number's type is passed as the
size of the buffer: of a longer text it writes the beginning, and the cursor is moved on by all
of it.
-/

namespace MuduoZ

/-- The buffer, and the bytes of its array behind the cursor. -/
structure LogStream where
  buffer_ : FixedBuffer smallBufferSize
  behind : Str
  whole : buffer_.data_.length + behind.length = smallBufferSize

/-- A string in memory that a NUL ends. -/
structure CString where
  chars : Str
  noNul : 0 ∉ chars

/-- What `printf` makes of a floating point number. -/
structure Rendering extends CString where
  ne_nil : chars ≠ []
  short : chars.length ≤ 31

/-- What is inserted into the stream. -/
inductive Insertion
  | bool (t : Bool)
  | integer (T : IntType) (t : T.Value)
  | float (t : Rendering)
  | double (t : Rendering)
  | longDouble (t : Rendering)
  | char (t : UInt8)
  | charPtr (t : Option CString)
  | unsignedCharPtr (t : Option CString)
  | string (t : Str)

namespace LogStream

open Decimal IntegerFormat Runs

/-! ### The buffer and its array -/

/-- Bytes written at the cursor. -/
def write (s : LogStream) (bytes : Str) : Result LogStream :=
  if h : bytes.length ≤ s.behind.length then
    .ok ⟨s.buffer_, bytes ++ s.behind.drop bytes.length, by
      have := s.whole; rw [List.length_append, List.length_drop]; omega⟩
  else .error .range

def addCurPos (s : LogStream) (len : ℕ) : Result LogStream :=
  if h : len ≤ s.behind.length then
    .ok ⟨⟨s.buffer_.data_ ++ s.behind.take len⟩, s.behind.drop len, by
      have := s.whole; rw [List.length_append, List.length_take, List.length_drop]; omega⟩
  else .error .range

/-- `append` of the buffer: `memcpy`, and the cursor moved on. -/
def append (s : LogStream) (msg : Str) : Result LogStream :=
  if toInt msg.length < s.buffer_.getRemainLen then do
    (← s.write msg).addCurPos msg.length
  else .ok s

/-! ### The insertions -/

def formatInteger (s : LogStream) (T : IntType) (t : T.Value) : Result LogStream :=
  if kMaxNumericSize ≤ s.buffer_.getRemainLen then do
    let (bytes, len) ← convert T t
    (← s.write bytes).addCurPos len
  else .ok s

/-- The bytes that `snprintf` writes, and what it returns. -/
def snprintf (size : ℕ) (t : CString) : Str × ℕ :=
  (if size = 0 then [] else t.chars.take (size - 1) ++ [0], t.chars.length)

/-- The insertion of a floating point number of `size` bytes. -/
def formatFloating (s : LogStream) (size : ℕ) (t : Rendering) : Result LogStream :=
  if kMaxNumericSize ≤ s.buffer_.getRemainLen then do
    let (bytes, len) := snprintf size t.toCString
    (← s.write bytes).addCurPos len
  else .ok s

def sizeofDouble : ℕ := 8
def sizeofLongDouble : ℕ := 16

def insertDouble (s : LogStream) (t : Rendering) : Result LogStream :=
  s.formatFloating sizeofDouble t

def insertCharPtr (s : LogStream) : Option CString → Result LogStream
  | some t => s.append t.chars
  | none => s.append (str "(null)")

/-- `operator<<`. -/
def insert (s : LogStream) : Insertion → Result LogStream
  | .bool t => s.append (if t then str "1" else str "0")
  | .integer T t => s.formatInteger T t
  | .float t => s.insertDouble t
  | .double t => s.insertDouble t
  | .longDouble t => s.formatFloating sizeofLongDouble t
  | .char t => s.append [t]
  | .charPtr t => s.insertCharPtr t
  | .unsignedCharPtr t => s.insertCharPtr t
  | .string t => s.append t

/-! ### What an insertion should do -/

/-- The text of what is inserted. -/
def text : Insertion → Str
  | .bool t => if t then str "1" else str "0"
  | .integer _ t => ofInt t.val
  | .float t | .double t | .longDouble t => t.chars
  | .char t => [t]
  | .charPtr t | .unsignedCharPtr t => match t with
    | some t => t.chars
    | none => str "(null)"
  | .string t => t

/-- The whole text is appended, or nothing; and the data does not grow out of its array. -/
def AllOrNothing (s : LogStream) (i : Insertion) : Prop :=
  ∃ t, s.insert i = .ok t ∧
    (t.buffer_.data_ = s.buffer_.data_ ++ text i ∨ t.buffer_.data_ = s.buffer_.data_) ∧
    t.buffer_.data_.length ≤ smallBufferSize

/-- The size that is passed to `snprintf`. -/
def sizeof : Insertion → Option ℕ
  | .float _ | .double _ => some sizeofDouble
  | .longDouble _ => some sizeofLongDouble
  | _ => none

/-- A floating point number for which there is room is shorter than its size in memory. A text that
passes for shorter than the room is not longer than it. -/
def Fits (s : LogStream) (i : Insertion) : Prop :=
  match sizeof i with
  | some size => kMaxNumericSize ≤ s.buffer_.getRemainLen → (text i).length < size
  | none => toInt (text i).length < s.buffer_.getRemainLen →
      (text i).length ≤ s.buffer_.getRemainLen

variable {s t : LogStream} {bytes msg : Str} {len size : ℕ}

/-! ### The room that is left -/

lemma remainLen_eq (s : LogStream) : s.buffer_.getRemainLen = s.behind.length := by
  have := s.whole
  rw [FixedBuffer.getRemainLen]
  omega

lemma write_addCurPos (s : LogStream) (bytes : Str) (len : ℕ)
    (hb : bytes.length ≤ s.behind.length) (hl : len ≤ s.behind.length) :
    ∃ t, (do (← s.write bytes).addCurPos len) = .ok t ∧
      t.buffer_.data_ = s.buffer_.data_ ++ (bytes ++ s.behind.drop bytes.length).take len := by
  have hlen : len ≤ (bytes ++ s.behind.drop bytes.length).length := by
    rw [List.length_append, List.length_drop]; omega
  rw [write, dif_pos hb, ok_bind, addCurPos, dif_pos hlen]
  exact ⟨_, rfl, rfl⟩

/-- Text written in place with a NUL, which the cursor is not moved over. -/
lemma write_text (s : LogStream) {msg : Str} (h : msg.length < s.behind.length) :
    ∃ t, (do (← s.write (msg ++ [0])).addCurPos msg.length) = .ok t ∧
      t.buffer_.data_ = s.buffer_.data_ ++ msg := by
  have hlen : (msg ++ [0]).length ≤ s.behind.length := by
    rw [List.length_append, List.length_singleton]; exact h
  obtain ⟨t, ht, hdata⟩ := write_addCurPos s (msg ++ [0]) msg.length hlen h.le
  rw [List.append_assoc, List.take_left] at hdata
  exact ⟨t, ht, hdata⟩

/-- **The stream appends as its buffer does**: what is copied to the array is what the buffer has in
front of its cursor. -/
lemma append_buffer (s : LogStream) (msg : Str) :
    (do .ok (← s.append msg).buffer_) = s.buffer_.append msg := by
  unfold append FixedBuffer.append
  by_cases hlt : toInt msg.length < s.buffer_.getRemainLen
  · rw [if_pos hlt, if_pos hlt, remainLen_eq]
    by_cases hle : msg.length ≤ s.behind.length
    · obtain ⟨t, ht, hdata⟩ := write_addCurPos s msg _ hle hle
      rw [List.take_left] at hdata
      rw [if_pos (by exact_mod_cast hle), ht, ok_bind, ← hdata]
    · rw [if_neg (by exact_mod_cast hle), write, dif_neg hle]
      rfl
  · rw [if_neg hlt, if_neg hlt]
    rfl

/-- Text for which there is room is appended, other text is not. -/
lemma append_spec (h : toInt msg.length < s.buffer_.getRemainLen →
      msg.length ≤ s.buffer_.getRemainLen) :
    ∃ t, s.append msg = .ok t ∧ t.buffer_.data_ = s.buffer_.data_ ++
      if toInt msg.length < s.buffer_.getRemainLen then msg else [] := by
  obtain ⟨t, ht, hbuffer⟩ := bind_ok_iff.mp ((append_buffer s msg).trans (FixedBuffer.append_ok h))
  exact ⟨t, ht, congrArg FixedBuffer.data_ (Except.ok.inj hbuffer)⟩

/-- Text that only passes for shorter than the room is written beyond the array. -/
lemma append_range (h : toInt msg.length < s.buffer_.getRemainLen)
    (hgt : ¬ (msg.length : ℤ) ≤ s.buffer_.getRemainLen) (t : LogStream) :
    s.append msg ≠ .ok t := by
  intro ht
  have hbuffer := append_buffer s msg
  rw [ht, ok_bind, FixedBuffer.append_range h hgt] at hbuffer
  cases hbuffer

lemma formatInteger_spec (s : LogStream) (T : IntType) (i : T.Value) :
    ∃ t, s.formatInteger T i = .ok t ∧ t.buffer_.data_ = s.buffer_.data_ ++
      if kMaxNumericSize ≤ s.buffer_.getRemainLen then ofInt i.val else [] := by
  unfold formatInteger
  split
  · rename_i hroom
    rw [remainLen_eq] at hroom
    unfold kMaxNumericSize at hroom
    have hlen := length_ofInt i
    rw [convert_eq, ok_bind]
    exact write_text s (by omega)
  · exact ⟨s, rfl, (List.append_nil _).symm⟩

/-- A rendering that is shorter than the size is appended, if there is room for numbers. -/
lemma formatFloating_short {r : Rendering} (hsize : size ≤ kMaxNumericSize)
    (h : kMaxNumericSize ≤ s.buffer_.getRemainLen → r.chars.length < size) :
    ∃ t, s.formatFloating size r = .ok t ∧ t.buffer_.data_ = s.buffer_.data_ ++
      if kMaxNumericSize ≤ s.buffer_.getRemainLen then r.chars else [] := by
  unfold formatFloating
  split
  · rename_i hroom
    have hlt := h hroom
    rw [remainLen_eq] at hroom
    have htake : r.chars.take (size - 1) = r.chars := List.take_of_length_le (by omega)
    rw [snprintf, if_neg (by omega), htake]
    exact write_text s (by omega)
  · exact ⟨s, rfl, (List.append_nil _).symm⟩

/-- Of a longer one `snprintf` writes the beginning and a NUL; the rest is what was there. -/
lemma formatFloating_long {r : Rendering} (hpos : 0 < size) (hsize : size ≤ kMaxNumericSize)
    (hroom : kMaxNumericSize ≤ s.buffer_.getRemainLen) (hlong : size ≤ r.chars.length) :
    ∃ t rest, s.formatFloating size r = .ok t ∧
      t.buffer_.data_ = s.buffer_.data_ ++ r.chars.take (size - 1) ++ 0 :: rest := by
  have hshort := r.short
  rw [formatFloating, if_pos hroom, snprintf, if_neg hpos.ne']
  rw [remainLen_eq] at hroom
  unfold kMaxNumericSize at hsize hroom
  have hlen : (r.chars.take (size - 1)).length = size - 1 := List.length_take_of_le (by omega)
  obtain ⟨t, ht, hdata⟩ := write_addCurPos s (r.chars.take (size - 1) ++ [0]) r.chars.length
    (by rw [List.length_append, hlen, List.length_singleton]; omega)
    (by omega)
  rw [List.append_assoc, List.singleton_append, List.take_append, hlen,
    List.take_of_length_le (by omega), List.take_cons (by omega), ← List.append_assoc] at hdata
  exact ⟨t, _, ht, hdata⟩

/-! ### The sequence of insertions -/

lemma length_le (s : LogStream) : s.buffer_.data_.length ≤ smallBufferSize :=
  (Nat.le_add_right _ _).trans s.whole.le

/-- What was done is done in whole. -/
lemma allOrNothing_of_data {i : Insertion} {c : Prop} [Decidable c]
    (h : ∃ t, s.insert i = .ok t ∧
      t.buffer_.data_ = s.buffer_.data_ ++ if c then text i else []) : AllOrNothing s i := by
  obtain ⟨t, ht, hdata⟩ := h
  refine ⟨t, ht, ?_, length_le t⟩
  split at hdata
  · exact .inl hdata
  · exact .inr (hdata.trans (List.append_nil _))

lemma append_iff {i : Insertion} (hi : s.insert i = s.append (text i)) (hsize : sizeof i = none) :
    AllOrNothing s i ↔ Fits s i := by
  have hfits : Fits s i ↔ (toInt (text i).length < s.buffer_.getRemainLen →
      (text i).length ≤ s.buffer_.getRemainLen) := by rw [Fits, hsize]
  rw [hfits]
  constructor
  · rintro ⟨t, ht, -⟩ hlt
    by_contra hgt
    exact append_range hlt hgt t (hi.symm.trans ht)
  · intro h
    obtain ⟨t, ht, hdata⟩ := append_spec h
    exact allOrNothing_of_data ⟨t, hi.trans ht, hdata⟩

lemma formatInteger_iff (s : LogStream) (T : IntType) (n : T.Value) :
    AllOrNothing s (.integer T n) ↔ Fits s (.integer T n) := by
  refine iff_of_true (allOrNothing_of_data (formatInteger_spec s T n)) fun hlt => ?_
  have hlen : (ofInt n.val).length ≤ INT_MAX := (length_ofInt n).trans (by decide)
  rw [text, toInt_of_le hlen] at hlt
  exact hlt.le

lemma formatFloating_iff {i : Insertion} {r : Rendering} (hpos : 0 < size)
    (hle : size ≤ kMaxNumericSize) (hi : s.insert i = s.formatFloating size r)
    (htext : text i = r.chars) (hsize : sizeof i = some size) : AllOrNothing s i ↔ Fits s i := by
  have hfits : Fits s i ↔ (kMaxNumericSize ≤ s.buffer_.getRemainLen →
      r.chars.length < size) := by rw [Fits, hsize, htext]
  rw [hfits]
  constructor
  · rintro ⟨t, ht, hdata, -⟩ hroom
    by_contra hlong
    obtain ⟨t', rest, ht', hdata'⟩ := formatFloating_long hpos hle hroom (not_lt.mp hlong)
    obtain rfl := Except.ok.inj (ht.symm.trans (hi.trans ht'))
    rw [hdata', htext, List.append_assoc] at hdata
    rcases hdata with hdata | hdata
    · exact r.noNul (List.append_cancel_left hdata ▸ by simp)
    · simp at hdata
  · intro h
    obtain ⟨t, ht, hdata⟩ := formatFloating_short hle h
    rw [← htext] at hdata
    exact allOrNothing_of_data ⟨t, hi.trans ht, hdata⟩

/-- One insertion. -/
lemma allOrNothing_iff_fits (s : LogStream) (i : Insertion) : AllOrNothing s i ↔ Fits s i := by
  cases i with
  | bool t => exact append_iff rfl rfl
  | integer T t => exact formatInteger_iff s T t
  | float t => exact formatFloating_iff (by decide) (by decide) rfl rfl rfl
  | double t => exact formatFloating_iff (by decide) (by decide) rfl rfl rfl
  | longDouble t => exact formatFloating_iff (by decide) (by decide) rfl rfl rfl
  | char t => exact append_iff rfl rfl
  | charPtr t => cases t <;> exact append_iff rfl rfl
  | unsignedCharPtr t => cases t <;> exact append_iff rfl rfl
  | string t => exact append_iff rfl rfl

/-- **Insertions are all or nothing exactly when every floating point number is shorter than its
size in memory wherever there is room for it**, and no text is so long that its length comes out
as a smaller `int`: for every sequence of insertions, from whatever is in the buffer. -/
theorem allOrNothing_iff (s : LogStream) (is : List Insertion) :
    Asks insert AllOrNothing s is ↔ Asks insert Fits s is :=
  forall_congr' fun _ => forall_congr' fun i => forall₂_congr fun _ t => forall₂_congr fun _ _ =>
    allOrNothing_iff_fits t i

/-- A new stream on an array of zeros. -/
def blank : LogStream where
  buffer_ := .new
  behind := List.replicate smallBufferSize 0
  whole := by rw [List.length_replicate]; exact Nat.zero_add _

def pi : Rendering where
  chars := str "3.14159265"
  noNul := by decide
  ne_nil := by decide
  short := by decide

/-- Ten characters of a `double` come out as seven and a NUL and two bytes of the array. -/
theorem double_cut : ¬ ∀ (s : LogStream) (is : List Insertion), Asks insert AllOrNothing s is := by
  intro h
  have hwhole : AllOrNothing blank (.double pi) := h blank [.double pi] [] _ [] blank rfl rfl
  have hshort := (allOrNothing_iff_fits blank (.double pi)).mp hwhole (by decide)
  exact absurd hshort (by decide)

end LogStream

end MuduoZ
