import MuduoZ.Fault

/-!
The byte buffer of a connection: a vector with a read and a write position.

The bytes between the two positions are the readable ones. While the positions are in order
the buffer is a queue of bytes: `append` adds at the end, `haveReadForLen` drops at the front.
-/

namespace MuduoZ

structure Buffer where
  buffer_ : Str
  writeIndex_ : ℕ
  readIndex_ : ℕ
  deriving DecidableEq, Repr

/-- What a call of `readv` gives: bytes, the end of the stream, or -1. -/
inductive ReadResult
  | data (bytes : Str)
  | eof
  | failed
  deriving DecidableEq, Repr

/-- `vector::resize`: new elements are zero. -/
def resize (xs : Str) (n : ℕ) : Str := xs.take n ++ List.replicate (n - xs.length) 0

/-- `std::copy` of `ys` over `xs` from position `i`. -/
def overwrite (xs : Str) (i : ℕ) (ys : Str) : Str := xs.take i ++ ys ++ xs.drop (i + ys.length)

namespace Buffer

def new (size : ℕ := 1024) : Buffer := ⟨List.replicate size 0, 0, 0⟩

def getWriteableLen (b : Buffer) : ℕ := szSub b.buffer_.length b.writeIndex_
def getReadableLen (b : Buffer) : ℕ := szSub b.writeIndex_ b.readIndex_
def getPreEmptyLen (b : Buffer) : ℕ := b.readIndex_

/-- The bytes from `peek()` to `getWritePos()`. -/
def readable (b : Buffer) : Str := (b.buffer_.take b.writeIndex_).drop b.readIndex_

def makeSpace (b : Buffer) (len : ℕ) : Result Buffer :=
  if b.getWriteableLen + b.getPreEmptyLen < len then
    .ok { b with buffer_ := resize b.buffer_ (b.writeIndex_ + len) }
  else if b.readIndex_ ≤ b.writeIndex_ ∧ b.writeIndex_ ≤ b.buffer_.length then
    .ok ⟨overwrite b.buffer_ 0 b.readable, b.getReadableLen, 0⟩
  else .error .range

/-- `append(msg, len)`: the length is that of `msg`, an `int`. -/
def append (b : Buffer) (msg : Str) : Result Buffer := do
  let b ← if b.getWriteableLen < msg.length then b.makeSpace msg.length else .ok b
  if b.writeIndex_ + msg.length ≤ b.buffer_.length then
    .ok { b with
      buffer_ := overwrite b.buffer_ b.writeIndex_ msg
      writeIndex_ := b.writeIndex_ + msg.length }
  else .error .range

/-- What `readv` lays into `vec[0]`. That begins at position `base` of the vector the loop began
with, of length `size`; a vector that has grown is another one. -/
def fill (size base : ℕ) (b : Buffer) (bytes : Str) : Result Buffer :=
  if bytes ≠ [] ∧ (b.buffer_.length ≠ size ∨ size < base + bytes.length) then .error .range
  else .ok { b with buffer_ := overwrite b.buffer_ base bytes }

/-- What the loop of `readFd` does of a positive `n`; `buf` has the bytes beyond `vec[0]`. -/
def advance (room : ℕ) (b : Buffer) (n : ℤ) (buf : Str) : Result Buffer :=
  if n ≤ room then .ok { b with writeIndex_ := szAdd b.writeIndex_ n }
  else append { b with writeIndex_ := b.buffer_.length } buf

/-- The loop of `readFd`. `vec[0]` has length `room`, and `vec[1]` is used if that is less than
the size of `buf`. -/
def readLoop (size base room : ℕ) : Buffer → ℤ → List ReadResult → Result (Buffer × ℤ)
  | _, _, [] => .error .fuel
  | b, sum, .data bytes :: results => do
    let bytes := bytes.take (room + if room < 65536 then 65536 else 0)
    let n := toInt bytes.length
    let b ← b.fill size base (bytes.take room)
    if n ≤ 0 then .ok (b, sum)
    else do
      let b ← b.advance room n (bytes.drop room)
      readLoop size base room b (sum + n) results
  | b, sum, .eof :: _ => .ok (b, sum)
  | b, sum, .failed :: _ => .ok (b, sum)

/-- The buffer and `receiveSum`, when the calls of `readv` give these results. -/
def readFd (b : Buffer) (results : List ReadResult) : Result (Buffer × ℤ) :=
  readLoop b.buffer_.length b.writeIndex_ b.getWriteableLen b 0 results

/-- The returned `n`, and the bytes the socket took. -/
def writeFd (b : Buffer) (written : Option ℕ) : ℤ × Str :=
  match written with
  | none => (-1, [])
  | some n => (toInt (b.readable.take n).length, b.readable.take n)

def haveReadForLen (b : Buffer) (len : ℤ) : Buffer :=
  { b with readIndex_ := szAdd b.readIndex_ len }

def haveReadAll (b : Buffer) : Buffer := { b with readIndex_ := b.writeIndex_ }
def takeAll (b : Buffer) : Buffer := { b with readIndex_ := b.writeIndex_ }

/-- The bytes of the vector from `peek()` on. -/
def peek (b : Buffer) : Str := b.buffer_.drop b.readIndex_

/-- `append(str)`: the size of a string, converted to `int`. -/
def appendString (b : Buffer) (s : Str) : Result Buffer :=
  if 0 ≤ toInt s.length then b.append (s.take (toInt s.length).toNat) else .error .range

/-- The positions are in order and inside the vector. -/
structure Valid (b : Buffer) : Prop where
  read_le : b.readIndex_ ≤ b.writeIndex_
  write_le : b.writeIndex_ ≤ b.buffer_.length

lemma new_valid (size : ℕ) : (new size).Valid := ⟨le_rfl, Nat.zero_le _⟩

@[simp] lemma new_readable (size : ℕ) : (new size).readable = [] := by simp [new, readable]

@[simp] lemma new_getWriteableLen (size : ℕ) : (new size).getWriteableLen = size := by
  simp [new, getWriteableLen, szSub]

lemma length_resize (xs : Str) {n : ℕ} (h : xs.length ≤ n) : (resize xs n).length = n := by
  simp [resize, h]

lemma take_resize (xs : Str) {i n : ℕ} (hi : i ≤ xs.length) (hn : xs.length ≤ n) :
    (resize xs n).take i = xs.take i := by
  rw [resize, List.take_of_length_le hn, List.take_append_of_le_length hi]

lemma length_overwrite {xs ys : Str} {i : ℕ} (h : i + ys.length ≤ xs.length) :
    (overwrite xs i ys).length = xs.length := by
  simp [overwrite]; omega

lemma take_overwrite {xs ys : Str} {i : ℕ} (h : i + ys.length ≤ xs.length) :
    (overwrite xs i ys).take (i + ys.length) = xs.take i ++ ys := by
  have hl : (xs.take i ++ ys).length = i + ys.length := by simp; omega
  rw [overwrite, List.take_append_of_le_length hl.ge, List.take_of_length_le hl.le]

variable {b : Buffer}

lemma Valid.getReadableLen (h : b.Valid) : b.getReadableLen = b.writeIndex_ - b.readIndex_ :=
  szSub_of_le h.read_le

lemma Valid.length_readable (h : b.Valid) : b.readable.length = b.getReadableLen := by
  have := h.write_le
  rw [h.getReadableLen]
  simp [readable]; omega

lemma Valid.take_peek (h : b.Valid) : b.peek.take b.getReadableLen = b.readable := by
  rw [h.getReadableLen, peek, readable, List.drop_take]

lemma Valid.makeSpace (h : b.Valid) {len : ℕ} (hlen : b.getWriteableLen < len) :
    ∃ b', b.makeSpace len = .ok b' ∧ b'.Valid ∧ b'.readable = b.readable ∧
      b'.writeIndex_ + len ≤ b'.buffer_.length := by
  have hr := h.read_le
  have hw := h.write_le
  rw [getWriteableLen, szSub_of_le hw] at hlen
  unfold Buffer.makeSpace
  rw [getWriteableLen, szSub_of_le hw, getPreEmptyLen]
  split
  · have hn : b.buffer_.length ≤ b.writeIndex_ + len := by omega
    refine ⟨_, rfl, ⟨hr, ?_⟩, ?_, ?_⟩
    · simp only [length_resize _ hn]; omega
    · simp only [readable]; rw [take_resize _ hw hn]
    · simp only [length_resize _ hn]; omega
  · have hl : 0 + b.readable.length ≤ b.buffer_.length := by
      rw [h.length_readable, h.getReadableLen]; omega
    have htake := take_overwrite hl
    rw [Nat.zero_add, h.length_readable] at htake
    rw [if_pos ⟨hr, hw⟩]
    refine ⟨_, rfl, ⟨Nat.zero_le _, ?_⟩, ?_, ?_⟩
    · simp only [length_overwrite hl, h.getReadableLen]; omega
    · simp only [readable] at htake ⊢
      simp [htake]
    · simp only [length_overwrite hl, h.getReadableLen]; omega

lemma append_inPlace {msg : Str} (h : b.writeIndex_ + msg.length ≤ b.buffer_.length) :
    b.append msg = .ok { b with
      buffer_ := overwrite b.buffer_ b.writeIndex_ msg
      writeIndex_ := b.writeIndex_ + msg.length } := by
  have hsp : ¬ b.getWriteableLen < msg.length := by
    rw [getWriteableLen, szSub_of_le (by omega)]; omega
  simp [Buffer.append, hsp, h]

lemma overwrite_resize (xs ys : Str) :
    overwrite (resize xs (xs.length + ys.length)) xs.length ys = xs ++ ys := by
  have hl := length_resize xs (Nat.le_add_right xs.length ys.length)
  rw [overwrite, take_resize _ le_rfl (Nat.le_add_right ..), List.take_length,
    List.drop_of_length_le hl.le, List.append_nil]

/-! A buffer without free space grows by just the message, or moves its bytes to the front. -/

lemma getWriteableLen_full (hw : b.writeIndex_ = b.buffer_.length) : b.getWriteableLen = 0 := by
  rw [getWriteableLen, hw, szSub_of_le le_rfl, Nat.sub_self]

lemma append_grow {msg : Str} (hw : b.writeIndex_ = b.buffer_.length)
    (hr : b.readIndex_ < msg.length) : b.append msg =
      .ok ⟨b.buffer_ ++ msg, b.buffer_.length + msg.length, b.readIndex_⟩ := by
  have hl := length_resize b.buffer_ (Nat.le_add_right b.buffer_.length msg.length)
  simp [Buffer.append, Buffer.makeSpace, getWriteableLen_full hw, getPreEmptyLen, hw, hr,
    Nat.zero_lt_of_lt hr, hl, overwrite_resize]

lemma append_move {msg : Str} (hw : b.writeIndex_ = b.buffer_.length) (hne : msg ≠ [])
    (hm : msg.length ≤ b.readIndex_) (hr : b.readIndex_ ≤ b.buffer_.length) :
    ∃ b', b.append msg = .ok b' ∧ b'.buffer_.length = b.buffer_.length ∧
      b'.writeIndex_ = b.buffer_.length - b.readIndex_ + msg.length ∧ b'.readIndex_ = 0 := by
  have hl : b.readable.length = b.buffer_.length - b.readIndex_ := by simp [readable, hw]
  have ho : (overwrite b.buffer_ 0 b.readable).length = b.buffer_.length :=
    length_overwrite (by omega)
  have hfit : b.buffer_.length - b.readIndex_ + msg.length ≤ b.buffer_.length := by omega
  refine ⟨⟨overwrite (overwrite b.buffer_ 0 b.readable) (b.buffer_.length - b.readIndex_) msg,
    b.buffer_.length - b.readIndex_ + msg.length, 0⟩, ?_, ?_, rfl, rfl⟩
  · simp [Buffer.append, Buffer.makeSpace, getWriteableLen_full hw, getPreEmptyLen, getReadableLen,
      hw, hm.not_gt, List.length_pos_iff.mpr hne, szSub_of_le hr, hr, ho, hfit]
  · exact (length_overwrite (hfit.trans ho.ge)).trans ho

lemma append_stray {msg : Str} (hw : b.writeIndex_ = b.buffer_.length) (hne : msg ≠ [])
    (hm : msg.length ≤ b.readIndex_) (hr : b.buffer_.length < b.readIndex_) :
    b.append msg = .error .range := by
  simp [Buffer.append, Buffer.makeSpace, getWriteableLen_full hw, getPreEmptyLen, hw, hm.not_gt,
    List.length_pos_iff.mpr hne, hr.not_ge]

/-- Whatever the buffer was, what `append` makes of it writes inside the vector. -/
lemma append_write_le {b' : Buffer} {msg : Str} (h : b.append msg = .ok b') :
    b'.writeIndex_ ≤ b'.buffer_.length := by
  obtain ⟨c, hc⟩ : ∃ c : Buffer, (if c.writeIndex_ + msg.length ≤ c.buffer_.length then
      Except.ok { c with
        buffer_ := overwrite c.buffer_ c.writeIndex_ msg
        writeIndex_ := c.writeIndex_ + msg.length }
      else Except.error Fault.range) = Except.ok b' := by
    unfold Buffer.append at h
    split at h
    · obtain ⟨c, -, h⟩ := bind_ok_iff.mp h
      exact ⟨c, h⟩
    · exact ⟨b, h⟩
  split_ifs at hc with hfit
  obtain rfl := Except.ok.inj hc
  rwa [length_overwrite hfit]

/-- The bytes have room, or the vector grows for them, or the readable bytes can be moved. -/
def Takes (b : Buffer) (msg : Str) : Prop :=
  msg.length ≤ b.getWriteableLen ∨ b.getWriteableLen + b.getPreEmptyLen < msg.length ∨
    b.readIndex_ ≤ b.writeIndex_

/-- Bytes written behind the readable ones. -/
lemma Valid.written (h : b.Valid) {msg : Str}
    (hfit : b.writeIndex_ + msg.length ≤ b.buffer_.length) :
    Valid { b with
      buffer_ := overwrite b.buffer_ b.writeIndex_ msg
      writeIndex_ := b.writeIndex_ + msg.length } ∧
    readable { b with
      buffer_ := overwrite b.buffer_ b.writeIndex_ msg
      writeIndex_ := b.writeIndex_ + msg.length } = b.readable ++ msg := by
  have hr := h.read_le
  refine ⟨⟨by simp only; omega, by simpa only [length_overwrite hfit]⟩, ?_⟩
  simp only [readable, take_overwrite hfit]
  rw [List.drop_append_of_le_length (by simp; omega)]

/-- **Appending adds at the end of the readable bytes.** -/
theorem Valid.append (h : b.Valid) (msg : Str) :
    ∃ b', b.append msg = .ok b' ∧ b'.Valid ∧ b'.readable = b.readable ++ msg := by
  by_cases hsp : b.getWriteableLen < msg.length
  · obtain ⟨c, hc, hv, hrd, hfit⟩ := h.makeSpace hsp
    obtain ⟨hv', hrd'⟩ := hv.written hfit
    refine ⟨_, ?_, hv', by rw [hrd', hrd]⟩
    simp [Buffer.append, hsp, hc, hfit]
  · have hfit : b.writeIndex_ + msg.length ≤ b.buffer_.length := by
      have := h.write_le
      rw [getWriteableLen, szSub_of_le this] at hsp; omega
    obtain ⟨hv', hrd'⟩ := h.written hfit
    exact ⟨_, append_inPlace hfit, hv', hrd'⟩

/-- **What `append` can take**, where the positions may be out of order. -/
theorem append_ok_iff (hw : b.writeIndex_ ≤ b.buffer_.length) {msg : Str} :
    (∃ b', b.append msg = .ok b') ↔ b.Takes msg := by
  by_cases hr : b.readIndex_ ≤ b.writeIndex_
  · obtain ⟨b', hb', -⟩ := Valid.append ⟨hr, hw⟩ msg
    exact iff_of_true ⟨b', hb'⟩ (.inr (.inr hr))
  · have hroom : b.getWriteableLen = b.buffer_.length - b.writeIndex_ := szSub_of_le hw
    unfold Buffer.append Takes
    by_cases hsp : b.getWriteableLen < msg.length
    · rw [if_pos hsp, makeSpace]
      by_cases hgrow : b.getWriteableLen + b.getPreEmptyLen < msg.length
      · have hl : b.buffer_.length ≤ b.writeIndex_ + msg.length := by omega
        rw [if_pos hgrow]
        simp [length_resize _ hl, hgrow]
      · rw [if_neg hgrow, if_neg fun h => hr h.1]
        simp [hsp, hgrow, hr]
    · rw [if_neg hsp]
      have hfit : b.writeIndex_ + msg.length ≤ b.buffer_.length := by omega
      simp [hfit, not_lt.mp hsp]

lemma Valid.appendString (h : b.Valid) {s : Str} (hs : s.length ≤ INT_MAX) :
    ∃ b', b.appendString s = .ok b' ∧ b'.Valid ∧ b'.readable = b.readable ++ s := by
  have htake : s.take (toInt s.length).toNat = s := by
    rw [toInt_of_le hs, Int.toNat_natCast, List.take_length]
  rw [Buffer.appendString, if_pos (by rw [toInt_of_le hs]; positivity), htake]
  exact h.append s

@[simp] lemma haveReadForLen_write (b : Buffer) (len : ℤ) :
    (b.haveReadForLen len).writeIndex_ = b.writeIndex_ := rfl

@[simp] lemma haveReadForLen_buffer (b : Buffer) (len : ℤ) :
    (b.haveReadForLen len).buffer_ = b.buffer_ := rfl

/-- **Consuming drops from the front of the readable bytes.** -/
theorem Valid.haveReadForLen (h : b.Valid) {n : ℕ} (hn : n ≤ b.readable.length) :
    (b.haveReadForLen n).Valid ∧ (b.haveReadForLen n).readable = b.readable.drop n := by
  rw [h.length_readable, h.getReadableLen] at hn
  have hr := h.read_le
  refine ⟨⟨?_, h.write_le⟩, ?_⟩
  · simp only [Buffer.haveReadForLen, szAdd_natCast]; omega
  · simp [readable, Buffer.haveReadForLen, szAdd_natCast, List.drop_drop]

lemma Valid.haveReadAll (h : b.Valid) :
    b.haveReadAll.Valid ∧ b.haveReadAll.readable = [] := by
  refine ⟨⟨le_rfl, h.write_le⟩, ?_⟩
  simp [readable, Buffer.haveReadAll]

end Buffer

end MuduoZ
