import MuduoZ.Fault

/-!
The buffer of fixed size of the logger, as the bytes in front of its cursor.

What does not fit is dropped. The length is compared as an `int`: a text that only passes for
shorter than the room is copied beyond the array.
-/

namespace MuduoZ

def bigBufferSize : ℕ := 4000 * 1000
def smallBufferSize : ℕ := 4000

structure FixedBuffer (SIZE : ℕ) where
  data_ : Str
  deriving DecidableEq, Repr

namespace FixedBuffer

variable {SIZE : ℕ}

def new : FixedBuffer SIZE := ⟨[]⟩

def getRemainLen (b : FixedBuffer SIZE) : ℤ := SIZE - b.data_.length

def append (b : FixedBuffer SIZE) (msg : Str) : Result (FixedBuffer SIZE) :=
  if toInt msg.length < b.getRemainLen then
    if msg.length ≤ b.getRemainLen then .ok { b with data_ := b.data_ ++ msg } else .error .range
  else .ok b

def resetCur (_ : FixedBuffer SIZE) : FixedBuffer SIZE := ⟨[]⟩

/-- The buffer behind `append`, for a text whose length an `int` holds. -/
def put (b : FixedBuffer SIZE) (msg : Str) : FixedBuffer SIZE :=
  ⟨b.data_ ++ if msg.length < b.getRemainLen then msg else []⟩

variable {b : FixedBuffer SIZE} {msg : Str}

lemma append_ok (h : toInt msg.length < b.getRemainLen → msg.length ≤ b.getRemainLen) :
    b.append msg = .ok ⟨b.data_ ++ if toInt msg.length < b.getRemainLen then msg else []⟩ := by
  unfold append
  split_ifs with hlt hle
  · rfl
  · exact absurd (h hlt) hle
  · rw [List.append_nil]

lemma append_range (h : toInt msg.length < b.getRemainLen)
    (hgt : ¬ (msg.length : ℤ) ≤ b.getRemainLen) : b.append msg = .error .range := by
  rw [append, if_pos h, if_neg hgt]

/-- A text whose length an `int` holds passes for what it is. -/
lemma append_put (h : msg.length ≤ INT_MAX) : b.append msg = .ok (b.put msg) := by
  have hint := toInt_of_le h
  rw [append_ok fun hlt => by rw [hint] at hlt; exact hlt.le, hint, put]

end FixedBuffer

end MuduoZ
