import MuduoZ.Fault
import MuduoZ.Lib.Decimal

/-!
`convert`, which writes an integer into the buffer of the log stream.

The last digit is found by a truncated division, whose remainder has the sign of the number, and
looked up in a table with the digits on both sides of its middle. So no number is negated. The
digits come in reverse, and the text is reversed in place.
-/

namespace MuduoZ

/-- A signed or unsigned integer type. -/
structure IntType where
  signed : Bool
  width : ℕ
  width_pos : 0 < width
  width_le : width ≤ 64

namespace IntType

def min (T : IntType) : ℤ := if T.signed then -2 ^ (T.width - 1) else 0
def max (T : IntType) : ℤ := if T.signed then 2 ^ (T.width - 1) - 1 else 2 ^ T.width - 1

def Value (T : IntType) : Type := { t : ℤ // T.min ≤ t ∧ t ≤ T.max }

/-- Conversion to the type. -/
def cast (T : IntType) (i : ℤ) : ℤ := if T.signed then i.bmod (2 ^ T.width) else i % 2 ^ T.width

/-- `size_t`, and `unsigned long`. -/
def size_t : IntType := ⟨false, 64, by decide, le_rfl⟩

/-- `long`. -/
def long : IntType := ⟨true, 64, by decide, le_rfl⟩

variable {T : IntType} {i : ℤ}

lemma cast_eq (h : T.min ≤ i ∧ i ≤ T.max) : T.cast i = i := by
  obtain ⟨signed, width, hpos, hle⟩ := T
  obtain ⟨w, rfl⟩ : ∃ w, width = w + 1 := ⟨width - 1, by omega⟩
  unfold min max at h
  unfold cast
  have hpow : (0 : ℤ) < 2 ^ w := by positivity
  cases signed with
  | true =>
    simp only [if_true, Nat.add_sub_cancel] at h ⊢
    refine Int.bmod_eq_of_le ?_ ?_ <;> push_cast <;> rw [pow_succ] <;> omega
  | false =>
    simp only [Bool.false_eq_true, if_false] at h ⊢
    exact Int.emod_eq_of_lt h.1 (by omega)

/-- A quotient stays in the type. -/
lemma tdiv_mem (h : T.min ≤ i ∧ i ≤ T.max) :
    T.min ≤ i.tdiv 10 ∧ i.tdiv 10 ≤ T.max := by
  have hmin : T.min ≤ 0 := by
    unfold min
    split
    · exact neg_nonpos.mpr (by positivity)
    · exact le_rfl
  have hmax : 0 ≤ T.max := by
    unfold max
    split
    · exact Int.sub_nonneg_of_le (one_le_pow₀ (by norm_num))
    · exact Int.sub_nonneg_of_le (one_le_pow₀ (by norm_num))
  have hquot : (i.tdiv 10).natAbs = i.natAbs / 10 := Int.natAbs_tdiv i 10
  rcases le_total 0 i with hi | hi
  · have hpos : 0 ≤ i.tdiv 10 := Int.tdiv_nonneg hi (by norm_num)
    omega
  · have hneg : 0 ≤ (-i).tdiv 10 := Int.tdiv_nonneg (by omega) (by norm_num)
    rw [Int.neg_tdiv] at hneg
    omega

end IntType

namespace IntegerFormat

open Decimal

def digits : Str := str "9876543210123456789"

/-- An element of `zero`, which points at the middle of `digits`. -/
def zero (pos : ℤ) : Result UInt8 :=
  if 0 ≤ 9 + pos then match digits[(9 + pos).toNat]? with
    | some c => .ok c
    | none => .error .index
  else .error .index

/-- The loop of `convert`, and what it writes. -/
def convertLoop (T : IntType) : ℕ → ℤ → Result Str
  | 0, _ => .error .fuel
  | fuel + 1, i => do
    let c ← zero (toInt (i.tmod 10))
    let i := T.cast (i.tdiv 10)
    if i ≠ 0 then do
      .ok (c :: (← convertLoop T fuel i))
    else .ok [c]

/-- `convert`: the bytes that it leaves at `buf`, and what it returns. -/
def convert (T : IntType) (t : T.Value) : Result (Str × ℕ) := do
  let p ← convertLoop T (t.val.natAbs + 1) t.val
  let p := if t.val < 0 then p ++ [minus] else p
  .ok (p.reverse ++ [0], p.length)

def kMaxNumericSize : ℕ := 32

variable {T : IntType} {i : ℤ}

/-! ### The loop -/

/-- The table has the digit of every remainder. -/
lemma zero_eq {r : ℤ} (h : r.natAbs < 10) : zero (toInt r) = .ok (digit r.natAbs) := by
  have hr : -9 ≤ r ∧ r ≤ 9 := by omega
  obtain ⟨hlo, hhi⟩ := hr
  interval_cases r <;> decide

lemma convertLoop_eq {fuel : ℕ} (h : T.min ≤ i ∧ i ≤ T.max) (hf : i.natAbs < fuel) :
    convertLoop T fuel i = .ok (ofNat i.natAbs).reverse := by
  induction fuel generalizing i with
  | zero => exact absurd hf (Nat.not_lt_zero _)
  | succ fuel ih =>
    have hrem : (i.tmod 10).natAbs = i.natAbs % 10 := Int.natAbs_tmod i 10
    have hquot : (i.tdiv 10).natAbs = i.natAbs / 10 := Int.natAbs_tdiv i 10
    have hlt : (i.tmod 10).natAbs < 10 := by rw [hrem]; exact Nat.mod_lt _ (by norm_num)
    have hq := IntType.tdiv_mem h
    rw [convertLoop, zero_eq hlt, hrem, ok_bind, reverse_ofNat, IntType.cast_eq hq]
    dsimp only
    by_cases hz : i.tdiv 10 = 0
    · have hz' : i.natAbs / 10 = 0 := by rw [← hquot, hz]; rfl
      rw [if_neg (not_not.mpr hz), if_pos hz']
    · have hz' : i.natAbs / 10 ≠ 0 := by rw [← hquot]; exact Int.natAbs_ne_zero.mpr hz
      rw [if_pos hz, if_neg hz', ih hq (by rw [hquot]; omega), hquot]
      rfl

/-! ### The text -/

/-- **What `convert` writes**, and returns. -/
lemma convert_eq (T : IntType) (t : T.Value) :
    convert T t = .ok (ofInt t.val ++ [0], (ofInt t.val).length) := by
  obtain ⟨t, ht⟩ := t
  unfold convert
  dsimp only
  rw [convertLoop_eq ht (Nat.lt_succ_self _), ok_bind]
  cases t with
  | ofNat n =>
    have hn : ¬ Int.ofNat n < 0 := not_lt.mpr (Int.natCast_nonneg n)
    rw [if_neg hn, List.reverse_reverse, List.length_reverse]
    rfl
  | negSucc n =>
    rw [if_pos (Int.negSucc_lt_zero n), List.reverse_append, List.reverse_reverse]
    simp [ofInt]

lemma length_ofInt (t : T.Value) : (ofInt t.val).length ≤ 21 := by
  obtain ⟨t, ht⟩ := t
  refine length_ofInt_le (by norm_num) ?_
  have hw : (2 : ℤ) ^ T.width ≤ 2 ^ 64 := pow_le_pow_right₀ (by norm_num) T.width_le
  have hw' : (2 : ℤ) ^ (T.width - 1) ≤ 2 ^ T.width := pow_le_pow_right₀ (by norm_num) (by omega)
  dsimp only
  unfold IntType.min IntType.max at ht
  cases hs : T.signed <;> simp only [hs, if_true, if_false, Bool.false_eq_true] at ht <;> omega

/-- **`convert` writes the numeral of its argument**, for every type and every value of it: it
ends, stays inside its table, returns the length of the text without the NUL, and does not write
more than `kMaxNumericSize` bytes. -/
theorem convert_exact (T : IntType) (t : T.Value) : ∃ s : Str,
    convert T t = .ok (s ++ [0], s.length) ∧ Numeral s t.val ∧ s.length + 1 ≤ kMaxNumericSize := by
  refine ⟨ofInt t.val, convert_eq T t, numeral_ofInt t.val, ?_⟩
  have := length_ofInt t
  unfold kMaxNumericSize
  omega

example : convert .long ⟨-9223372036854775808, by decide⟩ =
    .ok (str "-9223372036854775808" ++ [0], 20) := by decide +kernel

end IntegerFormat

end MuduoZ
