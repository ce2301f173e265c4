import Mathlib.Tactic

/-!
Results of C++ code, and its integer conversions.

A result is a value, or the reason there is none: the code did something the language leaves
undefined, or its loop does not end.
-/

namespace MuduoZ

/-- Why a call has no value. -/
inductive Fault
  | range     -- a pointer range that ends before it begins, or leaves its array
  | index     -- an index outside its vector
  | overflow  -- a signed integer overflow
  | zero      -- a division by zero
  | iterator  -- a list iterator whose node was erased
  | null      -- a null pointer dereferenced
  | fuel      -- a loop still running
  deriving DecidableEq, Repr

abbrev Result := Except Fault

/-- `std::string`, and any run of `char`. -/
abbrev Str := List UInt8

def str (s : String) : Str := s.toList.map fun c => UInt8.ofNat c.toNat

def INT_MAX : ℕ := 2 ^ 31 - 1

/-- Conversion to `int`. -/
def toInt (n : ℤ) : ℤ := n.bmod (2 ^ 32)

/-- Subtraction of `size_t` values, which wraps below zero. -/
def szSub (a b : ℕ) : ℕ := if b ≤ a then a - b else 2 ^ 64 + a - b

/-- An `int` added to a `size_t`. -/
def szAdd (a : ℕ) (k : ℤ) : ℕ := if 0 ≤ a + k then (a + k).toNat else (2 ^ 64 + a + k).toNat

lemma toInt_of_le {n : ℕ} (h : n ≤ INT_MAX) : toInt n = n := by
  unfold INT_MAX at h
  unfold toInt
  rw [Int.bmod_eq_of_le] <;> omega

/-- A count that `int` cannot hold comes out smaller. -/
lemma toInt_lt_of_gt {n : ℕ} (h : INT_MAX < n) : toInt n < n := by
  unfold INT_MAX at h
  have := Int.bmod_lt (x := (n : ℤ)) (m := 2 ^ 32) (by norm_num)
  unfold toInt
  omega

lemma toInt_le (n : ℕ) : toInt n ≤ n := by
  rcases le_or_gt n INT_MAX with h | h
  · rw [toInt_of_le h]
  · exact (toInt_lt_of_gt h).le

/-- `int` keeps the low 32 bits. -/
lemma toInt_eq_iff {m n : ℕ} : toInt m = toInt n ↔ m ≡ n [MOD 2 ^ 32] := by
  have hmod : ∀ n : ℕ, (n : ℤ) % (2 ^ 32 : ℕ) = ((n % 2 ^ 32 : ℕ) : ℤ) :=
    fun n => (Int.natCast_mod ..).symm
  unfold toInt Nat.ModEq
  constructor
  · intro h
    have := congrArg (· % ((2 ^ 32 : ℕ) : ℤ)) h
    simp only [Int.bmod_emod, hmod] at this
    exact_mod_cast this
  · intro h
    rw [← Int.emod_bmod m, hmod, h, ← hmod, Int.emod_bmod]

lemma szSub_of_le {a b : ℕ} (h : b ≤ a) : szSub a b = a - b := if_pos h

lemma szAdd_natCast (a k : ℕ) : szAdd a k = a + k := by
  unfold szAdd
  rw [if_pos (by positivity)]
  omega

@[simp] lemma ok_bind {α β : Type} (a : α) (f : α → Result β) :
    ((.ok a : Result α) >>= f) = f a := rfl

@[simp] lemma error_bind {α β : Type} (e : Fault) (f : α → Result β) :
    ((.error e : Result α) >>= f) = .error e := rfl

@[simp] lemma bind_ok_iff {α β : Type} {x : Result α} {f : α → Result β} {b : β} :
    (x >>= f) = .ok b ↔ ∃ a, x = .ok a ∧ f a = .ok b := by
  cases x <;> simp [bind, Except.bind]

end MuduoZ
