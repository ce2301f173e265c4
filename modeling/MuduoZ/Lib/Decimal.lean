import Mathlib.Tactic

/-!
Integers as text: the decimal digits, and a sign in front of a negative number.
-/

namespace Decimal

abbrev minus : UInt8 := 45

/-- The character of a digit. -/
def digit (d : ℕ) : UInt8 := UInt8.ofNat (48 + d)

def ofNat (n : ℕ) : List UInt8 :=
  if n = 0 then [digit 0] else (Nat.digits 10 n).reverse.map digit

def ofInt : ℤ → List UInt8
  | .ofNat n => ofNat n
  | .negSucc n => minus :: ofNat (n + 1)

example : ofInt (-120) = [45, 49, 50, 48] := by decide

lemma digit_toNat {d : ℕ} (hd : d < 10) : (digit d).toNat = 48 + d := by
  rw [digit, UInt8.toNat_ofNat_of_lt']
  show 48 + d < 2 ^ 8
  omega

/-- The digits can be read back. -/
lemma map_digit {ds : List ℕ} (h : ∀ d ∈ ds, d < 10) :
    (ds.map digit).map (fun c => c.toNat - 48) = ds := by
  rw [List.map_map]
  conv_rhs => rw [← List.map_id ds]
  refine List.map_congr_left fun d hd => ?_
  rw [Function.comp_apply, digit_toNat (h d hd)]
  simp

lemma ofNat_eq (n : ℕ) : ∃ ds : List ℕ, ofNat n = ds.map digit ∧ (∀ d ∈ ds, d < 10) ∧
    Nat.ofDigits 10 ds.reverse = n ∧ (∀ k, 0 < k → n < 10 ^ k → ds.length ≤ k) := by
  unfold ofNat
  split
  · rename_i hn
    subst hn
    exact ⟨[0], rfl, by simp, rfl, fun k hk _ => hk⟩
  · refine ⟨(Nat.digits 10 n).reverse, rfl, fun d hd => ?_, ?_, fun k _ hlt => ?_⟩
    · exact Nat.digits_lt_base (by norm_num) (List.mem_reverse.mp hd)
    · rw [List.reverse_reverse, Nat.ofDigits_digits]
    · rw [List.length_reverse]
      exact (Nat.digits_length_le_iff (by norm_num) n).mpr hlt

lemma ofNat_inj {m n : ℕ} (h : ofNat m = ofNat n) : m = n := by
  obtain ⟨ds, hm, hds, rfl, -⟩ := ofNat_eq m
  obtain ⟨es, hn, hes, rfl, -⟩ := ofNat_eq n
  rw [hm, hn] at h
  rw [← map_digit hds, h, map_digit hes]

lemma minus_notMem (n : ℕ) : minus ∉ ofNat n := by
  obtain ⟨ds, hn, hds, -⟩ := ofNat_eq n
  rw [hn]
  intro h
  obtain ⟨d, hd, he⟩ := List.mem_map.mp h
  have := congrArg UInt8.toNat he
  rw [digit_toNat (hds d hd)] at this
  have h45 : minus.toNat = 45 := rfl
  omega

/-- **Different numbers have different texts.** -/
theorem ofInt_inj {m n : ℤ} (h : ofInt m = ofInt n) : m = n := by
  have hne : ∀ a b : ℕ, ofNat a ≠ minus :: ofNat b := fun a b he =>
    minus_notMem a (by rw [he]; simp)
  cases m with
  | ofNat a => cases n with
    | ofNat b => rw [ofNat_inj h]
    | negSucc b => exact absurd h (hne a (b + 1))
  | negSucc a => cases n with
    | ofNat b => exact absurd h.symm (hne b (a + 1))
    | negSucc b =>
      have := ofNat_inj (List.cons.inj h).2
      rw [Nat.succ.inj this]

lemma length_ofNat_le {n k : ℕ} (hk : 0 < k) (h : n < 10 ^ k) : (ofNat n).length ≤ k := by
  obtain ⟨ds, hn, -, -, hlen⟩ := ofNat_eq n
  rw [hn, List.length_map]
  exact hlen k hk h

lemma length_ofInt_le {n : ℤ} {k : ℕ} (hk : 0 < k) (h : n.natAbs < 10 ^ k) :
    (ofInt n).length ≤ k + 1 := by
  cases n with
  | ofNat a => exact (length_ofNat_le hk h).trans (Nat.le_succ k)
  | negSucc a => exact Nat.succ_le_succ (length_ofNat_le hk h)

/-! ### Numerals -/

/-- The number that digits stand for. -/
def value (s : List UInt8) : ℕ := s.foldl (fun n c => 10 * n + (c.toNat - 48)) 0

/-- The number that a text stands for. -/
def read : List UInt8 → ℤ
  | [] => 0
  | c :: s => if c = minus then -value s else value (c :: s)

/-- Digits, without a zero in front of others. -/
structure Plain (s : List UInt8) : Prop where
  ne_nil : s ≠ []
  digits : ∀ c ∈ s, ∃ d < 10, c = digit d
  lead : s.head? = some (digit 0) → s = [digit 0]

/-- `s` is the text of `n`: a minus if and only if `n` is negative, and then plain digits. -/
structure Numeral (s : List UInt8) (n : ℤ) : Prop where
  sign : s.head? = some minus ↔ n < 0
  plain : Plain (if n < 0 then s.tail else s)
  read_eq : read s = n

/-- The last digit, and those before it. -/
lemma reverse_ofNat (n : ℕ) : (ofNat n).reverse =
    digit (n % 10) :: if n / 10 = 0 then [] else (ofNat (n / 10)).reverse := by
  unfold ofNat
  rcases Nat.eq_zero_or_pos n with rfl | hn
  · rfl
  · rw [if_neg hn.ne', ← List.map_reverse, List.reverse_reverse,
      Nat.digits_def' (by norm_num) hn, List.map_cons]
    split
    · rename_i hz
      rw [hz]
      rfl
    · rw [← List.map_reverse, List.reverse_reverse]

lemma ofNat_step (n : ℕ) : ofNat n =
    (if n / 10 = 0 then [] else ofNat (n / 10)) ++ [digit (n % 10)] := by
  have h := congrArg List.reverse (reverse_ofNat n)
  rw [List.reverse_reverse, List.reverse_cons] at h
  rw [h]
  split <;> simp

lemma value_append (s : List UInt8) (c : UInt8) :
    value (s ++ [c]) = 10 * value s + (c.toNat - 48) := by
  rw [value, List.foldl_append]
  rfl

lemma value_ofNat (n : ℕ) : value (ofNat n) = n := by
  induction n using Nat.strong_induction_on with
  | _ n ih =>
    rw [ofNat_step, value_append, digit_toNat (Nat.mod_lt n (by norm_num))]
    split
    · rename_i hz
      have h0 : value [] = 0 := rfl
      omega
    · rw [ih (n / 10) (by omega)]
      omega

lemma ofNat_ne_nil (n : ℕ) : ofNat n ≠ [] := by
  rw [ofNat_step]
  simp

lemma digit_inj {d e : ℕ} (hd : d < 10) (he : e < 10) (h : digit d = digit e) : d = e := by
  have := congrArg UInt8.toNat h
  rw [digit_toNat hd, digit_toNat he] at this
  omega

lemma head_ofNat (n : ℕ) (h : (ofNat n).head? = some (digit 0)) : n = 0 := by
  induction n using Nat.strong_induction_on with
  | _ n ih =>
    rw [ofNat_step] at h
    split at h
    · rename_i hz
      have := digit_inj (Nat.mod_lt n (by norm_num)) (by norm_num) (Option.some.inj h)
      omega
    · rename_i hz
      rw [List.head?_append_of_ne_nil _ (ofNat_ne_nil _)] at h
      exact absurd (ih (n / 10) (by omega) h) hz

lemma plain_ofNat (n : ℕ) : Plain (ofNat n) := by
  refine ⟨ofNat_ne_nil n, fun c hc => ?_, fun h => ?_⟩
  · obtain ⟨ds, hn, hds, -⟩ := ofNat_eq n
    rw [hn] at hc
    obtain ⟨d, hd, rfl⟩ := List.mem_map.mp hc
    exact ⟨d, hds d hd, rfl⟩
  · rw [head_ofNat n h]; rfl

lemma head_ofNat_ne (n : ℕ) : (ofNat n).head? ≠ some minus := fun h =>
  minus_notMem n (List.mem_of_mem_head? h)

lemma read_ofNat (n : ℕ) : read (ofNat n) = n := by
  cases h : ofNat n with
  | nil => exact absurd h (ofNat_ne_nil n)
  | cons c s =>
    have hc : c ≠ minus := fun hc => head_ofNat_ne n (by rw [h, hc]; rfl)
    rw [read, if_neg hc, ← h, value_ofNat]

/-- **`ofInt` writes the numeral of its argument.** -/
theorem numeral_ofInt (n : ℤ) : Numeral (ofInt n) n := by
  cases n with
  | ofNat n =>
    have hn : ¬ Int.ofNat n < 0 := not_lt.mpr (Int.natCast_nonneg n)
    refine ⟨iff_of_false (head_ofNat_ne n) hn, ?_, read_ofNat n⟩
    rw [if_neg hn]
    exact plain_ofNat n
  | negSucc n =>
    have hn : Int.negSucc n < 0 := Int.negSucc_lt_zero n
    refine ⟨iff_of_true rfl hn, ?_, ?_⟩
    · rw [if_pos hn]
      exact plain_ofNat (n + 1)
    · rw [ofInt, read, if_pos rfl, value_ofNat]
      rfl

end Decimal
