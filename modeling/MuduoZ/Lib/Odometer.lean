import Mathlib.Tactic

/-!
An odometer in base `B`: at time `n` its wheel `L` shows the digit `n / B ^ L % B`.

A wheel changes only at the multiples of `B ^ L`. A digit of a wheel that is to come again
within one turn comes at one time, which `Serves` relates to the digit. The wheels themselves are
turned by a carry that stops at the first wheel that does not come to 0.
-/

namespace Odometer

open Finset Function

variable {B n L l p m s r : ℕ} {c : ℕ → ℕ}

/-- From time `n` on, wheel `L` first comes to show `p` at time `m`, within one turn. -/
def Serves (B n L p m : ℕ) : Prop :=
  n ≤ m ∧ B ^ L ∣ m ∧ m / B ^ L % B = p ∧ m / B ^ L < n / B ^ L + B

/-- What the wheel shows now has come now. -/
lemma serves_now (hB : 0 < B) (h : Serves B n L (n / B ^ L % B) m) : m = n := by
  obtain ⟨hle, ⟨k, rfl⟩, hmod, hlt⟩ := h
  have hpow : 0 < B ^ L := Nat.pow_pos hB
  rw [Nat.mul_div_cancel_left k hpow] at hmod hlt
  have hge : n / B ^ L ≤ k := by
    have := Nat.div_le_div_right (c := B ^ L) hle
    rwa [Nat.mul_div_cancel_left k hpow] at this
  have hk : k = n / B ^ L := by
    have hdvd : B ∣ k - n / B ^ L := (Nat.modEq_iff_dvd' hge).mp (Eq.symm hmod)
    have := Nat.eq_zero_of_dvd_of_lt hdvd (by omega)
    omega
  have := Nat.mul_div_le n (B ^ L)
  rw [← hk] at this
  omega

lemma serves_succ (h : Serves B n L p m) (hne : m ≠ n) : Serves B (n + 1) L p m := by
  obtain ⟨hle, hdvd, hmod, hlt⟩ := h
  have := Nat.div_le_div_right (c := B ^ L) (Nat.le_add_right n 1)
  exact ⟨by omega, hdvd, hmod, by omega⟩

/-- The digit `s` steps on, within one turn. -/
lemma serves_place (hs : 0 < s) (hsB : s < B) :
    Serves B n L ((n / B ^ L % B + s) % B) (B ^ L * (n / B ^ L + s)) := by
  have hpow : 0 < B ^ L := Nat.pow_pos (by omega)
  refine ⟨?_, Dvd.intro _ rfl, ?_, ?_⟩
  · have := Nat.lt_mul_div_succ n hpow
    have : B ^ L * (n / B ^ L + 1) ≤ B ^ L * (n / B ^ L + s) := Nat.mul_le_mul_left _ (by omega)
    omega
  · rw [Nat.mul_div_cancel_left _ hpow, Nat.mod_add_mod]
  · rw [Nat.mul_div_cancel_left _ hpow]; omega

/-- While a higher wheel changes, the lower ones show 0. -/
lemma digit_eq_zero (hd : B ^ L ∣ n) (hl : l < L) : n / B ^ l % B = 0 := by
  obtain ⟨k, rfl⟩ := hd
  rcases Nat.eq_zero_or_pos B with rfl | hB
  · obtain ⟨j, rfl⟩ : ∃ j, L = j + 1 := ⟨L - 1, by omega⟩
    simp
  · have hpow : B ^ L = B ^ l * (B * B ^ (L - l - 1)) := by
      rw [← Nat.pow_succ', ← pow_add]; congr 1; omega
    rw [hpow, mul_assoc, mul_assoc, Nat.mul_div_cancel_left _ (Nat.pow_pos hB), Nat.mul_mod_right]

/-- The digit `r` steps on from a time at which a higher wheel changes; none on is now. -/
lemma serves_cascade (hd : B ^ L ∣ n) (hl : l < L) (hr : r < B) :
    Serves B n l r (n + r * B ^ l) := by
  have hpow : 0 < B ^ l := Nat.pow_pos (by omega)
  have hdl : B ^ l ∣ n := (Nat.pow_dvd_pow B hl.le).trans hd
  have hdiv : (n + r * B ^ l) / B ^ l = n / B ^ l + r := Nat.add_mul_div_right _ _ hpow
  refine ⟨Nat.le_add_right _ _, hdl.add (Dvd.intro_left _ rfl), ?_, by omega⟩
  rw [hdiv, Nat.add_mod, digit_eq_zero hd hl, Nat.zero_add, Nat.mod_mod, Nat.mod_eq_of_lt hr]

/-- One of each of the digits below `L`. -/
def ones (B L : ℕ) : ℕ := ∑ i ∈ range L, B ^ i

@[simp] lemma ones_zero (B : ℕ) : ones B 0 = 0 := rfl

lemma ones_succ (B L : ℕ) : ones B (L + 1) = ones B L + B ^ L := sum_range_succ ..

/-- The wheels below `L` show the time since wheel `L` changed. -/
lemma sum_digits (B n L : ℕ) : ∑ i ∈ range L, n / B ^ i % B * B ^ i = n % B ^ L := by
  induction L with
  | zero => simp [Nat.mod_one]
  | succ L ih => rw [sum_range_succ, ih, Nat.mod_pow_succ, mul_comm (B ^ L)]

lemma mul_ones_lt (hr : r < B) : r * ones B L < B ^ L := by
  induction L with
  | zero => simp
  | succ L ih =>
    rw [ones_succ, mul_add, pow_succ]
    have : (r + 1) * B ^ L ≤ B * B ^ L := Nat.mul_le_mul_right _ hr
    rw [add_mul, one_mul] at this
    rw [mul_comm (B ^ L) B]
    omega

/-- The same digit on all the wheels below `L`. -/
lemma mul_ones_eq_iff (hr : r < B) : r * ones B L = n % B ^ L ↔ ∀ i < L, n / B ^ i % B = r := by
  induction L with
  | zero => simp [Nat.mod_one]
  | succ L ih =>
    have hP : 0 < B ^ L := Nat.pow_pos (by omega)
    have hlow : r * ones B L < B ^ L := mul_ones_lt hr
    have hmod : n % B ^ L < B ^ L := Nat.mod_lt n hP
    have hdiv : ∀ {c d}, c < B ^ L → (c + B ^ L * d) / B ^ L = d ∧ (c + B ^ L * d) % B ^ L = c :=
      fun hc => (Nat.div_mod_unique hP).mpr ⟨rfl, hc⟩
    rw [Nat.forall_lt_succ_right, ← ih, ones_succ, mul_add, Nat.mod_pow_succ, mul_comm r (B ^ L)]
    constructor
    · intro h
      obtain ⟨hd, hm⟩ := hdiv (d := r) hlow
      rw [h] at hd hm
      exact ⟨hm.symm.trans (hdiv hmod).2, (hdiv hmod).1.symm.trans hd⟩
    · rintro ⟨hm, hd⟩
      rw [hm, hd]

/-! ### The carry -/

/-- Turning the odometer on: a wheel changes where the ones below it wrap. -/
lemma digit_succ {i : ℕ} (hd : B ^ i ∣ n + 1) : (n + 1) / B ^ i = n / B ^ i + 1 := by
  rw [Nat.succ_div, if_pos hd]

lemma digit_same {i : ℕ} (hd : ¬ B ^ i ∣ n + 1) : (n + 1) / B ^ i = n / B ^ i := by
  rw [Nat.succ_div, if_neg hd, Nat.add_zero]

/-- The wheels `i`, …, `i + k - 1` turn until one does not come to 0. -/
def turn (B : ℕ) : ℕ → ℕ → (ℕ → ℕ) → ℕ → ℕ
  | 0, _, c => c
  | k + 1, i, c =>
    let c := update c i ((c i + 1) % B)
    if c i ≠ 0 then c else turn B k (i + 1) c

/-- The wheels below `L` read `n`. -/
def Reads (B L n : ℕ) (c : ℕ → ℕ) : Prop := ∀ i < L, c i = n / B ^ i % B

lemma reads_zero : Reads B L 0 fun _ => 0 := fun i _ => by rw [Nat.zero_div, Nat.zero_mod]

/-- Wheels below `i` that read the next number, with a carry into wheel `i`. -/
lemma turn_carry (hB : 0 < B) {k i : ℕ} (hk : i + k = L) (hd : B ^ i ∣ n + 1)
    (hnew : Reads B i (n + 1) c) (hold : ∀ j < L, i ≤ j → c j = n / B ^ j % B) :
    Reads B L (n + 1) (turn B k i c) := by
  induction k generalizing i c with
  | zero => exact fun j hj => hnew j (by omega)
  | succ k ih =>
    have hcur : update c i ((c i + 1) % B) i = (n + 1) / B ^ i % B := by
      rw [update_self, hold i (by omega) le_rfl, digit_succ hd, Nat.mod_add_mod]
    have hother : ∀ j ≠ i, update c i ((c i + 1) % B) j = c j := fun j hj => update_of_ne hj ..
    rw [turn]
    split
    · -- no wheel above has a carry
      rename_i hne
      rw [hcur] at hne
      intro j hj
      rcases lt_trichotomy j i with hji | rfl | hij
      · rw [hother j hji.ne, hnew j hji]
      · exact hcur
      · have hnd : ¬ B ^ j ∣ n + 1 := fun hdj => hne (digit_eq_zero hdj hij)
        rw [hother j hij.ne', hold j hj hij.le, digit_same hnd]
    · rename_i heq
      rw [hcur] at heq
      have hd' : B ^ (i + 1) ∣ n + 1 := by
        obtain ⟨q, hq⟩ := hd
        rw [hq, Nat.mul_div_cancel_left _ (Nat.pow_pos hB)] at heq
        rw [hq, pow_succ]
        exact Nat.mul_dvd_mul_left _ (Nat.dvd_of_mod_eq_zero (not_not.mp heq))
      refine ih (by omega) hd' (fun j hj => ?_) fun j hj hij => ?_
      · rcases Nat.lt_succ_iff_lt_or_eq.mp hj with hji | rfl
        · rw [hother j hji.ne, hnew j hji]
        · exact hcur
      · rw [hother j (by omega), hold j hj (by omega)]

/-- **A turn of the odometer** counts by one. -/
theorem Reads.turn (hB : 0 < B) (h : Reads B L n c) : Reads B L (n + 1) (turn B L 0 c) :=
  turn_carry hB (Nat.zero_add L) (by rw [pow_zero]; exact one_dvd _)
    (fun j hj => absurd hj (Nat.not_lt_zero j)) fun j hj _ => h j hj

/-! ### The leading digit -/

/-- The highest wheel that a number needs. -/
abbrev top (B n : ℕ) : ℕ := Nat.log B n

lemma leading_pos (hn : 0 < n) : 0 < n / B ^ top B n := by
  rcases Nat.eq_zero_or_pos B with rfl | hB
  · rw [top, Nat.log_zero_left, pow_zero, Nat.div_one]
    exact hn
  · exact Nat.div_pos (Nat.pow_log_le_self B hn.ne') (Nat.pow_pos hB)

lemma leading_lt (hB : 1 < B) (n : ℕ) : n / B ^ top B n < B := by
  refine Nat.div_lt_of_lt_mul ?_
  rw [← pow_succ]
  exact Nat.lt_pow_succ_log_self hB n

/-- With its other digits at 0, and with the next leading digit. -/
lemma leading_bounds (hB : 0 < B) (n : ℕ) : n / B ^ top B n * B ^ top B n ≤ n ∧
    n < (n / B ^ top B n + 1) * B ^ top B n :=
  ⟨Nat.div_mul_le_self .., Nat.lt_mul_of_div_lt (Nat.lt_succ_self _) (Nat.pow_pos hB)⟩

/-- Some steps on, but less than a turn, a wheel never shows the same. -/
lemma step_ne (hs : 0 < s) (hsB : s < B) (p : ℕ) : (p + s) % B ≠ p := by
  intro h
  have hp : p < B := h ▸ Nat.mod_lt _ (by omega)
  rcases lt_or_ge (p + s) B with hlt | hge
  · rw [Nat.mod_eq_of_lt hlt] at h
    omega
  · rw [Nat.mod_eq_sub_mod hge, Nat.mod_eq_of_lt (by omega)] at h
    omega

end Odometer
