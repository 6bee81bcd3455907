import Mathlib.Data.BitVec

/-!
# Counting in reversed bits

Words of `w` bits, ordered by the number that their bits are when read backwards
(`rank`). Words that agree in their low `k` bits are an interval of this order:
`rank_div_eq_iff`. `succ k` goes to the beginning of the next such interval, and
`stepUp k` counts, in the usual order, the bits above the low `k`.
-/

namespace Lib.ReverseBits

open BitVec

variable {w : Nat}

/-- The word of `k` ones. -/
def lowMask (w k : Nat) : BitVec w := BitVec.ofNat w (2 ^ k - 1)

theorem getLsbD_lowMask (k i : Nat) : (lowMask w k).getLsbD i = decide (i < w ∧ i < k) := by
  simp [lowMask, getLsbD_ofNat, Nat.testBit_two_pow_sub_one]

theorem toNat_lowMask {k : Nat} (hk : k ≤ w) : (lowMask w k).toNat = 2 ^ k - 1 := by
  have hpos : 0 < 2 ^ k := Nat.two_pow_pos k
  have hle : 2 ^ k ≤ 2 ^ w := Nat.pow_le_pow_right (by omega) hk
  rw [lowMask, toNat_ofNat, Nat.mod_eq_of_lt (by omega)]

theorem toNat_and_lowMask {k : Nat} (hk : k ≤ w) (x : BitVec w) :
    (x &&& lowMask w k).toNat = x.toNat % 2 ^ k := by
  rw [toNat_and, toNat_lowMask hk, Nat.and_two_pow_sub_one_eq_mod]

/-- Setting the low bits. -/
theorem or_two_pow_sub_one (n k : Nat) : n ||| (2 ^ k - 1) = 2 ^ k * (n / 2 ^ k) + (2 ^ k - 1) := by
  have hpos : 0 < 2 ^ k := Nat.two_pow_pos k
  apply Nat.eq_of_testBit_eq
  intro i
  rw [Nat.testBit_two_pow_mul_add _ (by omega), Nat.testBit_or, Nat.testBit_two_pow_sub_one]
  by_cases hi : i < k
  · simp [hi]
  · rw [if_neg hi, Nat.testBit_div_two_pow, Nat.sub_add_cancel (by omega)]
    simp [hi]

/-! ## The order -/

/-- The bits read backwards. -/
def rank (x : BitVec w) : Nat := x.reverse.toNat

theorem rank_lt (x : BitVec w) : rank x < 2 ^ w := x.reverse.isLt

@[simp] theorem rank_zero : rank (0 : BitVec w) = 0 := by
  apply Nat.eq_of_testBit_eq
  intro i
  simp [rank, testBit_toNat, getLsbD_reverse]

theorem testBit_rank (x : BitVec w) (i : Nat) :
    (rank x).testBit i = (decide (i < w) && x.getLsbD (w - 1 - i)) := by
  rw [rank, testBit_toNat, getLsbD_reverse, getMsbD_eq_getLsbD]

theorem testBit_rank_div {k : Nat} (hk : k ≤ w) (x : BitVec w) (i : Nat) :
    (rank x / 2 ^ (w - k)).testBit i = (decide (i < k) && x.getLsbD (k - 1 - i)) := by
  rw [Nat.testBit_div_two_pow, testBit_rank]
  by_cases hi : i < k
  · have hlt : i + (w - k) < w := by omega
    have hidx : w - 1 - (i + (w - k)) = k - 1 - i := by omega
    simp [hi, hlt, hidx]
  · have hge : ¬ i + (w - k) < w := by omega
    simp [hi, hge]

/-- The high bits of the rank are the low bits of the word. -/
theorem rank_div_eq_iff {k : Nat} (hk : k ≤ w) {x y : BitVec w} :
    rank x / 2 ^ (w - k) = rank y / 2 ^ (w - k) ↔ x.toNat % 2 ^ k = y.toNat % 2 ^ k := by
  constructor
  · intro h
    apply Nat.eq_of_testBit_eq
    intro i
    rw [Nat.testBit_mod_two_pow, Nat.testBit_mod_two_pow, testBit_toNat, testBit_toNat]
    by_cases hi : i < k
    · -- bit `i` of the words is bit `k - 1 - i` of the quotients
      have hbit := congrArg (Nat.testBit · (k - 1 - i)) h
      simp only [testBit_rank_div hk] at hbit
      have hlt : k - 1 - i < k := by omega
      have hidx : k - 1 - (k - 1 - i) = i := by omega
      simpa [hi, hlt, hidx] using hbit
    · simp [hi]
  · intro h
    apply Nat.eq_of_testBit_eq
    intro i
    rw [testBit_rank_div hk, testBit_rank_div hk]
    by_cases hi : i < k
    · have hbit := congrArg (Nat.testBit · (k - 1 - i)) h
      simp only [Nat.testBit_mod_two_pow, testBit_toNat] at hbit
      have hlt : k - 1 - i < k := by omega
      simpa [hi, hlt] using hbit
    · simp [hi]

theorem rank_inj {x y : BitVec w} (h : rank x = rank y) : x = y := by
  have hrev : x.reverse = y.reverse := eq_of_toNat_eq h
  rw [← reverse_reverse_eq (x := x), hrev, reverse_reverse_eq]

theorem rank_div_lt {k : Nat} (hk : k ≤ w) (x : BitVec w) : rank x / 2 ^ (w - k) < 2 ^ k := by
  rw [Nat.div_lt_iff_lt_mul (Nat.two_pow_pos _), ← Nat.pow_add]
  simpa [Nat.add_sub_cancel' hk] using rank_lt x

/-! ## The next interval -/

/-- Set the bits above the low `k`, and add one in the reversed word. -/
def succ (k : Nat) (v : BitVec w) : BitVec w := ((v ||| ~~~lowMask w k).reverse + 1).reverse

theorem reverse_or_not_lowMask (k : Nat) (v : BitVec w) :
    (v ||| ~~~lowMask w k).reverse = v.reverse ||| lowMask w (w - k) := by
  apply eq_of_getLsbD_eq
  intro i hi
  rw [getLsbD_reverse, getLsbD_or, getLsbD_reverse, getLsbD_lowMask,
    getMsbD_or, getMsbD_not, getMsbD_eq_getLsbD (x := lowMask w k),
    getLsbD_lowMask]
  have hlt : w - 1 - i < w := by omega
  by_cases hk : w - 1 - i < k
  · have hge : ¬ i < w - k := by omega
    simp [hi, hlt, hk, hge]
  · have hlow : i < w - k := by omega
    simp [hi, hk, hlow]

theorem rank_succ {k : Nat} (hk : k ≤ w) (v : BitVec w) :
    rank (succ k v) = (rank v / 2 ^ (w - k) + 1) * 2 ^ (w - k) % 2 ^ w := by
  have hpos : 0 < 2 ^ (w - k) := Nat.two_pow_pos _
  have hset : (v.reverse ||| lowMask w (w - k)).toNat + 1 =
      (rank v / 2 ^ (w - k) + 1) * 2 ^ (w - k) := by
    rw [toNat_or, toNat_lowMask (by omega), or_two_pow_sub_one, Nat.add_mul, Nat.mul_comm]
    show _ = rank v / 2 ^ (w - k) * 2 ^ (w - k) + _
    rw [rank]
    omega
  rw [rank, succ, reverse_reverse_eq, reverse_or_not_lowMask, toNat_add, ← hset]
  cases w with
  | zero => simp [Nat.mod_one]
  | succ n =>
    have hone : (1 : BitVec (n + 1)).toNat = 1 := by simp
    rw [hone]

/-- The words from `v` up to the next interval are those of the interval of `v`. -/
theorem mod_eq_of_rank_between {k : Nat} (hk : k ≤ w) {v x : BitVec w} (hle : rank v ≤ rank x)
    (hlt : succ k v = 0 ∨ rank x < rank (succ k v)) : x.toNat % 2 ^ k = v.toNat % 2 ^ k := by
  have hpos : 0 < 2 ^ (w - k) := Nat.two_pow_pos _
  have hpow : 2 ^ w = 2 ^ k * 2 ^ (w - k) := by rw [← Nat.pow_add, Nat.add_sub_cancel' hk]
  have hge : rank v / 2 ^ (w - k) ≤ rank x / 2 ^ (w - k) := Nat.div_le_div_right hle
  rw [← rank_div_eq_iff hk]
  apply Nat.le_antisymm _ hge
  obtain hend | hlt := hlt
  · -- the interval of `v` is the last one
    have hzero := rank_succ hk v
    rw [hend, rank_zero, hpow, Nat.mul_mod_mul_right] at hzero
    have hmod : (rank v / 2 ^ (w - k) + 1) % 2 ^ k = 0 := by
      obtain h | h := Nat.mul_eq_zero.1 hzero.symm
      · exact h
      · omega
    have hvlt := rank_div_lt hk v
    have hxlt := rank_div_lt hk x
    generalize rank v / 2 ^ (w - k) = a at hmod hvlt
    generalize rank x / 2 ^ (w - k) = b at hxlt
    have hlast : a + 1 = 2 ^ k := by
      by_contra hne
      rw [Nat.mod_eq_of_lt (by omega)] at hmod
      omega
    omega
  · have hsucc : rank (succ k v) ≤ (rank v / 2 ^ (w - k) + 1) * 2 ^ (w - k) := by
      rw [rank_succ hk]
      exact Nat.mod_le _ _
    have hdiv : rank x / 2 ^ (w - k) < rank v / 2 ^ (w - k) + 1 := by
      rw [Nat.div_lt_iff_lt_mul hpos]
      omega
    omega

/-- A word at the beginning of an interval has no bits above the low `k`. -/
theorem toNat_lt_of_rank_eq {k n : Nat} (hk : k ≤ w) {v : BitVec w} (h : rank v = n * 2 ^ (w - k)) :
    v.toNat < 2 ^ k := by
  apply Nat.lt_pow_two_of_testBit
  intro i hi
  rw [testBit_toNat]
  by_cases hw : i < w
  · -- bit `i` of `v` is a low bit of the rank
    have hbit := testBit_rank v (w - 1 - i)
    have hidx : w - 1 - (w - 1 - i) = i := by omega
    rw [h, Nat.testBit_mul_two_pow, hidx] at hbit
    have hlow : ¬ w - k ≤ w - 1 - i := by omega
    have hlt : w - 1 - i < w := by omega
    simpa [hlow, hlt] using hbit.symm
  · exact getLsbD_of_ge v i (by omega)

/-! ## Counting the bits above -/

/-- Add one to the bits above the low `k`. -/
def stepUp (k : Nat) (v : BitVec w) : BitVec w :=
  (((v ||| lowMask w k) + 1) &&& ~~~lowMask w k) ||| (v &&& lowMask w k)

/-- The bits from `k₀` to `k₁`. -/
def mid (k₀ k₁ : Nat) (v : BitVec w) : Nat := v.toNat / 2 ^ k₀ % 2 ^ (k₁ - k₀)

theorem mid_lt (k₀ k₁ : Nat) (v : BitVec w) : mid k₀ k₁ v < 2 ^ (k₁ - k₀) :=
  Nat.mod_lt _ (Nat.two_pow_pos _)

/-- The low `k₁` bits from the low `k₀` and those above. -/
theorem toNat_mod_eq {k₀ k₁ : Nat} (hk : k₀ ≤ k₁) (v : BitVec w) :
    v.toNat % 2 ^ k₁ = 2 ^ k₀ * mid k₀ k₁ v + v.toNat % 2 ^ k₀ := by
  have hpow : 2 ^ k₁ = 2 ^ k₀ * 2 ^ (k₁ - k₀) := by rw [← Nat.pow_add, Nat.add_sub_cancel' hk]
  rw [hpow, Nat.mod_mul, mid]
  omega

theorem testBit_mid (k₀ k₁ : Nat) (v : BitVec w) (i : Nat) :
    (mid k₀ k₁ v).testBit i = (decide (i < k₁ - k₀) && v.getLsbD (i + k₀)) := by
  rw [mid, Nat.testBit_mod_two_pow, Nat.testBit_div_two_pow, testBit_toNat]

/-- The test whether these bits are all zero. -/
theorem and_xor_eq_zero_iff {k₀ k₁ : Nat} (h₀ : k₀ ≤ k₁) (h₁ : k₁ ≤ w) (v : BitVec w) :
    v &&& (lowMask w k₀ ^^^ lowMask w k₁) = 0 ↔ mid k₀ k₁ v = 0 := by
  constructor
  · intro h
    apply Nat.eq_of_testBit_eq
    intro i
    rw [testBit_mid, Nat.zero_testBit]
    by_cases hi : i < k₁ - k₀
    · have hbit := congrArg (getLsbD · (i + k₀)) h
      simp only [getLsbD_and, getLsbD_xor, getLsbD_lowMask] at hbit
      have h1 : i + k₀ < w := by omega
      have h2 : i + k₀ < k₁ := by omega
      have h3 : ¬ i + k₀ < k₀ := by omega
      simpa [h1, h2, h3, hi] using hbit
    · simp [hi]
  · intro h
    apply eq_of_getLsbD_eq
    intro i hi
    simp only [getLsbD_and, getLsbD_xor, getLsbD_lowMask, hi, true_and]
    by_cases hlow : i < k₀
    · have hhigh : i < k₁ := by omega
      simp [hlow, hhigh]
    · by_cases hhigh : i < k₁
      · have hbit := congrArg (Nat.testBit · (i - k₀)) h
        simp only [testBit_mid, Nat.zero_testBit] at hbit
        have hlt : i - k₀ < k₁ - k₀ := by omega
        have hidx : i - k₀ + k₀ = i := by omega
        simpa [hlt, hidx, hlow, hhigh] using hbit
      · simp [hlow, hhigh]

theorem toNat_stepUp {k : Nat} (hk : k ≤ w) (v : BitVec w) :
    (stepUp k v).toNat = (v.toNat / 2 ^ k + 1) * 2 ^ k % 2 ^ w + v.toNat % 2 ^ k := by
  have hpos : 0 < 2 ^ k := Nat.two_pow_pos k
  have hpow : 2 ^ w = 2 ^ k * 2 ^ (w - k) := by rw [← Nat.pow_add, Nat.add_sub_cancel' hk]
  -- the sum is a multiple of `2 ^ k`
  have hsum : ((v ||| lowMask w k) + 1).toNat = 2 ^ k * ((v.toNat / 2 ^ k + 1) % 2 ^ (w - k)) := by
    have hone : (v.toNat ||| 2 ^ k - 1) + 1 = 2 ^ k * (v.toNat / 2 ^ k + 1) := by
      rw [or_two_pow_sub_one, Nat.mul_add]
      omega
    cases w with
    | zero =>
      obtain rfl : k = 0 := by omega
      have hempty : ∀ x : BitVec 0, x.toNat = 0 := fun x => by
        have := x.isLt
        omega
      rw [hempty]
      simp [Nat.mod_one]
    | succ n =>
      have h1 : (1 : BitVec (n + 1)).toNat = 1 := by simp
      rw [toNat_add, toNat_or, toNat_lowMask hk, h1, hone, hpow, Nat.mul_mod_mul_left]
  have hclear : ((v ||| lowMask w k) + 1) &&& ~~~lowMask w k = (v ||| lowMask w k) + 1 := by
    apply eq_of_getLsbD_eq
    intro i hi
    rw [getLsbD_and, getLsbD_not, getLsbD_lowMask]
    by_cases hik : i < k
    · rw [← testBit_toNat, hsum, Nat.testBit_two_pow_mul]
      simp [hik]
    · simp [hi, hik]
  rw [stepUp, hclear, toNat_or, hsum, toNat_and_lowMask hk,
    ← Nat.two_pow_add_eq_or_of_lt (Nat.mod_lt _ hpos), hpow, Nat.mul_comm (v.toNat / 2 ^ k + 1),
    Nat.mul_mod_mul_left]

theorem stepUp_mod {k : Nat} (hk : k ≤ w) (v : BitVec w) :
    (stepUp k v).toNat % 2 ^ k = v.toNat % 2 ^ k := by
  have hpow : 2 ^ w = 2 ^ k * 2 ^ (w - k) := by rw [← Nat.pow_add, Nat.add_sub_cancel' hk]
  rw [toNat_stepUp hk, hpow, Nat.mul_comm (v.toNat / 2 ^ k + 1), Nat.mul_mod_mul_left,
    Nat.mul_add_mod, Nat.mod_mod]

theorem mid_stepUp {k₀ k₁ : Nat} (h₀ : k₀ ≤ k₁) (h₁ : k₁ ≤ w) (v : BitVec w) :
    mid k₀ k₁ (stepUp k₀ v) = (mid k₀ k₁ v + 1) % 2 ^ (k₁ - k₀) := by
  have hpos : 0 < 2 ^ k₀ := Nat.two_pow_pos k₀
  have hpow : 2 ^ w = 2 ^ k₀ * 2 ^ (w - k₀) := by
    rw [← Nat.pow_add, Nat.add_sub_cancel' (by omega)]
  have hdiv : (stepUp k₀ v).toNat / 2 ^ k₀ = (v.toNat / 2 ^ k₀ + 1) % 2 ^ (w - k₀) := by
    rw [toNat_stepUp (by omega), hpow, Nat.mul_comm (v.toNat / 2 ^ k₀ + 1), Nat.mul_mod_mul_left,
      Nat.mul_add_div hpos, Nat.div_eq_of_lt (Nat.mod_lt _ hpos), Nat.add_zero]
  have hdvd : 2 ^ (k₁ - k₀) ∣ 2 ^ (w - k₀) := Nat.pow_dvd_pow 2 (by omega)
  rw [mid, hdiv, Nat.mod_mod_of_dvd _ hdvd, mid, Nat.mod_add_mod]

/-! ## The two orders -/

/-- If the bits of `v` from `k₀` on are ones and then zeros, the words after `v` in the
interval of `v` have there at least what `v` has. -/
theorem mid_le_of_rank_le {k₀ k₁ : Nat} (h₀ : k₀ ≤ k₁) (h₁ : k₁ ≤ w) {v x : BitVec w}
    (hones : (mid k₀ k₁ v + 1).isPowerOfTwo) (hlow : x.toNat % 2 ^ k₀ = v.toNat % 2 ^ k₀)
    (hrank : rank v ≤ rank x) : mid k₀ k₁ v ≤ mid k₀ k₁ x := by
  obtain ⟨j, hj⟩ := hones
  have hposj : 0 < 2 ^ j := Nat.two_pow_pos j
  have hjle : j ≤ k₁ - k₀ := by
    have hlt := mid_lt k₀ k₁ v
    have hle : 2 ^ j ≤ 2 ^ (k₁ - k₀) := by omega
    exact (Nat.pow_le_pow_iff_right (by omega)).1 hle
  have hwide : k₀ + j ≤ w := by omega
  have hdiv : ∀ y : BitVec w, rank y / 2 ^ (w - k₀) = rank y / 2 ^ (w - (k₀ + j)) / 2 ^ j := by
    intro y
    rw [Nat.div_div_eq_div_mul, ← Nat.pow_add]
    congr 2
    omega
  -- the ranks agree in the bits of the interval, and there `v` goes on with ones
  have hsame : rank x / 2 ^ (w - (k₀ + j)) / 2 ^ j = rank v / 2 ^ (w - (k₀ + j)) / 2 ^ j := by
    rw [← hdiv, ← hdiv]
    exact (rank_div_eq_iff (by omega)).2 hlow
  have hall : rank v / 2 ^ (w - (k₀ + j)) % 2 ^ j = 2 ^ j - 1 := by
    apply Nat.eq_of_testBit_eq
    intro i
    rw [Nat.testBit_mod_two_pow, testBit_rank_div hwide, Nat.testBit_two_pow_sub_one]
    by_cases hi : i < j
    · have hbit : (mid k₀ k₁ v).testBit (j - 1 - i) = true := by
        have hmid : mid k₀ k₁ v = 2 ^ j - 1 := by omega
        rw [hmid, Nat.testBit_two_pow_sub_one]
        simpa using (show j - 1 - i < j by omega)
      rw [testBit_mid, Bool.and_eq_true] at hbit
      have hidx : k₀ + j - 1 - i = j - 1 - i + k₀ := by omega
      have hlt : i < k₀ + j := by omega
      simp [hi, hlt, hidx, hbit.2]
    · simp [hi]
  have hle : rank v / 2 ^ (w - (k₀ + j)) ≤ rank x / 2 ^ (w - (k₀ + j)) := Nat.div_le_div_right hrank
  -- so `x` has these ones too
  have heq : rank x / 2 ^ (w - (k₀ + j)) = rank v / 2 ^ (w - (k₀ + j)) := by
    have hv := Nat.div_add_mod (rank v / 2 ^ (w - (k₀ + j))) (2 ^ j)
    have hx := Nat.div_add_mod (rank x / 2 ^ (w - (k₀ + j))) (2 ^ j)
    have hlt := Nat.mod_lt (rank x / 2 ^ (w - (k₀ + j))) hposj
    rw [hall] at hv
    rw [hsame] at hx
    omega
  have hagree := (rank_div_eq_iff hwide).1 heq
  have hmod : mid k₀ k₁ x % 2 ^ j = mid k₀ k₁ v % 2 ^ j := by
    have hpart : ∀ y : BitVec w, mid k₀ k₁ y % 2 ^ j = y.toNat % 2 ^ (k₀ + j) / 2 ^ k₀ := by
      intro y
      rw [mid, Nat.mod_mod_of_dvd _ (Nat.pow_dvd_pow 2 hjle), Nat.pow_add, Nat.mod_mul,
        Nat.add_mul_div_left _ _ (Nat.two_pow_pos k₀),
        Nat.div_eq_of_lt (Nat.mod_lt _ (Nat.two_pow_pos k₀)), Nat.zero_add]
    rw [hpart, hpart, hagree]
  have hv : mid k₀ k₁ v % 2 ^ j = mid k₀ k₁ v := Nat.mod_eq_of_lt (by omega)
  rw [← hv, ← hmod]
  exact Nat.mod_le _ _

end Lib.ReverseBits
