import XredisCrdt.Lib.Decimal
import Mathlib.Data.List.DropRight
import Mathlib.Algebra.Order.Field.Rat
import Mathlib.Tactic.FieldSimp
import Mathlib.Tactic.Linarith
import Mathlib.Algebra.Ring.Int.Parity

/-!
# Fixed-point decimal texts

`fixed k n` is the text of `n / 10 ^ k` with exactly `k` decimals, the way
`printf` writes it; `trimZeros` takes the zeros off its end again. `readDecimal`
reads digits with an optional fraction as the exact rational they denote, and
`readDecimal_trimZeros_fixed` says that nothing is lost between the two: all
rounding happens in the choice of `n`.
-/

namespace Lib.FixedDecimal

open Lib.Decimal List

/-- `a / b` rounded to the nearest integer, ties to the even one. -/
def roundHalfEven (a b : Nat) : Nat :=
  let q := a / b
  let r := a % b
  if 2 * r < b then q
  else if b < 2 * r then q + 1
  else if q % 2 = 0 then q else q + 1

/-- `n` is the integer next to `x`, the even one of the two if there are two. -/
def IsRounding (x : ℚ) (n : ℤ) : Prop := |x - n| < 1 / 2 ∨ |x - n| = 1 / 2 ∧ Even n

theorem isRounding_int (n : ℤ) : IsRounding n n := by
  left
  rw [sub_self, abs_zero]
  norm_num

theorem IsRounding.neg {x : ℚ} {n : ℤ} (h : IsRounding x n) : IsRounding (-x) (-n) := by
  have habs : |-x - ((-n : ℤ) : ℚ)| = |x - n| := by
    rw [Int.cast_neg, neg_sub_neg, abs_sub_comm]
  rcases h with h | ⟨h, heven⟩
  · exact .inl (habs ▸ h)
  · exact .inr ⟨habs ▸ h, heven.neg⟩

/-- Two integers next to one number are the same one. -/
theorem IsRounding.unique {x : ℚ} {n m : ℤ} (hn : IsRounding x n) (hm : IsRounding x m) :
    n = m := by
  have hle : ∀ {k : ℤ}, IsRounding x k → |x - k| ≤ 1 / 2 := by
    rintro k (h | h)
    · exact h.le
    · exact h.1.le
  have hn2 := abs_le.1 (hle hn)
  have hm2 := abs_le.1 (hle hm)
  have hclose : (|n - m| : ℤ) ≤ 1 := by
    have : (|(n : ℚ) - m|) ≤ 1 := abs_le.2 ⟨by linarith, by linarith⟩
    exact_mod_cast this
  by_contra hne
  -- neighbours: the number lies half way between them, and both are even
  have htie : ∀ {k l : ℤ}, IsRounding x k → |x - l| ≤ 1 / 2 → l = k + 1 ∨ l = k - 1 → Even k := by
    rintro k l (h | h) hl hkl
    · obtain ⟨h1, h2⟩ := abs_lt.1 h
      obtain ⟨h3, h4⟩ := abs_le.1 hl
      rcases hkl with rfl | rfl <;> push_cast at h3 h4 <;> linarith
    · exact h.2
  have hstep : m = n + 1 ∨ m = n - 1 := by
    rcases abs_le.1 hclose with ⟨h1, h2⟩
    omega
  obtain ⟨a, ha⟩ := htie hn (hle hm) hstep
  obtain ⟨b, hb⟩ := htie hm (hle hn) (by omega)
  omega

theorem isRounding_roundHalfEven (a : Nat) {b : Nat} (hb : 0 < b) :
    IsRounding ((a : ℚ) / b) (roundHalfEven a b : Nat) := by
  have hbq : (0 : ℚ) < b := by exact_mod_cast hb
  have hdiv : (a : ℚ) / b = (a / b : Nat) + (a % b : Nat) / b := by
    have hsplit : ((b * (a / b) + a % b : Nat) : ℚ) = a := by rw [Nat.div_add_mod]
    rw [← hsplit]
    push_cast
    field_simp
  have hr : ((a % b : Nat) : ℚ) < b := by exact_mod_cast Nat.mod_lt a hb
  have hr0 : (0 : ℚ) ≤ (a % b : Nat) := Nat.cast_nonneg _
  -- the two candidates lie `r / b` below and `1 - r / b` above
  have hlow : |(a : ℚ) / b - ((a / b : Nat) : ℤ)| = (a % b : Nat) / b := by
    rw [hdiv, Int.cast_natCast, add_sub_cancel_left, abs_of_nonneg (div_nonneg hr0 hbq.le)]
  have hhigh : |(a : ℚ) / b - ((a / b + 1 : Nat) : ℤ)| = 1 - (a % b : Nat) / b := by
    have hle : ((a % b : Nat) : ℚ) / b ≤ 1 := (div_le_one₀ hbq).2 hr.le
    rw [hdiv, Int.cast_natCast, Nat.cast_add, Nat.cast_one, add_sub_add_left_eq_sub, abs_sub_comm,
      abs_of_nonneg (by linarith)]
  simp only [roundHalfEven]
  split
  · rename_i hlt
    left
    rw [hlow, div_lt_div_iff₀ hbq two_pos]
    exact_mod_cast (by omega : a % b * 2 < 1 * b)
  · rename_i hge
    split
    · rename_i hgt
      left
      rw [hhigh, sub_lt_comm, lt_div_iff₀ hbq]
      have : (b : ℚ) < 2 * (a % b : Nat) := by exact_mod_cast hgt
      linarith
    · rename_i hle
      have htie : ((a % b : Nat) : ℚ) / b = 1 / 2 := by
        rw [div_eq_div_iff hbq.ne' two_ne_zero]
        exact_mod_cast (by omega : a % b * 2 = 1 * b)
      split
      · rename_i heven
        right
        exact ⟨hlow.trans htie, (Int.even_coe_nat _).2 (Nat.even_iff.2 heven)⟩
      · rename_i hodd
        right
        refine ⟨?_, (Int.even_coe_nat _).2 (Nat.even_iff.2 (by omega))⟩
        rw [hhigh, htie]
        norm_num

/-- The last `k` digits of `n`, leading zeros included. -/
def fraction : Nat → Nat → List UInt8
  | 0, _ => []
  | k + 1, n => fraction k (n / 10) ++ [digit n]

/-- The text of `n / 10 ^ k` with `k` decimals. -/
def fixed (k n : Nat) : List UInt8 := digits (n / 10 ^ k) ++ 46 :: fraction k n

/-- Take the zeros off the end of the text, and then the point if it is last. -/
def trimZeros (t : List UInt8) : List UInt8 :=
  let t := t.rdropWhile (· = 48)
  if t.getLast? = some 46 then t.dropLast else t

/-- What the digits behind a decimal point are worth. -/
def readFraction (ds : List UInt8) : ℚ := value 0 ds / 10 ^ ds.length

/-- Digits, or digits, a point and digits, as the number they denote. -/
def readDecimal (t : List UInt8) : Option ℚ :=
  let int := t.takeWhile (IsDigit ·)
  if int.isEmpty then none
  else
    match t.dropWhile (IsDigit ·) with
    | [] => some (value 0 int)
    | 46 :: frac =>
      if frac.all (IsDigit ·) then some (value 0 int + readFraction frac) else none
    | _ => none

/-! ## The fraction -/

@[simp] theorem fraction_length (k n : Nat) : (fraction k n).length = k := by
  induction k generalizing n with
  | zero => rfl
  | succ k ih => rw [fraction, length_append, ih, length_singleton]

theorem fraction_isDigit {k n : Nat} {b : UInt8} (h : b ∈ fraction k n) : IsDigit b := by
  induction k generalizing n with
  | zero => cases h
  | succ k ih =>
    rcases mem_append.1 h with h | h
    · exact ih h
    · rw [mem_singleton.1 h]
      exact digit_isDigit n

theorem value_fraction (k n : Nat) : value 0 (fraction k n) = n % 10 ^ k := by
  induction k generalizing n with
  | zero => rw [Nat.pow_zero, Nat.mod_one]; rfl
  | succ k ih =>
    rw [fraction, value_append, ih, value_cons, value_nil, digit_toNat, Nat.pow_succ', Nat.mod_mul]
    omega

/-- Integer part and fraction together are the number that was printed. -/
theorem value_digits_add_readFraction (k n : Nat) :
    (value 0 (digits (n / 10 ^ k)) : ℚ) + readFraction (fraction k n) = n / 10 ^ k := by
  have hsplit : ((10 ^ k * (n / 10 ^ k) + n % 10 ^ k : Nat) : ℚ) = n := by rw [Nat.div_add_mod]
  rw [readFraction, value_digits, value_fraction, fraction_length, ← hsplit]
  push_cast
  field_simp

/-- A zero at the end of a fraction is worth nothing. -/
theorem readFraction_concat_zero (ds : List UInt8) :
    readFraction (ds ++ [48]) = readFraction ds := by
  have h48 : (48 : UInt8).toNat - 48 = 0 := rfl
  rw [readFraction, readFraction, value_append, value_cons, value_nil, h48, length_append,
    length_singleton, pow_succ]
  push_cast
  field_simp
  ring

theorem readFraction_rdropWhile (ds : List UInt8) :
    readFraction (ds.rdropWhile (· = 48)) = readFraction ds := by
  induction ds using List.reverseRecOn with
  | nil => rfl
  | append_singleton ds b ih =>
    by_cases hb : b = 48
    · rw [hb, rdropWhile_concat_pos _ _ _ (by simp), ih, readFraction_concat_zero]
    · rw [rdropWhile_concat_neg _ _ _ (by simpa using hb)]

/-! ## Trimming -/

theorem mem_of_mem_rdropWhile {p : UInt8 → Bool} {ds : List UInt8} {b : UInt8}
    (h : b ∈ ds.rdropWhile p) : b ∈ ds := by
  rw [List.rdropWhile, mem_reverse] at h
  exact mem_reverse.1 ((dropWhile_suffix p).subset h)

theorem rdropWhile_point (int ds : List UInt8) :
    (int ++ 46 :: ds).rdropWhile (· = 48) = int ++ 46 :: ds.rdropWhile (· = 48) := by
  induction ds using List.reverseRecOn with
  | nil => rw [rdropWhile_nil, rdropWhile_concat_neg _ _ _ (by decide)]
  | append_singleton ds b ih =>
    have hassoc : int ++ 46 :: (ds ++ [b]) = (int ++ 46 :: ds) ++ [b] := by simp
    by_cases hb : b = 48
    · rw [hassoc, rdropWhile_concat_pos _ _ _ (by simpa using hb), ih,
        rdropWhile_concat_pos _ _ _ (by simpa using hb)]
    · rw [hassoc, rdropWhile_concat_neg _ _ _ (by simpa using hb),
        rdropWhile_concat_neg _ _ _ (by simpa using hb), hassoc]

/-- What is left of the text: the integer part, and the fraction unless all of it
is zeros. -/
theorem trimZeros_point (int : List UInt8) {ds : List UInt8} (hds : ∀ b ∈ ds, IsDigit b) :
    trimZeros (int ++ 46 :: ds) =
      if ds.rdropWhile (· = 48) = [] then int else int ++ 46 :: ds.rdropWhile (· = 48) := by
  rw [trimZeros, rdropWhile_point]
  by_cases hnil : ds.rdropWhile (· = 48) = []
  · simp only [hnil, getLast?_concat, dropLast_concat, if_true]
  · -- the last byte is a digit, so it is not the point
    have hlast : (int ++ 46 :: ds.rdropWhile (· = 48)).getLast? ≠ some 46 := by
      intro h
      rw [getLast?_append_of_ne_nil _ (by simp), getLast?_cons,
        getLast?_eq_some_getLast hnil, Option.getD_some, Option.some.injEq] at h
      have hdigit := hds _ (mem_of_mem_rdropWhile (getLast_mem hnil))
      rw [h] at hdigit
      exact absurd hdigit (by decide)
    simp only [if_neg hlast, if_neg hnil]

/-- A sign in front is kept. -/
theorem trimZeros_append_fixed (sign : List UInt8) (k n : Nat) :
    trimZeros (sign ++ fixed k n) = sign ++ trimZeros (fixed k n) := by
  have hds : ∀ b ∈ fraction k n, IsDigit b := fun b hb => fraction_isDigit hb
  rw [fixed, ← append_assoc, trimZeros_point _ hds, trimZeros_point _ hds]
  split
  · rfl
  · rw [append_assoc]

/-! ## Reading -/

theorem readDecimal_digits {int : List UInt8} (hint : ∀ b ∈ int, IsDigit b) (hne : int ≠ []) :
    readDecimal int = some (value 0 int : ℚ) := by
  have hall : ∀ b ∈ int, decide (IsDigit b) = true := fun b hb => decide_eq_true (hint b hb)
  have htake : int.takeWhile (IsDigit ·) = int := takeWhile_eq_self_iff.2 hall
  have hdrop : int.dropWhile (IsDigit ·) = [] := dropWhile_eq_nil_iff.2 hall
  have hnempty : ¬ int.isEmpty = true := by simpa using hne
  simp only [readDecimal, htake, hdrop, if_neg hnempty]

theorem readDecimal_point {int ds : List UInt8} (hint : ∀ b ∈ int, IsDigit b) (hne : int ≠ [])
    (hds : ∀ b ∈ ds, IsDigit b) :
    readDecimal (int ++ 46 :: ds) = some (value 0 int + readFraction ds) := by
  have hall : ∀ b ∈ int, decide (IsDigit b) = true := fun b hb => decide_eq_true (hint b hb)
  have htake : (int ++ 46 :: ds).takeWhile (IsDigit ·) = int := by
    rw [takeWhile_append_of_pos hall, takeWhile_cons_of_neg (by decide), append_nil]
  have hdrop : (int ++ 46 :: ds).dropWhile (IsDigit ·) = 46 :: ds := by
    rw [dropWhile_append_of_pos hall, dropWhile_cons_of_neg (by decide)]
  have hnempty : ¬ int.isEmpty = true := by simpa using hne
  have hfrac : ds.all (IsDigit ·) = true := by simpa using hds
  simp only [readDecimal, htake, hdrop, if_neg hnempty, if_pos hfrac]

/-- A trimmed text denotes exactly the number that was printed. -/
theorem readDecimal_trimZeros_fixed (k n : Nat) :
    readDecimal (trimZeros (fixed k n)) = some ((n : ℚ) / 10 ^ k) := by
  have hint : ∀ b ∈ digits (n / 10 ^ k), IsDigit b := fun b hb => digits_isDigit hb
  have hds : ∀ b ∈ fraction k n, IsDigit b := fun b hb => fraction_isDigit hb
  rw [fixed, trimZeros_point _ hds, ← value_digits_add_readFraction,
    ← readFraction_rdropWhile (fraction k n)]
  split
  · rename_i hnil
    rw [readDecimal_digits hint (digits_ne_nil _), hnil]
    simp [readFraction]
  · exact readDecimal_point hint (digits_ne_nil _) fun b hb => hds b (mem_of_mem_rdropWhile hb)

end Lib.FixedDecimal
