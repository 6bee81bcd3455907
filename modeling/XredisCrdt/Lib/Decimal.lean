import Mathlib.Data.List.Basic
import Mathlib.Tactic.Ring

/-!
# Decimal numerals as bytes

`digits n` is the decimal numeral of `n` in ASCII, most significant digit first
and without leading zeros; `value v ds` continues a number whose digits so far
have the value `v` by the digits `ds`.
-/

namespace Lib.Decimal

/-- The digits `'0'` to `'9'`. -/
def IsDigit (b : UInt8) : Prop := 48 ≤ b.toNat ∧ b.toNat ≤ 57

instance (b : UInt8) : Decidable (IsDigit b) := inferInstanceAs (Decidable (_ ∧ _))

/-- The ASCII digit of `n % 10`. -/
def digit (n : Nat) : UInt8 := UInt8.ofNat (48 + n % 10)

/-- The numeral of `n`, cut to its last `fuel` digits. -/
def digitsFuel : Nat → Nat → List UInt8
  | 0, _ => []
  | fuel + 1, n => if n < 10 then [digit n] else digitsFuel fuel (n / 10) ++ [digit n]

/-- The numeral of `n`. -/
def digits (n : Nat) : List UInt8 := digitsFuel (n.log2 + 1) n

/-- Read `ds` after digits of value `v`. -/
def value (v : Nat) (ds : List UInt8) : Nat :=
  ds.foldl (fun v b => v * 10 + (b.toNat - 48)) v

@[simp] theorem digit_toNat (n : Nat) : (digit n).toNat = 48 + n % 10 := by
  unfold digit
  rw [UInt8.toNat_ofNat']
  omega

theorem digit_isDigit (n : Nat) : IsDigit (digit n) := by
  constructor <;> rw [digit_toNat] <;> omega

@[simp] theorem value_nil (v : Nat) : value v [] = v := rfl

@[simp] theorem value_cons (v : Nat) (b : UInt8) (ds : List UInt8) :
    value v (b :: ds) = value (v * 10 + (b.toNat - 48)) ds := by
  rw [value, List.foldl_cons, value]

theorem value_append (v : Nat) (ds es : List UInt8) :
    value v (ds ++ es) = value (value v ds) es := by
  simp [value]

/-- Reading more digits never lowers the value. -/
theorem le_value (v : Nat) (ds : List UInt8) : v ≤ value v ds := by
  induction ds generalizing v with
  | nil => exact Nat.le_refl v
  | cons b ds ih =>
    rw [value_cons]
    exact Nat.le_trans (by omega) (ih _)

theorem digitsFuel_isDigit {fuel n : Nat} {b : UInt8} (h : b ∈ digitsFuel fuel n) : IsDigit b := by
  induction fuel generalizing n with
  | zero => simp [digitsFuel] at h
  | succ fuel ih =>
    unfold digitsFuel at h
    split at h
    · rw [List.mem_singleton.mp h]
      exact digit_isDigit n
    · rcases List.mem_append.mp h with h | h
      · exact ih h
      · rw [List.mem_singleton.mp h]
        exact digit_isDigit n

theorem digitsFuel_length_le (fuel n : Nat) : (digitsFuel fuel n).length ≤ fuel := by
  induction fuel generalizing n with
  | zero => exact Nat.le_refl 0
  | succ fuel ih =>
    unfold digitsFuel
    split
    · simp
    · rw [List.length_append, List.length_singleton]
      exact Nat.succ_le_succ (ih _)

theorem value_digitsFuel {fuel n : Nat} (h : n < 10 ^ fuel) : value 0 (digitsFuel fuel n) = n := by
  induction fuel generalizing n with
  | zero => simp_all [digitsFuel]
  | succ fuel ih =>
    unfold digitsFuel
    rw [Nat.pow_succ] at h
    split
    · rename_i hlt
      simp only [value_cons, value_nil, digit_toNat]
      omega
    · rw [value_append, ih (by omega)]
      simp only [value_cons, value_nil, digit_toNat]
      omega

/-- Apart from zero itself no numeral starts with the digit zero. -/
theorem digitsFuel_head {fuel n : Nat} (hpos : 0 < n) (h : n < 10 ^ fuel) :
    ∃ b ds, digitsFuel fuel n = b :: ds ∧ 49 ≤ b.toNat ∧ b.toNat ≤ 57 := by
  induction fuel generalizing n with
  | zero => simp at h; omega
  | succ fuel ih =>
    unfold digitsFuel
    rw [Nat.pow_succ] at h
    split
    · exact ⟨digit n, [], rfl, by rw [digit_toNat]; omega, by rw [digit_toNat]; omega⟩
    · obtain ⟨b, ds, hds, hb⟩ := ih (n := n / 10) (by omega) (by omega)
      exact ⟨b, ds ++ [digit n], by rw [hds]; rfl, hb⟩

theorem lt_pow_log2 (n : Nat) : n < 10 ^ (n.log2 + 1) := by
  calc n < 2 ^ (n.log2 + 1) := Nat.lt_log2_self
    _ ≤ 10 ^ (n.log2 + 1) := Nat.pow_le_pow_left (by omega) _

theorem digits_isDigit {n : Nat} {b : UInt8} (h : b ∈ digits n) : IsDigit b := digitsFuel_isDigit h

/-- A 63-bit number has at most 63 digits, which is crude but enough. -/
theorem digits_length_le {n : Nat} (h : n < 2 ^ 63) : (digits n).length ≤ 63 := by
  have hlog : n.log2 < 63 := by
    rcases Nat.eq_zero_or_pos n with rfl | hpos
    · decide
    · exact (Nat.log2_lt (by omega)).mpr h
  exact Nat.le_trans (digitsFuel_length_le _ n) hlog

theorem value_digits (n : Nat) : value 0 (digits n) = n := value_digitsFuel (lt_pow_log2 n)

theorem digits_zero : digits 0 = [48] := by decide

theorem digits_pos_head {n : Nat} (h : 0 < n) :
    ∃ b ds, digits n = b :: ds ∧ 49 ≤ b.toNat ∧ b.toNat ≤ 57 :=
  digitsFuel_head h (lt_pow_log2 n)

theorem digits_ne_nil (n : Nat) : digits n ≠ [] := by
  rcases Nat.eq_zero_or_pos n with rfl | hpos
  · decide
  · obtain ⟨b, ds, hds, -⟩ := digits_pos_head hpos
    rw [hds]
    exact List.cons_ne_nil b ds

end Lib.Decimal
