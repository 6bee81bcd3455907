import XredisCrdt.Lib.Decimal

/-!
# Byte strings and the number formats of `util.c`

Simple dynamic strings are lists of bytes. The C library functions that stop at
the first NUL byte (`strchr`, `strcasecmp`) do so here as well.
-/

namespace XredisCrdt

open Lib.Decimal List

/-- The content of an `sds`. -/
abbrev Bytes := List UInt8

/-- The arguments of a command, its name first. -/
abbrev Argv := List Bytes

/-- The bytes of an ASCII text. -/
def ascii (s : String) : Bytes := s.toList.map fun c => UInt8.ofNat c.toNat

/-- `"\r\n"`, `shared.crlf`. -/
def crlf : Bytes := [13, 10]

/-- What a C function that takes a `char *` sees of a buffer. -/
def cstr (s : Bytes) : Bytes := s.takeWhile (· ≠ 0)

theorem no_zero_cstr (s : Bytes) : (0 : UInt8) ∉ cstr s := by
  intro h
  simpa using all_eq_true.1 all_takeWhile 0 h

theorem cstr_of_no_zero {s : Bytes} (h : (0 : UInt8) ∉ s) : cstr s = s := by
  have hall : ∀ b ∈ s, decide (b ≠ 0) = true := fun b hb =>
    decide_eq_true fun h0 => h (h0 ▸ hb)
  rw [cstr, ← append_nil s, takeWhile_append_of_pos hall, takeWhile_nil]

theorem cstr_cstr (s : Bytes) : cstr (cstr s) = cstr s := cstr_of_no_zero (no_zero_cstr s)

/-- `tolower` in the C locale. -/
def tolower (b : UInt8) : UInt8 := if 65 ≤ b ∧ b ≤ 90 then b + 32 else b

/-- `strcasecmp(a, b) == 0`. -/
def strcaseeq (a b : Bytes) : Bool := (cstr a).map tolower == (cstr b).map tolower

/-- `strchr(s, c)` as an index, for `c` other than NUL. -/
def strchr : Bytes → UInt8 → Option Nat
  | [], _ => none
  | b :: bs, c =>
    if b = c then some 0
    else if b = 0 then none
    else (strchr bs c).map (· + 1)

/-- `LLONG_MAX` and `ULLONG_MAX`. -/
def llongMax : Nat := 2 ^ 63 - 1
@[inherit_doc llongMax] def ullongMax : Nat := 2 ^ 64 - 1

/-- The digit loop of `string2ll`: the value and the bytes not used, or an
overflow. -/
def string2llLoop : Nat → Bytes → Option (Nat × Bytes)
  | v, [] => some (v, [])
  | v, b :: bs =>
    if IsDigit b then
      if v > ullongMax / 10 then none
      else if v * 10 > ullongMax - (b.toNat - 48) then none
      else string2llLoop (v * 10 + (b.toNat - 48)) bs
    else some (v, b :: bs)

/-- The part of `string2ll` after the sign; `single` is `slen == 1`. -/
def string2llAbs (single : Bool) : Bytes → Option Nat
  | [] => none
  | b :: bs =>
    if 49 ≤ b.toNat ∧ b.toNat ≤ 57 then
      match string2llLoop (b.toNat - 48) bs with
      | some (v, []) => some v
      | _ => none
    else if b = 48 ∧ single then some 0
    else none

/-- `string2ll`: the `long long` that the whole of `s` denotes, if any. -/
def string2ll (s : Bytes) : Option Int :=
  match s with
  | [] => none
  | [48] => some 0
  | 45 :: p =>
    match string2llAbs false p with
    | some v => if v > llongMax + 1 then none else some (-(v : Int))
    | none => none
  | p =>
    match string2llAbs (p.length == 1) p with
    | some v => if v > llongMax then none else some (v : Int)
    | none => none

/-- `ll2string`: the decimal text of a `long long`. -/
def ll2string (v : Int) : Bytes :=
  if v < 0 then 45 :: digits v.natAbs else digits v.natAbs

/-- A number is printed with digits, and a sign if it is negative. -/
theorem mem_ll2string {v : Int} {b : UInt8} (h : b ∈ ll2string v) : b = 45 ∨ IsDigit b := by
  unfold ll2string at h
  split at h
  · rcases mem_cons.1 h with rfl | h
    · exact .inl rfl
    · exact .inr (digits_isDigit h)
  · exact .inr (digits_isDigit h)

theorem ll2string_ne_nil (v : Int) : ll2string v ≠ [] := by
  unfold ll2string
  split
  · exact cons_ne_nil _ _
  · exact digits_ne_nil _

theorem not_mem_ll2string {v : Int} {b : UInt8} (hminus : b ≠ 45) (hdigit : ¬ IsDigit b) :
    b ∉ ll2string v := fun h => (mem_ll2string h).elim hminus hdigit

theorem string2llLoop_eq {v : Nat} {ds : Bytes} (hd : ∀ b ∈ ds, IsDigit b)
    (h : value v ds ≤ ullongMax) : string2llLoop v ds = some (value v ds, []) := by
  induction ds generalizing v with
  | nil => rfl
  | cons b ds ih =>
    obtain ⟨hlo, hhi⟩ := hd b (by simp)
    have hle := le_value (v * 10 + (b.toNat - 48)) ds
    rw [value_cons] at h ⊢
    have hmax : ullongMax = 18446744073709551615 := by decide
    rw [string2llLoop, if_pos ⟨hlo, hhi⟩, if_neg (by omega), if_neg (by omega)]
    exact ih (fun c hc => hd c (by simp [hc])) h

/-- A positive numeral is read back after the sign. -/
theorem string2llAbs_digits {n : Nat} {single : Bool} (hpos : 0 < n) (h : n ≤ ullongMax) :
    string2llAbs single (digits n) = some n := by
  obtain ⟨b, ds, hds, hlo, hhi⟩ := digits_pos_head hpos
  have hval : value (b.toNat - 48) ds = n := by
    have := value_digits n
    rw [hds, value_cons] at this
    simpa using this
  have hdig : ∀ c ∈ ds, IsDigit c := fun c hc =>
    digits_isDigit (n := n) (by rw [hds]; exact mem_cons_of_mem _ hc)
  rw [hds, string2llAbs, if_pos ⟨hlo, hhi⟩, string2llLoop_eq hdig (by rw [hval]; exact h), hval]

/-- A numeral has no sign in front. -/
theorem digits_head_ne_minus {n : Nat} {p : Bytes} : digits n ≠ 45 :: p := by
  intro h
  have := (digits_isDigit (n := n) (b := 45) (by rw [h]; simp)).1
  simp at this

theorem string2ll_digits {n : Nat} (h : n ≤ llongMax) : string2ll (digits n) = some (n : Int) := by
  rcases Nat.eq_zero_or_pos n with rfl | hpos
  · decide
  · have hu : n ≤ ullongMax := Nat.le_trans h (by decide)
    have hne : digits n ≠ [48] := by
      intro h48
      have := value_digits n
      rw [h48] at this
      simp at this
      omega
    obtain ⟨b, ds, hds, _⟩ := digits_pos_head hpos
    unfold string2ll
    split
    · rename_i h0
      simp [hds] at h0
    · rename_i h48
      exact absurd h48 hne
    · rename_i h45
      exact absurd h45 digits_head_ne_minus
    · rw [string2llAbs_digits hpos hu]
      exact if_neg (by omega)

/-- `string2ll` reads back every `long long` that `ll2string` prints. -/
theorem string2ll_ll2string {v : Int} (hlo : -(llongMax + 1 : Int) ≤ v) (hhi : v ≤ llongMax) :
    string2ll (ll2string v) = some v := by
  unfold ll2string
  split
  · have habs : v.natAbs ≤ llongMax + 1 := by omega
    have hu : v.natAbs ≤ ullongMax := Nat.le_trans habs (by decide)
    simp only [string2ll, string2llAbs_digits (show 0 < v.natAbs by omega) hu]
    rw [if_neg (by omega), show -(v.natAbs : Int) = v by omega]
  · rw [string2ll_digits (by omega), show (v.natAbs : Int) = v by omega]

/-- A `long long` passed as an `int`. -/
def toInt (n : Int) : Int := (n + 2 ^ 31) % 2 ^ 32 - 2 ^ 31

theorem toInt_of_small {n : Int} (hlo : 0 ≤ n) (hhi : n < 16) : toInt n = n := by
  unfold toInt
  omega

theorem toInt_of_int {n : Int} (hlo : -(2 ^ 31) ≤ n) (hhi : n < 2 ^ 31) : toInt n = n := by
  unfold toInt
  omega

/-- `isspace`. -/
def isspace (b : UInt8) : Bool := b = 32 ∨ 9 ≤ b ∧ b ≤ 13

/-- `strtoll(s, NULL, 10)`: white space, a sign, digits up to the first other byte. -/
def strtoll (s : Bytes) : Int :=
  let number (p : Bytes) : Nat := value 0 (p.takeWhile fun b => IsDigit b)
  match s.dropWhile isspace with
  | 45 :: p => max (-(llongMax + 1)) (-(number p))
  | 43 :: p => min llongMax (number p)
  | p => min llongMax (number p)

/-- `atoi`. -/
def atoi (s : Bytes) : Int := toInt (strtoll s)

/-- `strtoll` reads back every `long long` that `ll2string` prints. -/
theorem strtoll_ll2string {v : Int} (hlo : -(llongMax + 1 : Int) ≤ v) (hhi : v ≤ llongMax) :
    strtoll (ll2string v) = v := by
  have hnumber : ∀ n, value 0 ((digits n).takeWhile fun b => IsDigit b) = n := by
    intro n
    have hall : ∀ b ∈ digits n, decide (IsDigit b) = true := fun b hb =>
      decide_eq_true (digits_isDigit hb)
    rw [← append_nil (digits n), takeWhile_append_of_pos hall, takeWhile_nil,
      append_nil, value_digits]
  unfold ll2string
  split
  · have hspace : (45 :: digits v.natAbs).dropWhile isspace = 45 :: digits v.natAbs := rfl
    simp only [strtoll, hspace, hnumber]
    omega
  · -- the first digit is neither a space nor a sign
    obtain ⟨b, ds, hds, hb⟩ : ∃ b ds, digits v.natAbs = b :: ds ∧ IsDigit b := by
      rcases Nat.eq_zero_or_pos v.natAbs with h0 | hpos
      · exact ⟨48, [], by rw [h0, digits_zero], by decide⟩
      · obtain ⟨b, ds, hds, hlo, hhi⟩ := digits_pos_head hpos
        exact ⟨b, ds, hds, by unfold IsDigit; omega⟩
    have hspace : (digits v.natAbs).dropWhile isspace = digits v.natAbs := by
      have hne : isspace b = false := by
        unfold isspace IsDigit at *
        simp only [decide_eq_false_iff_not, not_or, not_and, UInt8.le_iff_toNat_le,
          ← UInt8.toNat_inj]
        constructor
        · intro h
          simp at h
          omega
        · intro _ h
          simp at h
          omega
      rw [hds, dropWhile_cons_of_neg (by simp [hne])]
    simp only [strtoll, hspace]
    split
    · rename_i h
      exact absurd h digits_head_ne_minus
    · rename_i p h
      have := (digits_isDigit (n := v.natAbs) (b := 43) (by rw [h]; simp)).1
      simp at this
    · rw [hnumber]
      omega

theorem atoi_ll2string {v : Int} (hlo : -(2 ^ 31) ≤ v) (hhi : v < 2 ^ 31) :
    atoi (ll2string v) = v := by
  have hmax : (llongMax : Int) = 9223372036854775807 := by decide
  rw [atoi, strtoll_ll2string (by omega) (by omega), toInt_of_int hlo hhi]

/-- A gid in a command: read as a `long long`, used as an `int`. -/
def string2gid (s : Bytes) : Option Int := (string2ll s).map toInt

/-! ## Commands that the server builds -/

def multiArgv (gid : Int) : Argv := [ascii "CRDT.MULTI", ll2string gid]

def execArgv (gid : Int) : Argv := [ascii "CRDT.EXEC", ll2string gid]

/-- `CRDT.OVC`, as `sendObservedVectorClock` builds it. -/
def ovcArgv (gid : Int) (vclock : Bytes) : Argv := [ascii "CRDT.OVC", ll2string gid, vclock]

/-- `CRDT.EVICTIONTOMBSTONE`, as `propagateGcTombstone` builds it. -/
def evictionArgv (gid : Int) (key vclock : Bytes) : Argv :=
  [ascii "CRDT.EVICTIONTOMBSTONE", key, ll2string gid, vclock]

end XredisCrdt
