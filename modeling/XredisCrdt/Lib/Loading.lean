import Mathlib.Algebra.Order.Ring.Int
import Mathlib.Tactic.Positivity

/-!
# Reading what was written

A `Loader` reads a value from the front of a byte stream, or fails. `Reads l bytes x` is the
law of a self-delimiting format: whatever follows, `l` takes exactly `bytes` and returns `x`.
The rules below follow the loaders' `do` blocks, so the law of a format is put together from
the laws of its parts. The second half has the words of fixed width, in both byte orders, and
their signed readings.
-/

namespace Lib.Loading

open List

/-- A reader of a byte stream. -/
abbrev Loader (α : Type) := StateT (List UInt8) Option α

variable {α β : Type}

/-- `l` reads `x` from `bytes` and leaves what follows them. -/
def Reads (l : Loader α) (bytes : List UInt8) (x : α) : Prop :=
  ∀ rest, l.run (bytes ++ rest) = some (x, rest)

/-- The next `n` bytes. -/
def takeBytes (n : Nat) : Loader (List UInt8) := fun s =>
  if n ≤ s.length then some (s.take n, s.drop n) else none

/-- The next byte. -/
def takeByte : Loader UInt8
  | [] => none
  | b :: s => some (b, s)

/-- A check of what was read. -/
def check (p : Prop) [Decidable p] : Loader Unit := fun s => if p then some ((), s) else none

theorem reads_pure (x : α) : Reads (pure x) [] x := fun _ => rfl

theorem Reads.bind {l : Loader α} {f : α → Loader β} {p q : List UInt8} {x : α} {y : β}
    (hl : Reads l p x) (hf : Reads (f x) q y) : Reads (l >>= f) (p ++ q) y := by
  intro rest
  rw [append_assoc, StateT.run_bind, hl]
  exact hf rest

/-- A last step that reads nothing. -/
theorem Reads.bind_pure {l : Loader α} {f : α → β} {as : List UInt8} {x : α}
    (hl : Reads l as x) : Reads (l >>= fun a => Pure.pure (f a)) as (f x) := by
  have h := hl.bind (f := fun a => Pure.pure (f a)) (reads_pure (f x))
  rwa [append_nil] at h

theorem reads_check {p : Prop} [Decidable p] (hp : p) : Reads (check p) [] () := fun _ => if_pos hp

/-- A step that reads nothing comes first. -/
theorem Reads.after_check {p : Prop} [Decidable p] {f : Unit → Loader β} {bs : List UInt8} {y : β}
    (hp : p) (hf : Reads (f ()) bs y) : Reads (check p >>= f) bs y :=
  (reads_check hp).bind hf

theorem reads_takeByte (b : UInt8) : Reads takeByte [b] b := fun _ => rfl

theorem reads_takeBytes (bytes : List UInt8) : Reads (takeBytes bytes.length) bytes bytes := by
  intro rest
  show (if bytes.length ≤ (bytes ++ rest).length then _ else none) = _
  rw [if_pos (by simp), take_left, drop_left]

/-- The same, with the number of bytes computed elsewhere. -/
theorem reads_takeBytes_of_length {n : Nat} {bytes : List UInt8} (h : bytes.length = n) :
    Reads (takeBytes n) bytes bytes := h ▸ reads_takeBytes bytes

/-! ## Loops -/

section Loop

variable {σ : Type} (step : σ → Loader (Option σ))

/-- Read items until `step` finds the end; `fuel` bounds the number of items. -/
def loop : Nat → σ → Loader σ
  | 0, _ => failure
  | fuel + 1, s => do
    match ← step s with
    | none => return s
    | some s' => loop fuel s'

/-- The items in `bytes` take the loop from one state to the other. -/
inductive Steps : σ → List UInt8 → σ → Prop
  | refl (s : σ) : Steps s [] s
  | cons {s s' s'' : σ} {as bs : List UInt8} :
    Reads (step s) as (some s') → Steps s' bs s'' → Steps s (as ++ bs) s''

variable {step}

theorem Steps.trans {s s' s'' : σ} {as bs : List UInt8} (h : Steps step s as s')
    (h' : Steps step s' bs s'') : Steps step s (as ++ bs) s'' := by
  induction h with
  | refl => exact h'
  | cons hread _ ih =>
    rw [append_assoc]
    exact .cons hread (ih h')

/-- With as much fuel as there are bytes the loop gets to the end, as no item is empty. -/
theorem Steps.reads_loop (hitem : ∀ s, (step s).run [] = none) {s s' : σ} {bytes last : List UInt8}
    (h : Steps step s bytes s') (hlast : Reads (step s') last none) {fuel : Nat}
    (hfuel : bytes.length < fuel) : Reads (loop step fuel s) (bytes ++ last) s' := by
  induction h generalizing fuel with
  | refl s =>
    obtain ⟨fuel, rfl⟩ := Nat.exists_eq_add_of_lt hfuel
    intro rest
    rw [nil_append, loop, StateT.run_bind, hlast]
    rfl
  | @cons s s' s'' as bs hread _ ih =>
    have hne : as ≠ [] := by
      rintro rfl
      have := hread []
      rw [append_nil, hitem] at this
      cases this
    have hpos := length_pos_iff.2 hne
    rw [length_append] at hfuel
    obtain ⟨fuel, rfl⟩ : ∃ n, fuel = n + 1 := ⟨fuel - 1, by omega⟩
    intro rest
    rw [loop, append_assoc, append_assoc, StateT.run_bind, hread]
    have hrest := ih hlast (show bs.length < fuel by omega) rest
    rw [append_assoc] at hrest
    exact hrest

end Loop

/-! ## Words -/

/-- The low `n` bytes of `v`, the least significant one first. -/
def leBytes : Nat → Nat → List UInt8
  | 0, _ => []
  | n + 1, v => UInt8.ofNat v :: leBytes n (v / 256)

/-- The number that the bytes denote, the least significant one first. -/
def ofLe : List UInt8 → Nat
  | [] => 0
  | b :: bs => b.toNat + 256 * ofLe bs

/-- The low `n` bytes of `v`, the most significant one first. -/
def beBytes (n v : Nat) : List UInt8 := (leBytes n v).reverse

@[inherit_doc ofLe] def ofBe (bytes : List UInt8) : Nat := ofLe bytes.reverse

@[simp] theorem leBytes_length (n v : Nat) : (leBytes n v).length = n := by
  induction n generalizing v with
  | zero => rfl
  | succ n ih => rw [leBytes, length_cons, ih]

@[simp] theorem beBytes_length (n v : Nat) : (beBytes n v).length = n := by
  rw [beBytes, length_reverse, leBytes_length]

theorem ofLe_leBytes (n v : Nat) : ofLe (leBytes n v) = v % 256 ^ n := by
  induction n generalizing v with
  | zero => rw [leBytes, ofLe, Nat.pow_zero, Nat.mod_one]
  | succ n ih =>
    have hbyte : (UInt8.ofNat v).toNat = v % 256 := UInt8.toNat_ofNat'
    have hsplit : v % (256 * 256 ^ n) = v % 256 + 256 * (v / 256 % 256 ^ n) := Nat.mod_mul
    rw [leBytes, ofLe, ih, hbyte, Nat.pow_succ', hsplit]

theorem ofLe_leBytes_of_lt {n v : Nat} (h : v < 256 ^ n) : ofLe (leBytes n v) = v := by
  rw [ofLe_leBytes, Nat.mod_eq_of_lt h]

theorem ofBe_beBytes_of_lt {n v : Nat} (h : v < 256 ^ n) : ofBe (beBytes n v) = v := by
  rw [ofBe, beBytes, reverse_reverse, ofLe_leBytes_of_lt h]

/-- The bytes of a signed number of `n` bytes, in two's complement. -/
def leBytesInt (n : Nat) (v : Int) : List UInt8 := leBytes n (v % 256 ^ n).toNat

/-- The signed number of `n` bytes that the bytes denote. -/
def ofLeInt (n : Nat) (bytes : List UInt8) : Int := Int.bmod (ofLe bytes) (256 ^ n)

@[simp] theorem leBytesInt_length (n : Nat) (v : Int) : (leBytesInt n v).length = n :=
  leBytes_length n _

theorem ofLeInt_leBytesInt {n : Nat} {v : Int} (hlo : -(256 ^ n / 2 : Nat) ≤ v)
    (hhi : v < ((256 ^ n + 1) / 2 : Nat)) : ofLeInt n (leBytesInt n v) = v := by
  have hpos : (0 : Int) < 256 ^ n := by positivity
  have hnonneg := Int.emod_nonneg v hpos.ne'
  have hlt : (v % 256 ^ n).toNat < 256 ^ n := by
    rw [Int.toNat_lt hnonneg]
    exact_mod_cast Int.emod_lt_of_pos v hpos
  rw [ofLeInt, leBytesInt, ofLe_leBytes_of_lt hlt, Int.toNat_of_nonneg hnonneg]
  have hmod : (256 ^ n : Int) = ((256 ^ n : Nat) : Int) := by push_cast; rfl
  rw [hmod, Int.emod_bmod, Int.bmod_eq_of_le hlo (by omega)]

end Lib.Loading
