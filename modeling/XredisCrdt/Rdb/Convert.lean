import XredisCrdt.Util
import XredisCrdt.Lib.FixedDecimal
import Mathlib.Data.List.Forall2

/-!
# Converting a plain RDB

An RDB written by a plain Redis holds strings, hashes, sets and sorted sets.
`data2CrdtData` of `ctrip_crdt_rdb.c` turns each of them into `SET`, `HSET`,
`SADD` and `ZADD` commands that a fake client executes. Its `argv` has room for
`MAX_FAKECLIENT_ARGV` words, so that a large object becomes several commands.
-/

namespace XredisCrdt.Rdb

open Lib.Decimal Lib.FixedDecimal List Option

/-! ## Scores -/

/-- A finite `double`: `± mant * 2 ^ exp`. -/
structure Binary64 where
  neg : Bool
  mant : Nat
  exp : Int
  mant_lt : mant < 2 ^ 53
  exp_ge : -1074 ≤ exp
  exp_le : exp ≤ 971

/-- The sign as a factor. -/
def Binary64.sign (d : Binary64) : ℚ := if d.neg then -1 else 1

/-- The number a `double` stands for. -/
def Binary64.value (d : Binary64) : ℚ := d.sign * (d.mant * 2 ^ d.exp)

/-- A `double` as it is stored in a sorted set. -/
inductive Score
  | finite (d : Binary64)
  | inf (neg : Bool)
  | nan (neg : Bool)

/-- The integer that `"%.17Lf"` prints with the point before its last 17 digits. -/
def Binary64.scaled (d : Binary64) : Nat :=
  if 0 ≤ d.exp then d.mant * 2 ^ d.exp.toNat * 10 ^ 17
  else roundHalfEven (d.mant * 10 ^ 17) (2 ^ (-d.exp).toNat)

/-- `ld2string` in its human friendly mode. The conversion from `double` to
`long double` is exact, and the buffer is long enough for every `double`. -/
def ld2string : Score → Bytes
  | .inf neg => if neg then ascii "-inf" else ascii "inf"
  | .nan neg => if neg then ascii "-nan" else ascii "nan"
  | .finite d => trimZeros ((if d.neg then [45] else []) ++ fixed 17 d.scaled)

/-! ## Objects and the fake client -/

/-- An entry of a ziplist, as `ziplistGet` returns it: `vstr` or `vlong`. -/
inductive Entry
  | str (vstr : Bytes)
  | int (vlong : Int)
deriving DecidableEq

/-- The string an entry was made from. -/
def Entry.text : Entry → Bytes
  | .str vstr => vstr
  | .int vlong => ll2string vlong

/-- Hashes in the order of `hashTypeNext`. -/
inductive Hash
  | ziplist (fields : List (Entry × Entry))
  | ht (fields : List (Bytes × Bytes))

/-- Sets in the order of `setTypeNext`. -/
inductive Members
  | intset (members : List Int)
  | ht (members : List Bytes)

/-- Sorted sets in their own order. The score of a ziplist entry is the result
of `zzlGetScore`. -/
inductive ZSet
  | ziplist (members : List (Entry × Score))
  | skiplist (members : List (Bytes × Score))

/-- The objects with elements. -/
inductive Collection
  | hash (h : Hash)
  | set (s : Members)
  | zset (z : ZSet)

/-- What `rdbLoadObject` returns; lists and module values are `other`. -/
inductive Value
  | string (s : Entry)
  | collection (c : Collection)
  | other

/-- `MAX_FAKECLIENT_ARGV`. -/
def maxFakeclientArgv : Nat := 20

/-- The calls of `processInputRdb`, each with its `argv`, and where the loops
stopped: the elements the iterator still holds and the counter. -/
structure Handed where
  commands : List (List Bytes)
  left : Nat
  len : Int
deriving DecidableEq

/-- How a conversion can fail: the process crashes, or the type is refused. -/
inductive Failure
  | crash
  | badType
deriving DecidableEq

section Loops

variable {α β : Type} (args : α → List Bytes)

/-- The `do … while` that fills `argv` from index `i` on. The iterator is at the
head of the list. It fails where the iterator is past its end and where `argv`
overflows. -/
def fill : List α → Nat → Int → Option (List Bytes × List α × Int)
  | [], _, _ => none
  | x :: xs, i, len =>
    if maxFakeclientArgv < i + (args x).length then none
    else if xs ≠ [] ∧ i + (args x).length < maxFakeclientArgv then
      (fill xs (i + (args x).length) (len - 1)).map fun r => (args x ++ r.1, r.2)
    else some (args x, xs, len - 1)

/-- The `while (len > 0)` around it. Each round takes an element off the list, so
that it ends within as many rounds as there are elements. -/
def batches (head : List Bytes) : Nat → List α → Int → Option (List (List Bytes) × List α × Int)
  | 0, _, _ => none
  | fuel + 1, xs, len =>
    if 0 < len then do
      let (words, xs, len) ← fill args xs head.length len
      let (commands, xs, len) ← batches head fuel xs len
      some ((head ++ words) :: commands, xs, len)
    else some ([], xs, len)

/-- One of the loops of `data2CrdtData`, from its start. -/
def handOver (name key : Bytes) (xs : List α) (len : Int) : Except Failure Handed :=
  match batches args [name, key] (xs.length + 1) xs len with
  | some (commands, xs, len) => .ok ⟨commands, xs.length, len⟩
  | none => .error .crash

end Loops

/-- `data2CrdtData`. -/
def data2CrdtData (key : Bytes) : Value → Except Failure Handed
  | .string (.int n) => .ok ⟨[[ascii "SET", key, ll2string n]], 0, 0⟩
  | .string (.str s) =>
    match string2ll s with
    | some n => .ok ⟨[[ascii "SET", key, ll2string n]], 0, 0⟩
    | none => .ok ⟨[[ascii "SET", key, s]], 0, 0⟩
  | .collection (.hash (.ziplist fs)) =>
    handOver (fun f => [f.1.text, f.2.text]) (ascii "HSET") key fs fs.length
  | .collection (.hash (.ht fs)) =>
    handOver (fun f => [f.1, f.2]) (ascii "HSET") key fs fs.length
  | .collection (.set (.intset ms)) =>
    handOver (fun m => [ll2string m]) (ascii "SADD") key ms ms.length
  | .collection (.set (.ht ms)) =>
    handOver (fun m => [m]) (ascii "SADD") key ms ms.length
  -- `ziplistIndex` finds nothing and `ziplistNext` reads through the null pointer
  | .collection (.zset (.ziplist [])) => .error .crash
  -- here the counter is an `int`
  | .collection (.zset (.ziplist ms)) =>
    handOver (fun m => [ld2string m.2, m.1.text]) (ascii "ZADD") key ms (toInt ms.length)
  | .collection (.zset (.skiplist ms)) =>
    handOver (fun m => [ld2string m.2, m.1]) (ascii "ZADD") key ms (toInt ms.length)
  | .other => .error .badType

/-! ## What a conversion has to carry -/

/-- `d` is the one `double` next to `v`, which is what `strtod` returns for a
text that denotes `v`. -/
def NextTo (v : ℚ) (d : Binary64) : Prop :=
  ∀ d' : Binary64, d'.value ≠ d.value → |v - d.value| < |v - d'.value|

/-- The number that a decimal text with an optional sign denotes. -/
def readSigned : Bytes → Option ℚ
  | 45 :: t => (readDecimal t).map Neg.neg
  | t => readDecimal t

/-- The score argument `t` is read as the score. -/
def Score.ReadFrom (t : Bytes) : Score → Prop
  | .finite d => ∃ v, readSigned t = some v ∧ NextTo v d
  | .inf neg => t = if neg then ascii "-inf" else ascii "inf"
  | .nan neg => t = if neg then ascii "-nan" else ascii "nan"

/-- An element, whatever its encoding. -/
inductive Element
  | field (name value : Bytes)
  | member (m : Bytes)
  | scored (s : Score) (m : Bytes)

/-- The arguments stand for the element. -/
def Element.Stands (args : List Bytes) : Element → Prop
  | .field name value => args = [name, value]
  | .member m => args = [m]
  | .scored s m => ∃ t, args = [t, m] ∧ s.ReadFrom t

/-- The elements in iteration order. -/
def Collection.elements : Collection → List Element
  | .hash (.ziplist fs) => fs.map fun f => .field f.1.text f.2.text
  | .hash (.ht fs) => fs.map fun f => .field f.1 f.2
  | .set (.intset ms) => ms.map fun m => .member (ll2string m)
  | .set (.ht ms) => ms.map .member
  | .zset (.ziplist ms) => ms.map fun m => .scored m.2 m.1.text
  | .zset (.skiplist ms) => ms.map fun m => .scored m.2 m.1

/-- The command that adds elements. -/
def Collection.command : Collection → Bytes
  | .hash _ => ascii "HSET"
  | .set _ => ascii "SADD"
  | .zset _ => ascii "ZADD"

/-- The commands add the elements of `c` to `key`: each names the key and fits
`argv`, and behind the key stand whole groups of arguments which, taken together
and in order, stand for the elements one by one. -/
def Carries (key : Bytes) (c : Collection) (commands : List (List Bytes)) : Prop :=
  (∀ argv ∈ commands, argv.length ≤ maxFakeclientArgv) ∧
    ∃ groups : List (List (List Bytes)),
      commands = groups.map (fun g => c.command :: key :: g.flatten) ∧
        List.Forall₂ Element.Stands groups.flatten c.elements

/-- The loops end, with the iterator at its end and the counter at zero, and the
commands carry the object. -/
def Lossless (key : Bytes) (c : Collection) : Prop :=
  ∃ commands, data2CrdtData key (.collection c) = .ok ⟨commands, 0, 0⟩ ∧ Carries key c commands

/-- The score is next to its own value rounded to 17 decimals. -/
def Score.Short : Score → Prop
  | .finite d => ∃ n : ℤ, IsRounding (d.value * 10 ^ 17) n ∧ NextTo (n / 10 ^ 17) d
  | .inf _ | .nan _ => True

/-- A sorted set whose conversion is safe: it is not an empty ziplist, an `int`
counts its members, and its scores are short. -/
def ZSet.Safe : ZSet → Prop
  | .ziplist ms => ms ≠ [] ∧ ms.length < 2 ^ 31 ∧ ∀ m ∈ ms, m.2.Short
  | .skiplist ms => ms.length < 2 ^ 31 ∧ ∀ m ∈ ms, m.2.Short

/-- Hashes and sets are always safe. -/
def Collection.Safe : Collection → Prop
  | .hash _ | .set _ => True
  | .zset z => z.Safe

/-! ## The loops -/

section Loops

variable {α β : Type} {args : α → List Bytes}

/-- A round takes as many elements as there is room for: `n + 1` of them, if each
has `w` arguments. -/
theorem fill_eq (x : α) (xs : List α) {w n i : Nat} {len : Int}
    (hw : ∀ y ∈ x :: xs, (args y).length = w) (hpos : 0 < w)
    (hroom : i + w * (n + 1) = maxFakeclientArgv) :
    fill args (x :: xs) i len = some (((x :: xs).take (n + 1)).flatMap args,
      (x :: xs).drop (n + 1), len - ((x :: xs).take (n + 1)).length) := by
  have hx : (args x).length = w := hw x mem_cons_self
  induction xs generalizing x n i len with
  | nil =>
    have hfits : ¬ maxFakeclientArgv < i + w := by
      rw [Nat.mul_succ] at hroom
      omega
    rw [fill, hx, if_neg hfits, if_neg (by simp)]
    simp
  | cons y ys ih =>
    have hy : (args y).length = w := hw y (by simp)
    cases n with
    | zero =>
      rw [fill, hx, if_neg (by omega), if_neg (by omega)]
      simp
    | succ n =>
      rw [Nat.mul_succ] at hroom
      have hmore : 0 < w * (n + 1) := Nat.mul_pos hpos n.succ_pos
      have hroom' : i + w + w * (n + 1) = maxFakeclientArgv := by omega
      rw [fill, hx, if_neg (by omega), if_pos ⟨by simp, by omega⟩,
        ih y (fun z hz => hw z (mem_cons_of_mem x hz)) hroom' hy]
      simp only [map_some, take_succ_cons, drop_succ_cons, flatMap_cons, length_cons]
      congr 3
      push_cast
      omega

/-- If the counter starts with the number of elements, the rounds hand over all
of them and end with it. -/
theorem batches_eq {head : List Bytes} {w n fuel : Nat} {xs : List α} (hpos : 0 < w)
    (hroom : head.length + w * (n + 1) = maxFakeclientArgv) (hfuel : xs.length < fuel)
    (hw : ∀ y ∈ xs, (args y).length = w) :
    ∃ chunks : List (List α), batches args head fuel xs xs.length =
          some (chunks.map (fun c => head ++ c.flatMap args), [], 0) ∧
        chunks.flatten = xs ∧ ∀ c ∈ chunks, c.length ≤ n + 1 := by
  induction fuel generalizing xs with
  | zero => omega
  | succ fuel ih =>
    cases xs with
    | nil => exact ⟨[], by simp [batches], rfl, by simp⟩
    | cons x xs =>
      have hrest : ((x :: xs).drop (n + 1)).length < fuel := by
        simp only [drop_succ_cons, length_drop, length_cons] at hfuel ⊢
        omega
      obtain ⟨chunks, hrun, hflat, hsize⟩ := ih hrest fun y hy => hw y (mem_of_mem_drop hy)
      have hlen : (((x :: xs).length : Nat) : Int) - ((x :: xs).take (n + 1)).length =
          ((x :: xs).drop (n + 1)).length := by
        rw [length_take, length_drop]
        omega
      refine ⟨(x :: xs).take (n + 1) :: chunks, ?_, ?_, ?_⟩
      · rw [batches, if_pos (by simp), fill_eq x xs hw hpos hroom, hlen]
        simp only [bind_eq_bind, bind_some, hrun, map_cons]
      · rw [flatten_cons, hflat, take_append_drop]
      · intro c hc
        rcases mem_cons.1 hc with rfl | hc
        · exact length_take_le _ _
        · exact hsize c hc

/-- Counter and iterator move together in a round… -/
theorem fill_balance {xs : List α} {i : Nat} {len : Int} {r : List Bytes × List α × Int}
    (h : fill args xs i len = some r) : r.2.2 - r.2.1.length = len - xs.length := by
  induction xs generalizing i len r with
  | nil => cases h
  | cons x xs ih =>
    rw [fill] at h
    split at h
    · cases h
    · split at h
      · obtain ⟨r', hr', rfl⟩ := map_eq_some_iff.1 h
        have := ih hr'
        simp only [length_cons]
        push_cast
        omega
      · obtain rfl := some.inj h
        simp only [length_cons]
        push_cast
        omega

/-- …and so in all of them. -/
theorem batches_balance {head : List Bytes} {fuel : Nat} {xs : List α} {len : Int}
    {r : List (List Bytes) × List α × Int} (h : batches args head fuel xs len = some r) :
    r.2.2 - r.2.1.length = len - xs.length := by
  induction fuel generalizing xs len r with
  | zero => cases h
  | succ fuel ih =>
    rw [batches] at h
    split at h
    · obtain ⟨r₁, hfill, h⟩ := bind_eq_some_iff.1 h
      obtain ⟨r₂, hrest, h⟩ := bind_eq_some_iff.1 h
      obtain rfl := some.inj h
      exact (ih hrest).trans (fill_balance hfill)
    · obtain rfl := some.inj h
      rfl

/-! The loops see of an element only its arguments. -/

theorem fill_map (f : β → α) (xs : List β) (i : Nat) (len : Int) : fill args (xs.map f) i len =
      (fill (fun x => args (f x)) xs i len).map fun r => (r.1, r.2.1.map f, r.2.2) := by
  induction xs generalizing i len with
  | nil => rfl
  | cons x xs ih =>
    rw [map_cons, fill, fill]
    split
    · rfl
    · simp only [ne_eq, map_eq_nil_iff]
      split
      · rw [ih, Option.map_map, Option.map_map]
        rfl
      · rfl

theorem batches_map (f : β → α) (head : List Bytes) (fuel : Nat) (xs : List β) (len : Int) :
    batches args head fuel (xs.map f) len =
      (batches (fun x => args (f x)) head fuel xs len).map fun r => (r.1, r.2.1.map f, r.2.2) := by
  induction fuel generalizing xs len with
  | zero => rfl
  | succ fuel ih =>
    rw [batches, batches]
    split
    · rw [fill_map]
      cases fill (fun x => args (f x)) xs head.length len with
      | none => rfl
      | some r =>
        simp only [map_some, bind_eq_bind, bind_some, ih]
        cases batches (fun x => args (f x)) head fuel r.2.1 r.2.2 <;> rfl
    · rfl

theorem handOver_map (f : β → α) (name key : Bytes) (xs : List β) (len : Int) :
    handOver args name key (xs.map f) len = handOver (fun x => args (f x)) name key xs len := by
  rw [handOver, handOver, batches_map, length_map]
  cases batches (fun x => args (f x)) [name, key] (xs.length + 1) xs len with
  | none => rfl
  | some r => simp only [map_some, length_map]

end Loops

/-! ## Scores as text -/

/-- `scaled` without its sign is the rounding that is printed. -/
theorem isRounding_scaled (d : Binary64) :
    IsRounding (d.mant * 2 ^ d.exp * 10 ^ 17) (d.scaled : Nat) := by
  rw [Binary64.scaled]
  split
  · rename_i hexp
    have hint : (d.mant * 2 ^ d.exp * 10 ^ 17 : ℚ) =
        ((d.mant * 2 ^ d.exp.toNat * 10 ^ 17 : Nat) : ℤ) := by
      have hpow : (2 : ℚ) ^ d.exp = 2 ^ d.exp.toNat := by
        rw [← zpow_natCast, Int.toNat_of_nonneg hexp]
      rw [hpow, Int.cast_natCast, Nat.cast_mul, Nat.cast_mul, Nat.cast_pow, Nat.cast_pow]
      rfl
    rw [hint]
    exact isRounding_int _
  · rename_i hexp
    have hquot : (d.mant * 2 ^ d.exp * 10 ^ 17 : ℚ) =
        ((d.mant * 10 ^ 17 : Nat) : ℚ) / ((2 ^ (-d.exp).toNat : Nat) : ℚ) := by
      have hneg : d.exp = -((-d.exp).toNat : ℤ) := by omega
      have hpow : (2 : ℚ) ^ d.exp = (2 ^ (-d.exp).toNat)⁻¹ := by
        rw [← zpow_natCast, ← zpow_neg, ← hneg]
      rw [hpow, Nat.cast_mul, Nat.cast_pow, Nat.cast_pow, Nat.cast_ofNat, Nat.cast_ofNat,
        mul_right_comm, div_eq_mul_inv]
    rw [hquot]
    exact isRounding_roundHalfEven _ (by positivity)

/-- The value of the text of a finite score, in units of the last decimal. -/
def Binary64.printed (d : Binary64) : ℤ := if d.neg then -d.scaled else d.scaled

theorem isRounding_printed (d : Binary64) : IsRounding (d.value * 10 ^ 17) d.printed := by
  have h := isRounding_scaled d
  rw [Binary64.value, Binary64.sign, Binary64.printed]
  split
  · rw [neg_one_mul, neg_mul]
    exact h.neg
  · rw [one_mul]
    exact h

/-- A text that starts with the sign is no number for `readDecimal`. -/
theorem readDecimal_minus (t : Bytes) : readDecimal (45 :: t) = none := rfl

theorem readSigned_ld2string (d : Binary64) :
    readSigned (ld2string (.finite d)) = some ((d.printed : ℚ) / 10 ^ 17) := by
  have hread := readDecimal_trimZeros_fixed 17 d.scaled
  rw [ld2string, trimZeros_append_fixed, Binary64.printed]
  cases d.neg with
  | true =>
    show (readDecimal (trimZeros (fixed 17 d.scaled))).map Neg.neg = _
    rw [hread, map_some, if_pos rfl, Int.cast_neg, Int.cast_natCast, neg_div]
  | false =>
    show readSigned (trimZeros (fixed 17 d.scaled)) = _
    -- a text that is read does not start with the sign
    generalize trimZeros (fixed 17 d.scaled) = t at hread ⊢
    unfold readSigned
    split
    · rw [readDecimal_minus] at hread
      cases hread
    · rw [hread, if_neg Bool.false_ne_true, Int.cast_natCast]

/-- A score is read back exactly if it is short. -/
theorem readFrom_ld2string_iff (s : Score) : s.ReadFrom (ld2string s) ↔ s.Short := by
  cases s with
  | inf neg => exact ⟨fun _ => trivial, fun _ => rfl⟩
  | nan neg => exact ⟨fun _ => trivial, fun _ => rfl⟩
  | finite d =>
    constructor
    · rintro ⟨v, hread, hnext⟩
      rw [readSigned_ld2string, some.injEq] at hread
      exact ⟨d.printed, isRounding_printed d, hread ▸ hnext⟩
    · rintro ⟨n, hround, hnext⟩
      rw [hround.unique (isRounding_printed d)] at hnext
      exact ⟨_, readSigned_ld2string d, hnext⟩

/-! ## The commands -/

/-- The arguments `data2CrdtData` makes of an element. -/
def Element.args : Element → List Bytes
  | .field name value => [name, value]
  | .member m => [m]
  | .scored s m => [ld2string s, m]

/-- How many arguments the elements of an object have. -/
def Collection.width : Collection → Nat
  | .hash _ | .zset _ => 2
  | .set _ => 1

/-- What the counter starts with. -/
def Collection.count (c : Collection) : Int :=
  match c with
  | .hash _ | .set _ => c.elements.length
  | .zset _ => toInt c.elements.length

open Element

theorem data2CrdtData_eq (key : Bytes) {c : Collection} (h : c ≠ .zset (.ziplist [])) :
    data2CrdtData key (.collection c) = handOver args c.command key c.elements c.count := by
  rcases c with (fs | fs) | (ms | ms) | (_ | ⟨m, ms⟩) | ms
  case zset.ziplist.nil => exact absurd rfl h
  all_goals
    rw [Collection.count, Collection.elements, handOver_map, length_map]
    rfl

theorem args_length {c : Collection} {e : Element} (h : e ∈ c.elements) :
    e.args.length = c.width := by
  rcases c with (fs | fs) | (ms | ms) | ms | ms <;> obtain ⟨x, -, rfl⟩ := mem_map.1 h <;> rfl

theorem stands_length {c : Collection} {e : Element} (h : e ∈ c.elements) {args : List Bytes}
    (hstands : e.Stands args) : args.length = c.width := by
  rw [← args_length h]
  cases e with
  | field name value => rw [show args = [name, value] from hstands]; rfl
  | member m => rw [show args = [m] from hstands]; rfl
  | scored s m =>
    obtain ⟨t, rfl, -⟩ := hstands
    rfl

/-- The commands that are handed over when the counter is right. -/
theorem handOver_eq (key : Bytes) (c : Collection) : ∃ chunks : List (List Element),
      handOver args c.command key c.elements c.elements.length =
          .ok ⟨chunks.map fun es => c.command :: key :: es.flatMap args, 0, 0⟩ ∧
        chunks.flatten = c.elements ∧
          ∀ es ∈ chunks, (es.flatMap args).length + 2 ≤ maxFakeclientArgv := by
  obtain ⟨n, hpos, hroom⟩ : ∃ n, 0 < c.width ∧ 2 + c.width * (n + 1) = maxFakeclientArgv := by
    rcases c with h | s | z
    · exact ⟨8, Nat.two_pos, rfl⟩
    · exact ⟨17, Nat.one_pos, rfl⟩
    · exact ⟨8, Nat.two_pos, rfl⟩
  obtain ⟨chunks, hrun, hflat, hsize⟩ := @batches_eq Element args
    [c.command, key] c.width n (c.elements.length + 1) c.elements hpos hroom
    (Nat.lt_succ_self c.elements.length) fun e he => args_length he
  refine ⟨chunks, ?_, hflat, ?_⟩
  · rw [handOver, hrun]
    rfl
  · intro es hes
    have hlen : (es.flatMap args).length = c.width * es.length := by
      have hall : ∀ e ∈ es, e.args.length = c.width := fun e he =>
        args_length (hflat ▸ mem_flatten.2 ⟨es, hes, he⟩)
      rw [length_flatMap, map_congr_left hall, map_const', sum_replicate_nat, Nat.mul_comm]
    have hmul := Nat.mul_le_mul_left c.width (hsize es hes)
    omega

/-- Behind command and key stand the groups, one after the other. -/
theorem flatMap_drop_two (name key : Bytes) (groups : List (List (List Bytes))) :
    (groups.map fun g => name :: key :: g.flatten).flatMap (List.drop 2) =
      groups.flatten.flatten := by
  induction groups with
  | nil => rfl
  | cons g groups ih =>
    rw [map_cons, flatMap_cons, ih, flatten_cons, flatten_append]
    rfl

/-- Commands that carry an object have the arguments of its elements. -/
theorem Carries.stands {key : Bytes} {c : Collection} {chunks : List (List Element)}
    (hflat : chunks.flatten = c.elements)
    (h : Carries key c (chunks.map fun es => c.command :: key :: es.flatMap args)) :
    ∀ e ∈ c.elements, e.Stands e.args := by
  obtain ⟨-, groups, hcommands, hstands⟩ := h
  -- the same words behind the keys…
  have hwords : groups.flatten.flatten = (c.elements.map args).flatten := by
    rw [← flatMap_drop_two c.command key groups, ← hcommands, ← hflat, map_flatten,
      ← flatMap_drop_two c.command key, List.map_map]
    rfl
  -- …cut into groups of the same lengths
  have hlengths : groups.flatten.map List.length = (c.elements.map args).map List.length := by
    have hwidth : ∀ {gs : List (List Bytes)} {es : List Element},
        List.Forall₂ (fun g e => e.Stands g) gs es → (∀ e ∈ es, e ∈ c.elements) →
          gs.map List.length = (es.map args).map List.length := by
      intro gs es hgs hes
      induction hgs with
      | nil => rfl
      | cons hge _ ih =>
        have he := hes _ mem_cons_self
        rw [map_cons, map_cons, map_cons, stands_length he hge, args_length he,
          ih fun e h => hes e (mem_cons_of_mem _ h)]
    exact hwidth hstands fun e he => he
  have hgroups : groups.flatten = c.elements.map args :=
    eq_iff_flatten_eq.2 ⟨hwords, hlengths⟩
  rw [hgroups, forall₂_map_left_iff, forall₂_same] at hstands
  exact hstands

/-- The counter, the loops and the printed arguments are all there is to a
conversion. -/
theorem lossless_iff_stands (key : Bytes) {c : Collection} (h : c ≠ .zset (.ziplist [])) :
    Lossless key c ↔ c.count = c.elements.length ∧ ∀ e ∈ c.elements, e.Stands e.args := by
  obtain ⟨chunks, hrun, hflat, hroom⟩ := handOver_eq key c
  rw [Lossless, data2CrdtData_eq key h]
  constructor
  · rintro ⟨commands, hok, hcarries⟩
    have hcount : c.count = c.elements.length := by
      rw [handOver] at hok
      split at hok
      · rename_i cs xs len hbatches
        have hbalance := batches_balance hbatches
        obtain ⟨-, hxs, hlen⟩ := Handed.mk.inj (Except.ok.inj hok)
        simp only [hxs, hlen] at hbalance
        omega
      · cases hok
    rw [hcount, hrun] at hok
    obtain ⟨rfl, -, -⟩ := Handed.mk.inj (Except.ok.inj hok)
    exact ⟨hcount, hcarries.stands hflat⟩
  · rintro ⟨hcount, hstands⟩
    refine ⟨_, hcount ▸ hrun, ?_, chunks.map (List.map args), ?_, ?_⟩
    · intro argv hargv
      obtain ⟨es, hes, rfl⟩ := mem_map.1 hargv
      exact hroom es hes
    · rw [List.map_map]
      rfl
    · rw [← map_flatten, hflat, forall₂_map_left_iff, forall₂_same]
      exact hstands

theorem toInt_natCast_iff (n : Nat) : toInt n = n ↔ n < 2 ^ 31 := by
  unfold toInt
  omega

/-- A scored element is carried if its score is short. -/
theorem stands_scored_iff (s : Score) (m : Bytes) :
    (scored s m).Stands (scored s m).args ↔ s.Short := by
  rw [← readFrom_ld2string_iff]
  constructor
  · rintro ⟨t, ht, hread⟩
    obtain rfl : ld2string s = t := (List.cons.inj ht).1
    exact hread
  · intro hread
    exact ⟨ld2string s, rfl, hread⟩

/-- A conversion loses nothing exactly if the object is safe. -/
theorem data2CrdtData_lossless_iff (key : Bytes) (c : Collection) : Lossless key c ↔ c.Safe := by
  by_cases hnil : c = .zset (.ziplist [])
  · subst hnil
    constructor
    · rintro ⟨commands, hcrash, -⟩
      cases hcrash
    · rintro ⟨hne, -⟩
      exact absurd rfl hne
  · rw [lossless_iff_stands key hnil]
    rcases c with (fs | fs) | (ms | ms) | ms | ms
    -- hashes and sets: the arguments are the elements themselves
    case hash.ziplist | hash.ht | set.intset | set.ht =>
      refine ⟨fun _ => trivial, fun _ => ⟨rfl, fun e he => ?_⟩⟩
      obtain ⟨x, -, rfl⟩ := mem_map.1 he
      rfl
    case zset.ziplist =>
      have hne : ms ≠ [] := fun h => hnil (h ▸ rfl)
      simp only [Collection.count, Collection.elements, length_map, toInt_natCast_iff,
        List.forall_mem_map, stands_scored_iff, Collection.Safe, ZSet.Safe]
      exact (and_iff_right hne).symm
    case zset.skiplist =>
      simp only [Collection.count, Collection.elements, length_map, toInt_natCast_iff,
        List.forall_mem_map, stands_scored_iff, Collection.Safe, ZSet.Safe]

/-- The score `2 ^ (-70)`, about `8.5e-22`. -/
def tinyScore : Binary64 where
  neg := false
  mant := 1
  exp := -70
  mant_lt := by decide
  exp_ge := by decide
  exp_le := by decide

/-- The sorted set with one member of that score is converted to
`ZADD k 0 m`: the score is lost. -/
theorem tiny_score_lost : data2CrdtData (ascii "k")
        (.collection (.zset (.skiplist [(ascii "m", .finite tinyScore)]))) =
      .ok ⟨[[ascii "ZADD", ascii "k", ascii "0", ascii "m"]], 0, 0⟩ ∧
    ¬ Lossless (ascii "k") (.zset (.skiplist [(ascii "m", .finite tinyScore)])) := by
  constructor
  · rfl
  · intro h
    obtain ⟨-, hstands⟩ := (lossless_iff_stands _ (by intro h; cases h)).1 h
    obtain ⟨n, hround, hnext⟩ :=
      (stands_scored_iff (.finite tinyScore) (ascii "m")).1 (hstands _ mem_cons_self)
    -- with 17 decimals the score is zero, and zero is a `double` of its own
    have hvalue : tinyScore.value = 1 / 2 ^ 70 := by
      norm_num [Binary64.value, Binary64.sign, tinyScore]
    have hzero : IsRounding (tinyScore.value * 10 ^ 17) 0 := by
      left
      rw [hvalue]
      norm_num [abs_of_pos]
    rw [hround.unique hzero] at hnext
    have hlt := hnext { tinyScore with mant := 0, mant_lt := Nat.two_pow_pos 53 }
      (by rw [hvalue]; norm_num [Binary64.value, tinyScore])
    rw [hvalue] at hlt
    norm_num [Binary64.value, tinyScore, abs_of_pos] at hlt

end XredisCrdt.Rdb
