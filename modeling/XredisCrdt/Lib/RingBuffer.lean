import Mathlib.Data.List.Basic

/-!
# Ring buffers, read from the most recent cell backwards

A ring is a memory `mem : Nat → α` of which the cells below `size` are used and
a write index `idx < size`. Writing goes piece by piece: a piece is copied to
the cells from `idx` on and never crosses the end of the memory, then the index
is advanced and rewound when it has reached the end.
-/

namespace Lib.RingBuffer

open List

variable {α : Type*} {size idx : Nat} {mem : Nat → α}

/-- Copy `xs` over the cells from `i` on. -/
def blit (mem : Nat → α) (i : Nat) (xs : List α) : Nat → α :=
  fun j => if i ≤ j then (xs[j - i]?).getD (mem j) else mem j

/-- The `n` cells from `i` on. -/
def slice (mem : Nat → α) (i n : Nat) : List α :=
  (List.range n).map fun k => mem (i + k)

/-- The write index after `n` more cells, rewound at the end of the memory. -/
def bump (size i n : Nat) : Nat :=
  if i + n = size then 0 else i + n

/-- The cell that was written `d` writes ago. -/
def backCell (size idx d : Nat) : Nat :=
  (idx + size - d) % size

/-- The element that was written `d` writes ago. -/
def back (size idx : Nat) (mem : Nat → α) (d : Nat) : α :=
  mem (backCell size idx d)

/-- The last `n` elements written, oldest first. -/
def recent (size idx : Nat) (mem : Nat → α) (n : Nat) : List α :=
  (List.range n).map fun k => back size idx mem (n - k)

@[simp] theorem slice_length (mem : Nat → α) (i n : Nat) : (slice mem i n).length = n := by
  simp [slice]

@[simp] theorem recent_length (n : Nat) : (recent size idx mem n).length = n := by
  simp [recent]

theorem recent_getElem {n k : Nat} (h : k < (recent size idx mem n).length) :
    (recent size idx mem n)[k] = back size idx mem (n - k) := by
  simp [recent]

theorem bump_lt {n : Nat} (hidx : idx < size) (hn : n ≤ size - idx) : bump size idx n < size := by
  unfold bump
  split <;> omega

/-- Up to the write index the ring has not wrapped, beyond it it has. -/
theorem backCell_eq {d : Nat} (hidx : idx < size) (hpos : 0 < d) (hd : d ≤ size) :
    backCell size idx d = if d ≤ idx then idx - d else idx + size - d := by
  unfold backCell
  split
  · rw [show idx + size - d = (idx - d) + size by omega, Nat.add_mod_right]
    exact Nat.mod_eq_of_lt (by omega)
  · exact Nat.mod_eq_of_lt (by omega)

theorem backCell_lt {d : Nat} (hidx : idx < size) : backCell size idx d < size :=
  Nat.mod_lt _ (by omega)

/-! ## Writing -/

/-- What lies `d` writes back after the elements `xs` were written to a ring in
which `f d` lay there before. -/
def pushed (xs : List α) (f : Nat → α) (d : Nat) : α :=
  (xs.reverse[d - 1]?).getD (f (d - xs.length))

@[simp] theorem pushed_nil (f : Nat → α) (d : Nat) : pushed [] f d = f d := rfl

theorem pushed_of_le {xs : List α} {f : Nat → α} {d : Nat} (hpos : 0 < d)
    (hd : d ≤ xs.length) : pushed xs f d = xs[xs.length - d] := by
  unfold pushed
  rw [getElem?_reverse (by omega), show xs.length - 1 - (d - 1) = xs.length - d by omega,
    getElem?_eq_getElem (by omega), Option.getD_some]

theorem pushed_of_lt {xs : List α} {f : Nat → α} {d : Nat} (hd : xs.length < d) :
    pushed xs f d = f (d - xs.length) := by
  unfold pushed
  rw [getElem?_eq_none (by rw [length_reverse]; omega), Option.getD_none]

/-- Writing in two pieces is writing both at once. -/
theorem pushed_append {xs ys : List α} {f : Nat → α} {d : Nat} (hpos : 0 < d) :
    pushed (xs ++ ys) f d = pushed ys (pushed xs f) d := by
  have hlen : (xs ++ ys).length = xs.length + ys.length := length_append
  by_cases hy : d ≤ ys.length
  · rw [pushed_of_le hpos hy, pushed_of_le hpos (by omega),
      getElem_append_right (by omega)]
    congr 1
    omega
  · rw [pushed_of_lt (by omega : ys.length < d)]
    by_cases hx : d - ys.length ≤ xs.length
    · rw [pushed_of_le (by omega) hx, pushed_of_le hpos (by omega),
        getElem_append_left (by omega)]
      congr 1
      omega
    · have hlt : (xs ++ ys).length < d := by omega
      rw [pushed_of_lt hlt, pushed_of_lt (by omega : xs.length < d - ys.length)]
      congr 1
      omega

theorem pushed_congr {xs : List α} {f g : Nat → α} {d : Nat} (hpos : 0 < d)
    (h : ∀ e, 0 < e → e ≤ d → f e = g e) : pushed xs f d = pushed xs g d := by
  by_cases hx : d ≤ xs.length
  · rw [pushed_of_le hpos hx, pushed_of_le hpos hx]
  · rw [pushed_of_lt (by omega), pushed_of_lt (by omega)]
    exact h _ (by omega) (by omega)

/-- One piece written. -/
theorem back_blit (mem : Nat → α) (xs : List α) {d : Nat} (hidx : idx < size)
    (hfit : xs.length ≤ size - idx) (hpos : 0 < d) (hd : d ≤ size) :
    back size (bump size idx xs.length) (blit mem idx xs) d = pushed xs (back size idx mem) d := by
  have hb := bump_lt hidx hfit
  unfold back
  rw [backCell_eq hb hpos hd]
  by_cases h : d ≤ xs.length
  · -- an element of the new piece: the piece ends right before the new index
    have hcell : (if d ≤ bump size idx xs.length then bump size idx xs.length - d
        else bump size idx xs.length + size - d) = idx + (xs.length - d) := by
      unfold bump
      split <;> split <;> omega
    rw [hcell, pushed_of_le hpos h, blit, if_pos (by omega), Nat.add_sub_cancel_left,
      getElem?_eq_getElem (by omega), Option.getD_some]
  · -- an older element: its cell lies outside the piece
    have hcell : (if d ≤ bump size idx xs.length then bump size idx xs.length - d
        else bump size idx xs.length + size - d) =
        if d - xs.length ≤ idx then idx - (d - xs.length)
        else idx + size - (d - xs.length) := by
      unfold bump
      split <;> split <;> split <;> omega
    rw [hcell, pushed_of_lt (by omega), backCell_eq hidx (by omega) (by omega)]
    unfold blit
    split
    · rw [if_neg (by omega)]
    · rw [if_pos (by omega), getElem?_eq_none (by omega), Option.getD_none]

/-! ## Reading -/

theorem recent_drop {n t : Nat} : (recent size idx mem n).drop t = recent size idx mem (n - t) := by
  refine ext_getElem (by simp) fun k hk hk' => ?_
  rw [recent_length] at hk'
  rw [getElem_drop, recent_getElem, recent_getElem]
  congr 1
  omega

/-- One piece read: the cells from the oldest wanted element up to the end of
the memory are the oldest of the wanted elements. -/
theorem slice_eq_take_recent (mem : Nat → α) {n t : Nat} (hidx : idx < size) (hn : n ≤ size)
    (ht : t ≤ n) (hfit : t ≤ size - backCell size idx n) :
    slice mem (backCell size idx n) t = (recent size idx mem n).take t := by
  refine ext_getElem (by simp; omega) fun k hk hk' => ?_
  rw [slice_length] at hk
  rw [getElem_take, recent_getElem]
  simp only [slice, getElem_map, getElem_range, back]
  congr 1
  rw [backCell_eq hidx (by omega) hn] at hfit ⊢
  rw [backCell_eq hidx (by omega) (by omega)]
  split at hfit <;> split <;> split <;> omega

/-- After a piece that reached the end of the memory the next one starts at
cell zero. -/
theorem backCell_rest {n : Nat} (hidx : idx < size) (hn : n ≤ size)
    (hlong : size - backCell size idx n < n) :
    backCell size idx (n - (size - backCell size idx n)) = 0 := by
  rw [backCell_eq hidx (by omega) hn] at hlong ⊢
  split at hlong
  · omega
  · rename_i h
    rw [if_neg h, backCell_eq hidx (by omega) (by omega)]
    split <;> omega

end Lib.RingBuffer
