import XredisCrdt.Clock.Order
import Mathlib.Logic.Function.Basic

/-!
# Vector clocks in memory

A `VectorClock` is one 64-bit word, used in three ways: the four high bits are its
length; a clock of one unit holds the unit in the other bits, four for the gid and 56
for the logical clock; a longer one holds there the address of a block of units. This
module follows `ctrip_vector_clock.c` on that representation, bit fields, blocks and
assertions included. A function yields `none` where an assertion fires or where it reads
or writes outside an allocated block.

`Rep` relates a word and the heap to the list of units it stands for, on which
`Clock.VectorClock` models the same functions. The lemmas here are about the steps the
functions are made of: reading and writing a unit (`Writes`), a new clock (`Allocates`),
sorting and freeing.
-/

namespace XredisCrdt.Clock.Packed

open Lib.KeyedMerge Function List

/-! ## Words -/

/-- The union `VectorClock`, and `clk`. -/
abbrev Word := BitVec 64

namespace Word

/-- `unit.clock`. -/
def clock (w : Word) : BitVec 56 := w.extractLsb' 0 56

/-- `unit.gid`. -/
def gid (w : Word) : BitVec 4 := w.extractLsb' 56 4

/-- `vc.len`, which lies where `unit.opt` and `pvc.opt` do. -/
def len (w : Word) : BitVec 4 := w.extractLsb' 60 4

/-- `pvc.pvc`, which lies over `unit.clock` and `unit.gid`. -/
def pvc (w : Word) : BitVec 60 := w.extractLsb' 0 60

/-- An assignment to a bit field keeps the other bits of the word. -/
def setClock (w : Word) (t : BitVec 56) : Word := w.len ++ (w.gid ++ t)
@[inherit_doc setClock] def setGid (w : Word) (g : BitVec 4) : Word := w.len ++ (g ++ w.clock)
@[inherit_doc setClock] def setLen (w : Word) (n : BitVec 4) : Word := n ++ w.pvc
@[inherit_doc setClock] def setPvc (w : Word) (a : BitVec 60) : Word := w.len ++ a

variable (l : BitVec 4) (w : Word) (g : BitVec 4) (t : BitVec 56)

theorem len_append (r : BitVec 60) : len (l ++ r) = l := BitVec.extractLsb'_append_eq_left

theorem pvc_append (r : BitVec 60) : pvc (l ++ r) = r := BitVec.extractLsb'_append_eq_right

theorem gid_append : gid (l ++ (g ++ t)) = g := by
  apply BitVec.eq_of_getLsbD_eq
  intro i hi
  rw [gid, BitVec.getLsbD_extractLsb', BitVec.getLsbD_append, BitVec.getLsbD_append]
  grind

theorem clock_append : clock (l ++ (g ++ t)) = t := by
  apply BitVec.eq_of_getLsbD_eq
  intro i hi
  rw [clock, BitVec.getLsbD_extractLsb', BitVec.getLsbD_append, BitVec.getLsbD_append]
  grind

@[simp] theorem setClock_len : (w.setClock t).len = w.len := len_append _ _

@[simp] theorem setClock_gid : (w.setClock t).gid = w.gid := gid_append _ _ _

@[simp] theorem setClock_clock : (w.setClock t).clock = t := clock_append _ _ _

@[simp] theorem setGid_len : (w.setGid g).len = w.len := len_append _ _

@[simp] theorem setGid_gid : (w.setGid g).gid = g := gid_append _ _ _

@[simp] theorem setLen_len (n : BitVec 4) : (w.setLen n).len = n := len_append _ _

@[simp] theorem setLen_pvc (n : BitVec 4) : (w.setLen n).pvc = w.pvc := pvc_append _ _

@[simp] theorem setPvc_pvc (a : BitVec 60) : (w.setPvc a).pvc = a := pvc_append _ _

/-- Setting the length that is there changes nothing. -/
theorem setLen_self : w.setLen w.len = w := by
  apply BitVec.eq_of_getLsbD_eq
  intro i hi
  rw [setLen, pvc, len, BitVec.getLsbD_append, BitVec.getLsbD_extractLsb',
    BitVec.getLsbD_extractLsb']
  grind

/-- The unit in a word. -/
def unit (w : Word) : ClockUnit := ⟨w.gid.toNat, w.clock.toNat⟩

/-- `init_clock`. -/
def initClock (gid t : Int) : Word :=
  (setGid 0 (BitVec.ofInt 4 gid)).setClock (BitVec.ofInt 56 t)

end Word

/-! ## Memory -/

/-- The blocks that `vc_malloc` gave and `vc_free` did not take back, by address. -/
abbrev Heap := BitVec 60 → Option (List Word)

/-- What `vc_malloc` answers: an address, and what happens to stand there. Addresses of
user space fit the 60 bits of `pvc`. -/
structure Block where
  addr : BitVec 60
  junk : Nat → Word

/-- An allocator gives no null pointer and no block that is in use. -/
def Fresh (h : Heap) (b : Block) : Prop := b.addr ≠ 0 ∧ h b.addr = none

/-- `set_len` with its assertion. -/
def setLen (w : Word) (n : Nat) : Option Word :=
  if n < 16 ∧ 0 < n then some (w.setLen (BitVec.ofNat 4 n)) else none

def newVectorClock (h : Heap) (b : Block) (n : Nat) : Option (Heap × Word) :=
  if n = 0 then some (h, 0)
  else if 1 < n then
    (setLen (Word.setPvc 0 b.addr) n).map fun w =>
      (update h b.addr (some ((List.range n).map b.junk)), w)
  else (setLen 0 n).map fun w => (h, w)

def freeVectorClock (h : Heap) (w : Word) : Option Heap :=
  if w.len.toNat < 2 then some h
  else (h w.pvc).map fun _ => update h w.pvc none

/-- `*get_clock_unit_by_index(&w, i)`. -/
def unitAt (h : Heap) (w : Word) (i : Nat) : Option Word :=
  if w.len.toNat < i then none
  else if w.len = 1 then some w
  else do (← h w.pvc)[i]?

/-- An assignment through `get_clock_unit_by_index(&w, i)`, to the word itself or to a
unit of its block. -/
def modifyUnit (f : Word → Word) (h : Heap) (w : Word) (i : Nat) : Option (Heap × Word) :=
  if w.len.toNat < i then none
  else if w.len = 1 then some (h, f w)
  else do
    let us ← h w.pvc
    let u ← us[i]?
    some (update h w.pvc (some (us.set i (f u))), w)

/-- The units, as a loop over the indices reads them. -/
def units (h : Heap) (w : Word) : Option (List Word) :=
  (List.range w.len.toNat).mapM (unitAt h w)

/-- `sortVectorClock`: `qsort` on the block. -/
def sortVectorClock (h : Heap) (w : Word) : Option Heap :=
  if w.len = 1 then some h
  else if w.len = 0 then some h
  else do
    let us ← h w.pvc
    let n := w.len.toNat
    some (update h w.pvc
      (some (sort (fun u => u.gid.toNat) (us.take n) ++ us.drop n)))

/-- The conversion to `char`. -/
def char (n : Int) : Int := (n + 128) % 256 - 128

/-- `get_clock_unit` as an index; null is `none`. -/
def getClockUnit (h : Heap) (w : Word) (gid : Int) : Option (Option Nat) :=
  (units h w).map fun us => us.findIdx? fun u => (u.gid.toNat : Int) = char gid

/-- `set_gid` and `set_logic_clock` on the unit at `i`, with the assertion of the first. -/
def setUnit (h : Heap) (w : Word) (i : Nat) (gid : Int) (t : Word → Int) : Option (Heap × Word) :=
  if gid < 16 ∧ 0 < gid then
    modifyUnit (fun u => (u.setGid (BitVec.ofInt 4 gid)).setClock (BitVec.ofInt 56 (t u))) h w i
  else none

/-- `set_clock_unit_by_index`. -/
def setClockUnitByIndex (h : Heap) (w : Word) (i : Nat) (u : Word) : Option (Heap × Word) :=
  setUnit h w i u.gid.toNat fun _ => u.clock.toNat

/-- `set_clock_unit_by_index` for one unit after the other, from index `i` on. -/
def fill (h : Heap) (w : Word) : Nat → List Word → Option (Heap × Word)
  | _, [] => some (h, w)
  | i, u :: us => do
    let (h, w) ← setClockUnitByIndex h w i u
    fill h w (i + 1) us

/-! ## The functions of the source -/

/-- A new clock with the units of `vc` and one more, not sorted yet. -/
def extend (b : Block) (h : Heap) (vc u : Word) : Option (Heap × Word) := do
  let (h, target) ← newVectorClock h b (vc.len.toNat + 1)
  let us ← units h vc
  fill h target 0 (us ++ [u])

def addVectorClockUnit (b : Block) (h : Heap) (vc : Word) (gid t : Int) :
    Option (Heap × Word) := do
  match ← getClockUnit h vc gid with
  | some i => setUnit h vc i (char gid) fun _ => t
  | none =>
    let (h, target) ← extend b h vc (Word.initClock (char gid) t)
    let h ← sortVectorClock h target
    let h ← freeVectorClock h vc
    some (h, target)

def incrLogicClock (h : Heap) (vc : Word) (gid delta : Int) : Option (Heap × Word) := do
  match ← getClockUnit h vc gid with
  | none => some (h, vc)
  | some i =>
    modifyUnit (fun u => u.setClock (BitVec.ofInt 56 (u.clock.toNat + delta))) h vc i

def commonMergeFunction (b : Block) (h : Heap) (dst src : Word) (gid : Int) (flag : MergeFlag) :
    Option (Heap × Word) := do
  match ← getClockUnit h src gid with
  | none => some (h, dst)
  | some j =>
    let s ← unitAt h src j
    match ← getClockUnit h dst gid with
    | none =>
      let (h, result) ← extend b h dst (Word.initClock (char gid) s.clock.toNat)
      let h ← freeVectorClock h dst
      let h ← sortVectorClock h result
      some (h, result)
    | some i => setUnit h dst i (char gid) fun d => flag.apply s.clock.toNat d.clock.toNat

def mergeLogicClock (b : Block) (h : Heap) (dst src : Word) (gid : Int) : Option (Heap × Word) :=
  commonMergeFunction b h dst src gid .max

def updateProcessVectorClock (b : Block) (h : Heap) (dst src : Word) (gid currentGid : Int) :
    Option (Heap × Word) :=
  commonMergeFunction b h dst src gid (if gid = currentGid then .align else .max)

/-- `dupVectorClock`: several units are copied with `memcpy`. -/
def dupVectorClock (b : Block) (h : Heap) (vc : Word) : Option (Heap × Word) := do
  let n := vc.len.toNat
  let (h, dup) ← newVectorClock h b n
  if 1 < n then
    let us ← h vc.pvc
    let ds ← h dup.pvc
    if us.length < n ∨ ds.length < n then none
    else some (update h dup.pvc (some (us.take n ++ ds.drop n)), dup)
  else if n = 1 then
    let u ← unitAt h vc 0
    setClockUnitByIndex h dup 0 u
  else some (h, dup)

/-- The common course of `vectorClockMerge` and `mergeMinVectorClock` on two clocks that
are not null; the second of them sets the length of the new clock again, `again`. -/
def mergeWords (pick : Nat → Nat → Nat) (both : Word → Word → Word) (alone : Word → Word)
    (again : Bool) (b : Block) (h : Heap) (v₁ v₂ : Word) : Option (Heap × Word) := do
  let us₁ ← units h v₁
  let us₂ ← units h v₂
  let n := countAllGidNum (us₁.map Word.unit) (us₂.map Word.unit)
  if 1 < n then
    let (h, target) ← newVectorClock h b n
    let target ← if again then setLen target n else some target
    let h ← sortVectorClock h v₁
    let h ← sortVectorClock h v₂
    let us₁ ← units h v₁
    let us₂ ← units h v₂
    let (h, target) ← fill h target 0 (mergeBy (fun u => u.gid.toNat) both alone us₁ us₂)
    let target ← if again then setLen target n else some target
    some (h, target)
  else
    let (h, target) ← dupVectorClock b h v₂
    let u₁ ← unitAt h v₁ 0
    let u₂ ← unitAt h v₂ 0
    modifyUnit (fun u => u.setClock (BitVec.ofInt 56 (pick u₁.clock.toNat u₂.clock.toNat : Nat)))
      h target 0

def vectorClockMerge (b : Block) (h : Heap) (v₁ v₂ : Word) : Option (Heap × Word) :=
  if v₁.len = 0 ∧ v₂.len = 0 then newVectorClock h b 0
  else if v₁.len = 0 then dupVectorClock b h v₂
  else if v₂.len = 0 then dupVectorClock b h v₁
  else
    mergeWords Max.max
      (fun u v => Word.initClock u.gid.toNat (Max.max u.clock.toNat v.clock.toNat : Nat)) id
      false b h v₁ v₂

/-- `cleanVectorClock`, from index `i` on. -/
def cleanVectorClock (h : Heap) (w : Word) : Nat → Nat → Option (Heap × Word)
  | _, 0 => some (h, w)
  | i, n + 1 => do
    let (h, w) ← modifyUnit (fun u => u.setClock 0) h w i
    cleanVectorClock h w (i + 1) n

/-- A copy with all clocks at zero. -/
def dupClean (b : Block) (h : Heap) (vc : Word) : Option (Heap × Word) := do
  let (h, result) ← dupVectorClock b h vc
  cleanVectorClock h result 0 result.len.toNat

def mergeMinVectorClock (b : Block) (h : Heap) (v₁ v₂ : Word) : Option (Heap × Word) :=
  if v₁.len = 0 ∧ v₂.len = 0 then newVectorClock h b 0
  else if v₁.len = 0 then dupClean b h v₂
  else if v₂.len = 0 then dupClean b h v₁
  else
    mergeWords Min.min
      (fun u v => Word.initClock u.gid.toNat (Min.min u.clock.toNat v.clock.toNat : Nat))
      (fun u => Word.initClock u.gid.toNat 0) true b h v₁ v₂

/-- The test of `purgeVectorClock` on one unit: `src` is behind of it. -/
def ahead (h : Heap) (src u : Word) : Option Bool := do
  match ← getClockUnit h src u.gid.toNat with
  | none => some (u.clock.toNat != 0)
  | some j =>
    let s ← unitAt h src j
    some (s.clock.toNat < u.clock.toNat)

/-- The units that are kept. -/
def aheads (h : Heap) (src : Word) : List Word → Option (List Word)
  | [] => some []
  | u :: us => do
    let keep ← ahead h src u
    let c ← aheads h src us
    some (if keep then u :: c else c)

def purgeVectorClock (b : Block) (h : Heap) (targe src : Word) : Option (Heap × Word) :=
  if targe.len = 0 then some (h, targe)
  else if src.len = 0 then some (h, targe)
  else do
    let us ← units h targe
    let c ← aheads h src us
    let (h, result) ← newVectorClock h b c.length
    let (h, result) ← fill h result 0 c
    let h ← freeVectorClock h targe
    let h ← sortVectorClock h result
    some (h, result)

def getMonoVectorClock (b : Block) (h : Heap) (src : Word) (gid : Int) :
    Option (Heap × Word) := do
  let (h, dst) ← newVectorClock h b 1
  match ← getClockUnit h src gid with
  | none => newVectorClock h b 0
  | some j =>
    let s ← unitAt h src j
    let (h, dst) ← setClockUnitByIndex h dst 0 s
    let dst ← setLen dst 1
    some (h, dst)

/-! ## Units in memory -/

/-- The word and its block hold the units `us`. -/
def Holds (h : Heap) (w : Word) (us : List Word) : Prop :=
  w.len.toNat = us.length ∧
    match us with
    | [] => True
    | [u] => u = w
    | us => h w.pvc = some us

/-- The word has the block at `a`. -/
def Owns (w : Word) (a : BitVec 60) : Prop := 2 ≤ w.len.toNat ∧ w.pvc = a

/-- The word and its block stand for the units `cs`. -/
def Rep (h : Heap) (w : Word) (cs : Units) : Prop := ∃ us, Holds h w us ∧ us.map Word.unit = cs

section Holds

variable {h h' : Heap} {w : Word} {us : List Word}

theorem len_eq_one_iff : w.len = 1 ↔ w.len.toNat = 1 := by
  rw [← BitVec.toNat_inj]
  rfl

theorem len_eq_zero_iff : w.len = 0 ↔ w.len.toNat = 0 := by
  rw [← BitVec.toNat_inj]
  rfl

theorem Holds.block (hw : Holds h w us) (hlen : 2 ≤ us.length) : h w.pvc = some us := by
  obtain ⟨-, hus⟩ := hw
  match us, hlen with
  | _ :: _ :: _, _ => exact hus

theorem Holds.single (hw : Holds h w us) (hlen : us.length = 1) : us = [w] := by
  obtain ⟨-, hus⟩ := hw
  obtain ⟨u, rfl⟩ := length_eq_one_iff.1 hlen
  rw [show u = w from hus]

/-- A heap with the same block will do. -/
theorem Holds.congr (hw : Holds h w us) (heq : ∀ a, Owns w a → h' a = h a) : Holds h' w us := by
  refine ⟨hw.1, ?_⟩
  match us, hw with
  | [], _ => trivial
  | [u], hw => exact hw.2
  | u :: v :: us, hw =>
    show h' w.pvc = _
    rw [heq w.pvc ⟨by rw [hw.1]; simp, rfl⟩]
    exact hw.2

theorem Rep.congr {cs : Units} (hw : Rep h w cs) (heq : ∀ a, Owns w a → h' a = h a) :
    Rep h' w cs := by
  obtain ⟨us, hus, hcs⟩ := hw
  exact ⟨us, hus.congr heq, hcs⟩

theorem holds_of_block (hlen : w.len.toNat = us.length) (htwo : 2 ≤ us.length)
    (hblock : h w.pvc = some us) : Holds h w us := by
  refine ⟨hlen, ?_⟩
  match us, htwo with
  | _ :: _ :: _, _ => exact hblock

/-- An owned block is in use. -/
theorem Holds.allocated (hw : Holds h w us) {a : BitVec 60} (ha : Owns w a) : h a ≠ none := by
  obtain ⟨hlen, rfl⟩ := ha
  rw [hw.block (hw.1 ▸ hlen)]
  simp

theorem unitAt_eq (hw : Holds h w us) {i : Nat} (hi : i < us.length) :
    unitAt h w i = some us[i] := by
  rw [unitAt, if_neg (by rw [hw.1]; omega)]
  split
  · rename_i hone
    obtain rfl := hw.single (hw.1 ▸ len_eq_one_iff.1 hone)
    obtain rfl : i = 0 := by simpa using hi
    rfl
  · rename_i hone
    rw [len_eq_one_iff, hw.1] at hone
    rw [hw.block (by omega)]
    simp [hi]

theorem units_eq (hw : Holds h w us) : units h w = some us := by
  have hall : ∀ n ≤ us.length, (List.range n).mapM (unitAt h w) = some (us.take n) := by
    intro n hn
    induction n with
    | zero => rfl
    | succ n ih =>
      rw [range_succ, mapM_append, ih (by omega)]
      simp [unitAt_eq hw (show n < us.length by omega)]
  rw [units, hw.1, hall _ le_rfl, take_length]

end Holds

/-! ## Writes -/

/-- From `h`, `w` to `h'`, `w'` only the units of `w` were written. -/
structure Writes (h : Heap) (w : Word) (h' : Heap) (w' : Word) : Prop where
  len : w'.len = w.len
  word : 2 ≤ w.len.toNat → w' = w
  frame : ∀ a, ¬ Owns w a → h' a = h a

theorem Writes.refl (h : Heap) (w : Word) : Writes h w h w := ⟨rfl, fun _ => rfl, fun _ _ => rfl⟩

variable {h : Heap} {us : List Word} {w w' : Word}

theorem Writes.owns_iff {h h' : Heap} (hw : Writes h w h' w') (a : BitVec 60) :
    Owns w' a ↔ Owns w a := by
  constructor
  · rintro ⟨hlen, rfl⟩
    rw [hw.len] at hlen
    rw [hw.word hlen]
    exact ⟨hlen, rfl⟩
  · rintro ⟨hlen, rfl⟩
    rw [hw.word hlen]
    exact ⟨hlen, rfl⟩

theorem Writes.trans {h h' h'' : Heap} {w'' : Word} (h₁ : Writes h w h' w')
    (h₂ : Writes h' w' h'' w'') : Writes h w h'' w'' where
  len := h₂.len.trans h₁.len
  word hlen := (h₂.word (h₁.len ▸ hlen)).trans (h₁.word hlen)
  frame a ha := (h₂.frame a (mt (h₁.owns_iff a).1 ha)).trans (h₁.frame a ha)

theorem modifyUnit_spec {f : Word → Word} {i : Nat} (hw : Holds h w us) (hi : i < us.length)
    (hf : ∀ u, (f u).len = u.len) :
    ∃ h' w', modifyUnit f h w i = some (h', w') ∧ Holds h' w' (us.modify i f) ∧
      Writes h w h' w' := by
  rw [modifyUnit, if_neg (by rw [hw.1]; omega)]
  by_cases hone : us.length = 1
  · -- the unit is the word itself
    rw [if_pos (len_eq_one_iff.2 (hw.1.trans hone))]
    obtain rfl := hw.single hone
    obtain rfl : i = 0 := by simpa using hi
    refine ⟨h, f w, rfl, ⟨?_, rfl⟩, hf w, ?_, fun _ _ => rfl⟩
    · rw [hf, hw.1]
      rfl
    · intro htwo
      rw [hw.1] at htwo
      simp at htwo
  · have htwo : 2 ≤ us.length := by omega
    rw [if_neg (by rw [len_eq_one_iff, hw.1]; exact hone), hw.block htwo]
    refine ⟨update h w.pvc (some (us.set i (f us[i]))), w, by simp [hi], ?_, rfl,
      fun _ => rfl, ?_⟩
    · rw [modify_eq_set_getElem?, getElem?_eq_getElem hi]
      refine holds_of_block ?_ ?_ (update_self ..)
      · rw [hw.1]
        simp
      · simpa using htwo
    · intro a ha
      apply update_of_ne
      rintro rfl
      exact ha ⟨hw.1 ▸ htwo, rfl⟩

theorem modify_append_cons {α : Type} (pre : List α) (x : α) (post : List α) (f : α → α) :
    (pre ++ x :: post).modify pre.length f = pre ++ f x :: post := by
  induction pre with
  | nil => rfl
  | cons y pre ih => rw [cons_append, length_cons, modify_succ_cons, ih]; rfl

/-- What `set_clock_unit_by_index` writes over a unit. -/
theorem unit_put (x u : Word) :
    ((x.setGid (BitVec.ofInt 4 u.gid.toNat)).setClock (BitVec.ofInt 56 u.clock.toNat)).unit =
      u.unit := by
  simp [Word.unit]

/-- A clock is filled from index `pre.length` on. -/
theorem fill_spec {pre ws : List Word} (hw : Holds h w (pre ++ ws)) (hlen : us.length = ws.length)
    (hgid : ∀ u ∈ us, 0 < u.gid.toNat) :
    ∃ h' w' ws', fill h w pre.length us = some (h', w') ∧ Holds h' w' (pre ++ ws') ∧
      ws'.map Word.unit = us.map Word.unit ∧ Writes h w h' w' := by
  induction us generalizing h w pre ws with
  | nil =>
    obtain rfl := length_eq_zero_iff.1 hlen.symm
    exact ⟨h, w, [], rfl, hw, rfl, .refl h w⟩
  | cons u us ih =>
    obtain ⟨x, ws, rfl⟩ := exists_cons_of_length_eq_add_one hlen.symm
    obtain ⟨h₁, w₁, hset, hw₁, hwrites₁⟩ := modifyUnit_spec
      (f := fun x => (x.setGid (BitVec.ofInt 4 u.gid.toNat)).setClock
        (BitVec.ofInt 56 u.clock.toNat))
      hw (i := pre.length) (by simp) (by simp)
    rw [modify_append_cons] at hw₁
    have hassert : ((u.gid.toNat : Int) < 16 ∧ 0 < (u.gid.toNat : Int)) :=
      ⟨by omega, by have := hgid u (by simp); omega⟩
    rw [append_cons] at hw₁
    obtain ⟨h', w', ws', hfill, hw', hunits, hwrites⟩ := ih hw₁ (by simpa using hlen)
      fun v hv => hgid v (by simp [hv])
    refine ⟨h', w', _ :: ws', ?_, by rw [append_cons]; exact hw', ?_, hwrites₁.trans hwrites⟩
    · rw [fill, setClockUnitByIndex, setUnit, if_pos hassert, hset]
      rw [length_append] at hfill
      exact hfill
    · rw [map_cons, map_cons, unit_put, hunits]

/-- `cleanVectorClock` from index `pre.length` on. -/
theorem cleanVectorClock_spec {pre ws : List Word} (hw : Holds h w (pre ++ ws)) :
    ∃ h' w', cleanVectorClock h w pre.length ws.length = some (h', w') ∧
      Holds h' w' (pre ++ ws.map fun u => u.setClock 0) ∧ Writes h w h' w' := by
  induction ws generalizing h w pre with
  | nil => exact ⟨h, w, rfl, hw, .refl h w⟩
  | cons x ws ih =>
    obtain ⟨h₁, w₁, hset, hw₁, hwrites₁⟩ := modifyUnit_spec (f := fun u => u.setClock 0) hw
      (i := pre.length) (by simp) (by simp)
    rw [modify_append_cons, append_cons] at hw₁
    obtain ⟨h', w', hclean, hw', hwrites⟩ := ih hw₁
    refine ⟨h', w', ?_, ?_, hwrites₁.trans hwrites⟩
    · rw [length_cons, cleanVectorClock, hset]
      rw [length_append] at hclean
      exact hclean
    · rw [map_cons, append_cons]
      exact hw'

/-! ## New clocks -/

/-- From `h` to `h'`, `w'` only the block `b` was taken into use, for `w'`. -/
structure Allocates (h : Heap) (b : Block) (h' : Heap) (w' : Word) : Prop where
  frame : ∀ a, a ≠ b.addr → h' a = h a
  owner : ∀ a, Owns w' a → a = b.addr

theorem Allocates.writes {h h' h'' : Heap} {b : Block} {w'' : Word} (ha : Allocates h b h' w')
    (hw : Writes h' w' h'' w'') : Allocates h b h'' w'' where
  frame a hne := (hw.frame a fun hown => hne (ha.owner a hown)).trans (ha.frame a hne)
  owner a hown := ha.owner a ((hw.owns_iff a).1 hown)

/-- Words that own no block in the way are not affected. -/
theorem Holds.allocates {h h' : Heap} {b : Block} (hw : Holds h w us) (hfresh : Fresh h b)
    (ha : Allocates h b h' w') : Holds h' w us := by
  apply hw.congr
  intro a hown
  apply ha.frame
  rintro rfl
  exact hw.allocated hown hfresh.2

theorem toNat_ofNat_four {n : Nat} (hn : n < 16) : (BitVec.ofNat 4 n).toNat = n := by
  rw [BitVec.toNat_ofNat]
  omega

theorem newVectorClock_spec (h : Heap) (b : Block) {n : Nat} (hn : n < 16) :
    ∃ h' w' us, newVectorClock h b n = some (h', w') ∧ us.length = n ∧ Holds h' w' us ∧
      Allocates h b h' w' := by
  rw [newVectorClock]
  by_cases hzero : n = 0
  · subst hzero
    refine ⟨h, 0, [], rfl, rfl, ⟨rfl, trivial⟩, fun _ _ => rfl, ?_⟩
    rintro a ⟨hlen, -⟩
    exact absurd hlen (by decide)
  · rw [if_neg hzero]
    by_cases hone : 1 < n
    · rw [if_pos hone, setLen, if_pos ⟨hn, by omega⟩]
      refine ⟨_, _, (List.range n).map b.junk, rfl, by simp, ?_, ?_, ?_⟩
      · apply holds_of_block
        · rw [Word.setLen_len, toNat_ofNat_four hn]
          simp
        · rw [length_map, length_range]
          exact hone
        · rw [Word.setLen_pvc, Word.setPvc_pvc]
          exact update_self ..
      · intro a hne
        exact update_of_ne hne _ _
      · rintro a ⟨-, rfl⟩
        rw [Word.setLen_pvc, Word.setPvc_pvc]
    · obtain rfl : n = 1 := by omega
      refine ⟨h, Word.setLen 0 1, [Word.setLen 0 1], rfl, rfl, ⟨?_, rfl⟩, fun _ _ => rfl, ?_⟩
      · rw [Word.setLen_len]
        rfl
      · rintro a ⟨hlen, -⟩
        rw [Word.setLen_len] at hlen
        exact absurd hlen (by decide)

/-- A new clock that is filled with `us`. -/
theorem newVectorClock_fill_spec (h : Heap) (b : Block) (us : List Word) (hn : us.length < 16)
    (hgid : ∀ u ∈ us, 0 < u.gid.toNat) :
    ∃ h₁ w₁ h' w' ws, newVectorClock h b us.length = some (h₁, w₁) ∧ Allocates h b h₁ w₁ ∧
      w₁.len.toNat = us.length ∧ fill h₁ w₁ 0 us = some (h', w') ∧ Holds h' w' ws ∧
        ws.map Word.unit = us.map Word.unit ∧ Writes h₁ w₁ h' w' := by
  obtain ⟨h₁, w₁, junk, hnew, hjunk, hw₁, halloc⟩ := newVectorClock_spec h b hn
  obtain ⟨h', w', ws, hfill, hw', hunits, hwrites⟩ :=
    @fill_spec h₁ us w₁ [] junk hw₁ hjunk.symm hgid
  exact ⟨h₁, w₁, h', w', ws, hnew, halloc, hw₁.1.trans hjunk, hfill, hw', hunits, hwrites⟩

/-! ## Sorting and freeing -/

theorem map_unit_sort (us : List Word) :
    (sort (fun u => u.gid.toNat) us).map Word.unit = Clock.sortVectorClock (us.map Word.unit) :=
  map_insertionSort _ _ _ _ fun _ _ _ _ => Iff.rfl

theorem sortVectorClock_spec (hw : Holds h w us) :
    ∃ h', sortVectorClock h w = some h' ∧ Holds h' w (sort (fun u => u.gid.toNat) us) ∧
      ∀ a, ¬ Owns w a → h' a = h a := by
  rw [sortVectorClock]
  by_cases htwo : 2 ≤ us.length
  · rw [if_neg (by rw [len_eq_one_iff, hw.1]; omega), if_neg (by rw [len_eq_zero_iff, hw.1]; omega),
      hw.block htwo]
    refine ⟨_, rfl, ?_, ?_⟩
    · have hperm : (sort (fun u : Word => u.gid.toNat) us).length = us.length :=
        (sort_perm us).length_eq
      apply holds_of_block
      · rw [hw.1, hperm]
      · rw [hperm]
        exact htwo
      · rw [update_self, hw.1, take_length, drop_length, append_nil]
    · intro a ha
      apply update_of_ne
      rintro rfl
      exact ha ⟨hw.1 ▸ htwo, rfl⟩
  · have hsame : sort (fun u : Word => u.gid.toNat) us = us := by
      rcases us with _ | ⟨u, _ | ⟨v, us⟩⟩
      · rfl
      · rfl
      · exact absurd (by simp) htwo
    refine ⟨h, ?_, hsame.symm ▸ hw, fun _ _ => rfl⟩
    split
    · rfl
    · rename_i hone
      rw [len_eq_one_iff, hw.1] at hone
      rw [if_pos (by rw [len_eq_zero_iff, hw.1]; omega)]

theorem freeVectorClock_spec (hw : Holds h w us) :
    ∃ h', freeVectorClock h w = some h' ∧ ∀ a, ¬ Owns w a → h' a = h a := by
  rw [freeVectorClock]
  split
  · exact ⟨h, rfl, fun _ _ => rfl⟩
  · rename_i hlen
    rw [hw.block (by rw [← hw.1]; omega)]
    refine ⟨_, rfl, ?_⟩
    intro a ha
    apply update_of_ne
    rintro rfl
    exact ha ⟨by omega, rfl⟩

end XredisCrdt.Clock.Packed
