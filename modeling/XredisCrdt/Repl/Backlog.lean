import XredisCrdt.Lib.RingBuffer
import XredisCrdt.Util
import Mathlib.Tactic.Set

/-!
# The replication backlog

The node keeps two replication histories with the same code: `server` for its
own slaves and `crdtServer` for its peers. `ReplServer` is the part of
`struct redisServer` that both use. The backlog memory is a function on cell
numbers; `none` is the NULL pointer.

`BacklogInv srv hist` says that the ring of `srv` holds the bytes that the
history `hist` has at the retained offsets; every operation of this file keeps it.
-/

namespace XredisCrdt.Repl

open Lib.RingBuffer List

/-- The replication fields of `struct redisServer`. -/
structure ReplServer where
  replid : Bytes
  replid2 : Bytes
  masterReplOffset : Int
  secondReplidOffset : Int
  replBacklog : Option (Nat → UInt8)
  replBacklogSize : Nat
  replBacklogHistlen : Nat
  replBacklogIdx : Nat
  replBacklogOff : Int

/-- `CONFIG_REPL_BACKLOG_MIN_SIZE`. -/
def configReplBacklogMinSize : Nat := 1024 * 16

/-- The content of freshly allocated memory; no operation reads it before it is
written. -/
def zmalloc : Nat → UInt8 := fun _ => 0

/-! ## Creating, resizing and freeing -/

/-- Allocate the memory and start with an empty window behind the last byte of
the history. -/
def ReplServer.emptyBacklog (srv : ReplServer) : ReplServer :=
  { srv with
    replBacklog := some zmalloc
    replBacklogHistlen := 0
    replBacklogIdx := 0
    replBacklogOff := srv.masterReplOffset + 1 }

/-- `createServerReplicationBacklog` under the test that its two callers make. -/
def createServerReplicationBacklog (srv : ReplServer) : ReplServer :=
  if srv.replBacklog.isNone then srv.emptyBacklog else srv

def resizeReplicationBacklog (srv : ReplServer) (newsize : Nat) : ReplServer :=
  let newsize := if newsize < configReplBacklogMinSize then configReplBacklogMinSize else newsize
  if srv.replBacklogSize = newsize then srv
  else
    let srv := { srv with replBacklogSize := newsize }
    if srv.replBacklog.isSome then srv.emptyBacklog else srv

/-- Only the pointer is reset: offset, ids and the other backlog fields stay. -/
def freeReplicationBacklog (srv : ReplServer) : ReplServer :=
  { srv with replBacklog := none }

/-! ## Feeding -/

/-- The copy loop of `feedReplicationBacklog`: memory, index and history length
after `p`. Every round copies at least one byte as long as the index is inside
the ring, so `p.length` rounds are enough. -/
def feedLoop (size : Nat) :
    Nat → (Nat → UInt8) → Nat → Nat → Bytes → (Nat → UInt8) × Nat × Nat
  | 0, mem, idx, histlen, _ => (mem, idx, histlen)
  | fuel + 1, mem, idx, histlen, p =>
    if p.length = 0 then (mem, idx, histlen)
    else
      let thislen := if size - idx > p.length then p.length else size - idx
      feedLoop size fuel (blit mem idx (p.take thislen)) (bump size idx thislen)
        (histlen + thislen) (p.drop thislen)

/-- `feedReplicationBacklog` on an allocated backlog. -/
def feedAllocated (srv : ReplServer) (mem : Nat → UInt8) (p : Bytes) : ReplServer :=
  let (mem, idx, histlen) :=
    feedLoop srv.replBacklogSize p.length mem srv.replBacklogIdx srv.replBacklogHistlen p
  let histlen := if histlen > srv.replBacklogSize then srv.replBacklogSize else histlen
  { srv with
    masterReplOffset := srv.masterReplOffset + p.length
    replBacklog := some mem
    replBacklogIdx := idx
    replBacklogHistlen := histlen
    replBacklogOff := srv.masterReplOffset + p.length - histlen + 1 }

/-- `feedReplicationBacklog`; undefined where the C code writes through NULL. -/
def feedReplicationBacklog (srv : ReplServer) (p : Bytes) : Option ReplServer :=
  srv.replBacklog.map fun mem => feedAllocated srv mem p

/-- The callers that test `srv->repl_backlog` first. -/
def feedIfBacklog (srv : ReplServer) (p : Bytes) : ReplServer :=
  (feedReplicationBacklog srv p).getD srv

/-! ## Reading -/

/-- The cell from which `addReplyReplicationBacklog` reads the byte at `offset`. -/
def backlogCell (srv : ReplServer) (offset : Int) : Int :=
  let j := ((srv.replBacklogIdx : Int) +
    ((srv.replBacklogSize : Int) - srv.replBacklogHistlen)).tmod srv.replBacklogSize
  (j + (offset - srv.replBacklogOff)).tmod srv.replBacklogSize

/-- The copy loop of `addReplyReplicationBacklog`, from cell `j` on; undefined
when it is not finished after `fuel` rounds. -/
def addReplyLoop (mem : Nat → UInt8) (size : Int) : Nat → Int → Int → Option Bytes
  | fuel, j, len =>
    if len = 0 then some []
    else match fuel with
      | 0 => none
      | fuel + 1 =>
        let thislen := if size - j < len then size - j else len
        (addReplyLoop mem size fuel 0 (len - thislen)).map
          (slice mem j.toNat thislen.toNat ++ ·)

/-- `addReplyReplicationBacklog`: the bytes appended to the reply of the slave. -/
def addReplyReplicationBacklog (srv : ReplServer) (fuel : Nat) (offset : Int) : Option Bytes :=
  if srv.replBacklogHistlen = 0 then some []
  else
    let skip := offset - srv.replBacklogOff
    srv.replBacklog.bind fun mem =>
      addReplyLoop mem srv.replBacklogSize fuel (backlogCell srv offset)
        (srv.replBacklogHistlen - skip)

/-! ## Histories -/

/-- A history assigns a byte to every offset; `extend hist m p` continues it
behind offset `m` by `p`. -/
def extend (hist : Int → UInt8) (m : Int) (p : Bytes) : Int → UInt8 :=
  fun o => if m < o then (p[(o - m - 1).toNat]?).getD (hist o) else hist o

/-- The `n` bytes of a history from offset `o` on. -/
def window (hist : Int → UInt8) (o : Int) (n : Nat) : Bytes :=
  (List.range n).map fun k : Nat => hist (o + k)

/-- The retained part of the backlog of `srv` is the end of the history `hist`. -/
structure BacklogInv (srv : ReplServer) (hist : Int → UInt8) (mem : Nat → UInt8) : Prop where
  idx_lt : srv.replBacklogIdx < srv.replBacklogSize
  histlen_le : srv.replBacklogHistlen ≤ srv.replBacklogSize
  off_eq : srv.replBacklogOff + srv.replBacklogHistlen = srv.masterReplOffset + 1
  bytes : ∀ d : Nat, 0 < d → d ≤ srv.replBacklogHistlen →
    back srv.replBacklogSize srv.replBacklogIdx mem d = hist (srv.masterReplOffset + 1 - d)

variable {hist : Int → UInt8} {mem : Nat → UInt8} {srv : ReplServer}

/-- A chunk of any length, longer than the ring included, leaves what writing it
byte by byte would leave. -/
theorem feedLoop_spec {size : Nat} : ∀ (fuel : Nat) (mem : Nat → UInt8) (idx histlen : Nat)
    (p : Bytes), idx < size → p.length ≤ fuel →
    let r := feedLoop size fuel mem idx histlen p
    r.2.1 < size ∧ r.2.2 = histlen + p.length ∧
      ∀ d, 0 < d → d ≤ size → back size r.2.1 r.1 d = pushed p (back size idx mem) d := by
  intro fuel
  induction fuel with
  | zero =>
    intro mem idx histlen p hidx hp
    obtain rfl : p = [] := length_eq_zero_iff.mp (by omega)
    exact ⟨hidx, rfl, fun d _ _ => rfl⟩
  | succ fuel ih =>
    intro mem idx histlen p hidx hp
    by_cases h0 : p.length = 0
    · obtain rfl : p = [] := length_eq_zero_iff.mp h0
      exact ⟨hidx, rfl, fun d _ _ => rfl⟩
    · -- one round: the piece `p.take t` goes to the cells from `idx` on
      set t := if size - idx > p.length then p.length else size - idx with ht
      have htpos : 0 < t ∧ t ≤ p.length ∧ t ≤ size - idx := by
        rw [ht]
        split <;> omega
      have hlen : (p.take t).length = t := length_take_of_le htpos.2.1
      have hloop : feedLoop size (fuel + 1) mem idx histlen p =
          feedLoop size fuel (blit mem idx (p.take t)) (bump size idx t) (histlen + t)
            (p.drop t) := by
        rw [feedLoop, if_neg h0]
      obtain ⟨hidx', hhist', hback'⟩ := ih (blit mem idx (p.take t)) (bump size idx t)
        (histlen + t) (p.drop t) (bump_lt hidx htpos.2.2) (by rw [length_drop]; omega)
      rw [length_drop] at hhist'
      simp only [hloop]
      refine ⟨hidx', by rw [hhist']; omega, fun d hd hds => ?_⟩
      calc back size _ _ d
          = pushed (p.drop t) (back size (bump size idx t) (blit mem idx (p.take t))) d :=
            hback' d hd hds
        _ = pushed (p.drop t) (pushed (p.take t) (back size idx mem)) d := by
            refine pushed_congr hd fun e he hed => ?_
            have := back_blit mem (p.take t) hidx (by rw [hlen]; exact htpos.2.2)
              he (Nat.le_trans hed hds)
            rwa [hlen] at this
        _ = pushed p (back size idx mem) d := by
            rw [← pushed_append hd, take_append_drop]

/-- Read from its end, a continued history is the ring view of the old one after
the same bytes. -/
theorem extend_back (hist : Int → UInt8) (m : Int) (p : Bytes) {d : Nat} (hd : 0 < d) :
    extend hist m p (m + p.length + 1 - d) = pushed p (fun e => hist (m + 1 - e)) d := by
  by_cases h : d ≤ p.length
  · have hidx : (m + p.length + 1 - d - m - 1).toNat = p.length - d := by omega
    rw [pushed_of_le hd h, extend, if_pos (by omega), hidx,
      getElem?_eq_getElem (by omega), Option.getD_some]
  · rw [pushed_of_lt (by omega), extend, if_neg (by omega)]
    congr 1
    omega

theorem feedAllocated_inv (h : BacklogInv srv hist mem) (p : Bytes) :
    ∃ mem', (feedAllocated srv mem p).replBacklog = some mem' ∧
      BacklogInv (feedAllocated srv mem p) (extend hist srv.masterReplOffset p) mem' := by
  obtain ⟨hidx, hhist, hback⟩ := feedLoop_spec p.length mem srv.replBacklogIdx
    srv.replBacklogHistlen p h.idx_lt (Nat.le_refl _)
  set r := feedLoop srv.replBacklogSize p.length mem srv.replBacklogIdx srv.replBacklogHistlen p
    with hr
  refine ⟨r.1, rfl, hidx, ?_, ?_, ?_⟩
  · show (if r.2.2 > srv.replBacklogSize then srv.replBacklogSize else r.2.2) ≤
      srv.replBacklogSize
    split <;> omega
  · show srv.masterReplOffset + p.length -
      ((if r.2.2 > srv.replBacklogSize then srv.replBacklogSize else r.2.2 : Nat) : Int) + 1 +
      ((if r.2.2 > srv.replBacklogSize then srv.replBacklogSize else r.2.2 : Nat) : Int) =
      srv.masterReplOffset + p.length + 1
    omega
  · intro d hd hle
    have hle' : d ≤ srv.replBacklogSize ∧ d ≤ r.2.2 := by
      change d ≤ (if r.2.2 > srv.replBacklogSize then srv.replBacklogSize else r.2.2) at hle
      split at hle <;> omega
    show back srv.replBacklogSize r.2.1 r.1 d =
      extend hist srv.masterReplOffset p (srv.masterReplOffset + p.length + 1 - d)
    rw [hback d hd hle'.1, extend_back _ _ _ hd]
    -- beyond the chunk the retained window already was that of the old history
    by_cases hp : d ≤ p.length
    · rw [pushed_of_le hd hp, pushed_of_le hd hp]
    · rw [pushed_of_lt (by omega), pushed_of_lt (by omega)]
      exact h.bytes _ (by omega) (by omega)

/-- The window never grows at its old end. -/
theorem feedAllocated_off_le (h : BacklogInv srv hist mem) (p : Bytes) :
    srv.replBacklogOff ≤ (feedAllocated srv mem p).replBacklogOff := by
  obtain ⟨_, hhist, _⟩ := feedLoop_spec p.length mem srv.replBacklogIdx
    srv.replBacklogHistlen p h.idx_lt (Nat.le_refl _)
  have hoff := h.off_eq
  simp only [feedAllocated]
  rw [hhist]
  split <;> omega

theorem emptyBacklog_inv (hsize : 0 < srv.replBacklogSize) (hist : Int → UInt8) :
    BacklogInv srv.emptyBacklog hist zmalloc := by
  refine ⟨hsize, Nat.zero_le _, by simp [ReplServer.emptyBacklog], ?_⟩
  intro d hd hle
  change d ≤ 0 at hle
  omega

/-- The invariant only looks at the history inside the retained window. -/
theorem BacklogInv.congr {hist hist' : Int → UInt8} (h : BacklogInv srv hist mem)
    (heq : ∀ o, srv.replBacklogOff ≤ o → o ≤ srv.masterReplOffset → hist' o = hist o) :
    BacklogInv srv hist' mem := by
  refine ⟨h.idx_lt, h.histlen_le, h.off_eq, ?_⟩
  intro d hd hle
  have hoff := h.off_eq
  rw [h.bytes d hd hle, heq _ (by omega) (by omega)]

/-! ## Reading back -/

/-- The index arithmetic of `addReplyReplicationBacklog` points at the element as
many writes back as the offset lies before the end of the history. -/
theorem backlogCell_eq (h : BacklogInv srv hist mem) {d : Nat} (hd : d ≤ srv.replBacklogHistlen) :
    backlogCell srv (srv.masterReplOffset + 1 - d) =
      backCell srv.replBacklogSize srv.replBacklogIdx d := by
  have hoff := h.off_eq
  have hle := h.histlen_le
  have hidx := h.idx_lt
  unfold backlogCell backCell
  rw [show srv.masterReplOffset + 1 - d - srv.replBacklogOff =
      ((srv.replBacklogHistlen - d : Nat) : Int) by omega,
    show (srv.replBacklogIdx : Int) + ((srv.replBacklogSize : Int) - srv.replBacklogHistlen) =
      ((srv.replBacklogIdx + (srv.replBacklogSize - srv.replBacklogHistlen) : Nat) : Int) by omega]
  simp only
  rw [← Int.ofNat_tmod, ← Int.natCast_add, ← Int.ofNat_tmod, Nat.mod_add_mod]
  congr 2
  omega

theorem addReplyLoop_zero (mem : Nat → UInt8) (size j : Int) (fuel : Nat) :
    addReplyLoop mem size fuel j 0 = some [] := by
  cases fuel <;> simp [addReplyLoop]

/-- The copy loop needs at most two rounds: one up to the end of the ring and one
from its first cell. -/
theorem addReplyLoop_eq {size idx n fuel : Nat} (hidx : idx < size) (hn : n ≤ size)
    (hfuel : 2 ≤ fuel) :
    addReplyLoop mem size fuel (backCell size idx n) n = some (recent size idx mem n) := by
  obtain ⟨fuel, rfl⟩ : ∃ k, fuel = k + 2 := ⟨fuel - 2, by omega⟩
  rcases Nat.eq_zero_or_pos n with rfl | hpos
  · exact addReplyLoop_zero ..
  have hcell := backCell_lt (d := n) hidx
  rw [addReplyLoop, if_neg (by omega)]
  by_cases hlong : size - backCell size idx n < n
  · -- the wanted bytes wrap: the first round stops at the end of the ring
    have hrest := backCell_rest hidx hn hlong
    have hfst := slice_eq_take_recent mem hidx hn (Nat.le_of_lt hlong) (Nat.le_refl _)
    have hsnd := slice_eq_take_recent mem (t := n - (size - backCell size idx n)) hidx
      (by omega : n - (size - backCell size idx n) ≤ size) (Nat.le_refl _) (by omega)
    have hround : addReplyLoop mem size (fuel + 1) 0
        ((n : Int) - ((size : Int) - (backCell size idx n : Nat))) =
        some (recent size idx mem (n - (size - backCell size idx n))) := by
      rw [show (n : Int) - ((size : Int) - (backCell size idx n : Nat)) =
        ((n - (size - backCell size idx n) : Nat) : Int) by omega]
      rw [addReplyLoop, if_neg (by omega)]
      simp only
      rw [if_neg (by omega), Int.sub_self]
      rw [hrest] at hsnd
      simp only [Int.toNat_zero, Int.toNat_natCast, hsnd]
      simp [addReplyLoop_zero, take_of_length_le]
    simp only
    rw [if_pos (by omega), hround]
    simp only [Int.toNat_natCast, Option.map_some]
    rw [show ((size : Int) - (backCell size idx n : Nat)).toNat =
      size - backCell size idx n by omega, hfst, ← recent_drop, take_append_drop]
  · -- one round is enough
    have hfst := slice_eq_take_recent mem hidx hn (Nat.le_refl n) (by omega)
    simp only
    rw [if_neg (by omega), Int.sub_self]
    simp only [Int.toNat_natCast, hfst]
    simp [addReplyLoop_zero, take_of_length_le]

theorem recent_eq_window (h : BacklogInv srv hist mem) {n : Nat} (hn : n ≤ srv.replBacklogHistlen) :
    recent srv.replBacklogSize srv.replBacklogIdx mem n =
      window hist (srv.masterReplOffset + 1 - n) n := by
  unfold recent window
  refine map_congr_left ?_
  intro k hk
  rw [mem_range] at hk
  rw [h.bytes _ (by omega) (by omega)]
  congr 1
  omega

/-- A read from any offset of the window, its end included, returns the history
from there on. -/
theorem addReplyReplicationBacklog_eq (h : BacklogInv srv hist mem)
    (hmem : srv.replBacklog = some mem) {fuel : Nat} (hfuel : 2 ≤ fuel) {offset : Int}
    (hlo : srv.replBacklogOff ≤ offset)
    (hhi : offset ≤ srv.replBacklogOff + srv.replBacklogHistlen) :
    addReplyReplicationBacklog srv fuel offset =
      some (window hist offset (srv.masterReplOffset + 1 - offset).toNat) := by
  have hoff := h.off_eq
  obtain ⟨n, hn⟩ : ∃ n : Nat, srv.masterReplOffset + 1 - offset = n :=
    ⟨(srv.masterReplOffset + 1 - offset).toNat, by omega⟩
  have hle : n ≤ srv.replBacklogHistlen := by omega
  have hoffset : offset = srv.masterReplOffset + 1 - n := by omega
  unfold addReplyReplicationBacklog
  split
  · obtain rfl : n = 0 := by omega
    rw [hn]
    rfl
  · rw [hmem, hn, Option.bind_some, hoffset, backlogCell_eq h hle,
      show (srv.replBacklogHistlen : Int) - (srv.masterReplOffset + 1 - n - srv.replBacklogOff) =
        n by omega,
      addReplyLoop_eq h.idx_lt (Nat.le_trans hle h.histlen_le) hfuel, recent_eq_window h hle,
      Int.toNat_natCast]

end XredisCrdt.Repl
