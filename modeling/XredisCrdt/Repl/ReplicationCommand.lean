import XredisCrdt.Repl.Backlog

/-!
# `crdt.replication`

The command replies with bytes of a backlog, by the offset of the first one and their number. It
compares the offset with the write index of the ring, which has nothing to do with it, and no
other test is made: a read can start before the ring or go around it more than once.
-/

namespace XredisCrdt.Repl

open Lib.RingBuffer

/-- A value of `long long`. -/
def InLongLong (v : Int) : Prop := -(2 ^ 63) ≤ v ∧ v < 2 ^ 63

instance (v : Int) : Decidable (InLongLong v) := inferInstanceAs (Decidable (_ ∧ _))

/-- Where the command has no defined behaviour; `running` is a loop that has not come to its
end. -/
inductive ReadFault
  | overflow
  | outside
  | running
  deriving DecidableEq, Repr

inductive ReplicationReply
  | nullbulk
  | bulk (bytes : Bytes)
  | error (text : Bytes)
  deriving DecidableEq, Repr

/-- `sdscatlen(s, srv->repl_backlog + j, n)`. -/
def readCells (mem : Nat → UInt8) (size : Nat) (j n : Int) : Except ReadFault Bytes :=
  if 0 ≤ j ∧ 0 ≤ n ∧ j + n ≤ size then .ok (slice mem j.toNat n.toNat) else .error .outside

/-- The copy loop of `crdtReplicationCommand`, from cell `j` on. -/
def replicationLoop (mem : Nat → UInt8) (size : Nat) : Nat → Int → Int → Except ReadFault Bytes
  | fuel, j, len =>
    if len = 0 then .ok []
    else match fuel with
      | 0 => .error .running
      | fuel + 1 =>
        let thislen := if (size : Int) - j < len then (size : Int) - j else len
        (readCells mem size j thislen).bind fun part =>
          (replicationLoop mem size fuel 0 (len - thislen)).map (part ++ ·)

/-- The sums that lead to the cell of an offset. -/
def NoOverflow (srv : ReplServer) (start : Int) : Prop :=
  let first := (srv.replBacklogIdx : Int) + ((srv.replBacklogSize : Int) - srv.replBacklogHistlen)
  InLongLong (start - srv.replBacklogOff) ∧ InLongLong first ∧
    InLongLong (first.tmod srv.replBacklogSize + (start - srv.replBacklogOff))

instance (srv : ReplServer) (start : Int) : Decidable (NoOverflow srv start) :=
  inferInstanceAs (Decidable (_ ∧ _ ∧ _))

/-- `crdtReplicationCommand` for one server and two numbers. Every round of the loop inside the
ring copies a byte, so `len` rounds are enough. -/
def readBacklog (srv : ReplServer) (mem : Nat → UInt8) (start len : Int) :
    Except ReadFault ReplicationReply :=
  if srv.replBacklogIdx < start then .ok .nullbulk
  else if NoOverflow srv start then
    (replicationLoop mem srv.replBacklogSize len.toNat.succ (backlogCell srv start) len).map .bulk
  else .error .overflow

/-- The server that the first argument names. -/
def replicationSource (server crdtServer : ReplServer) (which : Bytes) : ReplServer :=
  if strcaseeq which (ascii "master") then server else crdtServer

def crdtReplicationCommand (server crdtServer : ReplServer) (which startText lenText : Bytes) :
    Except ReadFault ReplicationReply :=
  let srv := replicationSource server crdtServer which
  match srv.replBacklog with
  | none => .ok .nullbulk
  | some mem =>
    match string2ll startText, string2ll lenText with
    | some start, some len => readBacklog srv mem start len
    | _, _ => .ok (.error (ascii "value is not an integer or out of range"))

/-! ## The loop -/

theorem replicationLoop_zero (mem : Nat → UInt8) (size fuel : Nat) (j : Int) :
    replicationLoop mem size fuel j 0 = .ok [] := by
  cases fuel with
  | zero => rw [replicationLoop, if_pos rfl]
  | succ fuel => rw [replicationLoop, if_pos rfl]

/-- One round, which copies up to the end of the ring or all that is left. -/
theorem replicationLoop_round (mem : Nat → UInt8) (size fuel : Nat) {j len t : Int} (hlen : len ≠ 0)
    (hthis : t = if (size : Int) - j < len then (size : Int) - j else len) :
    replicationLoop mem size (fuel + 1) j len = (readCells mem size j t).bind fun part =>
        (replicationLoop mem size fuel 0 (len - t)).map (part ++ ·) := by
  rw [replicationLoop, if_neg hlen, hthis]

/-- The loop ends, whatever it is asked for. -/
theorem replicationLoop_ne_running (mem : Nat → UInt8) {size : Nat} (hsize : 0 < size)
    (fuel : Nat) :
    ∀ (j len : Int), j < size → len.toNat < fuel →
      replicationLoop mem size fuel j len ≠ .error .running := by
  induction fuel with
  | zero =>
    intro j len _ hfuel
    omega
  | succ fuel ih =>
    intro j len hj hfuel hrun
    by_cases h0 : len = 0
    · rw [h0, replicationLoop_zero] at hrun
      cases hrun
    · obtain ⟨thislen, hthis⟩ : ∃ t, t = if (size : Int) - j < len then (size : Int) - j else len :=
        ⟨_, rfl⟩
      rw [replicationLoop_round mem size fuel h0 hthis, readCells] at hrun
      by_cases hin : 0 ≤ j ∧ 0 ≤ thislen ∧ j + thislen ≤ size
      swap
      · rw [if_neg hin] at hrun
        cases hrun
      rw [if_pos hin] at hrun
      -- the round has copied something, so less is left to copy
      have hpos : 0 < thislen ∧ 0 < len := by
        split_ifs at hthis with hlt
        · omega
        · omega
      have hrest := ih 0 (len - thislen) (by omega) (by omega)
      cases hloop : replicationLoop mem size fuel 0 (len - thislen) with
      | ok bytes =>
        simp only [Except.bind, hloop, Except.map] at hrun
        cases hrun
      | error e =>
        rw [hloop] at hrest
        simp only [Except.bind, hloop, Except.map] at hrun
        exact hrest hrun

/-- The command comes to its end for every state and every two numbers. -/
theorem readBacklog_ne_running {srv : ReplServer} (hsize : 0 < srv.replBacklogSize)
    (mem : Nat → UInt8) (start len : Int) : readBacklog srv mem start len ≠ .error .running := by
  have hcell : backlogCell srv start < srv.replBacklogSize := Int.tmod_lt_of_pos _ (by omega)
  have hloop := replicationLoop_ne_running mem hsize len.toNat.succ (backlogCell srv start) len
    hcell (Nat.lt_succ_self _)
  unfold readBacklog
  split_ifs
  · intro h
    cases h
  · intro h
    cases hres : replicationLoop mem srv.replBacklogSize len.toNat.succ
      (backlogCell srv start) len with
    | ok bytes =>
      rw [hres] at h
      cases h
    | error e =>
      rw [hres] at h hloop
      exact hloop (congrArg Except.error (Except.error.inj h))
  · intro h
    cases h

/-- A part of what was last written is read in one or two rounds. -/
theorem replicationLoop_recent {size idx n len fuel : Nat} {mem : Nat → UInt8} (hidx : idx < size)
    (hn : n ≤ size) (hlen : len ≤ n) (hfuel : len < fuel) :
    replicationLoop mem size fuel (backCell size idx n) len =
      .ok ((recent size idx mem n).take len) := by
  rcases Nat.eq_zero_or_pos len with rfl | hpos
  · exact replicationLoop_zero mem size fuel _
  obtain ⟨fuel, rfl⟩ : ∃ k, fuel = k + 2 := ⟨fuel - 2, by omega⟩
  have hcell := backCell_lt (d := n) hidx
  by_cases hlong : size - backCell size idx n < len
  · -- the wanted bytes wrap: the first round stops at the end of the ring
    obtain ⟨t, ht⟩ : ∃ t, t = size - backCell size idx n := ⟨_, rfl⟩
    have hrest := backCell_rest hidx hn (Nat.lt_of_lt_of_le hlong hlen)
    have hfst := slice_eq_take_recent mem (t := t) hidx hn (by omega) (by omega)
    have hsnd :=
      slice_eq_take_recent mem (t := len - t) hidx (show n - t ≤ size by omega) (by omega)
      (by rw [ht, hrest]; omega)
    rw [ht, hrest, ← ht, ← recent_drop] at hsnd
    have hleft : (len : Int) - t = ((len - t : Nat) : Int) := by omega
    rw [replicationLoop_round mem size (fuel + 1) (t := t) (by omega)
      (by rw [if_pos (by omega)]; omega),
      hleft, replicationLoop_round mem size fuel (t := (len - t : Nat)) (by omega)
        (by rw [if_neg (by omega)]),
      Int.sub_self, replicationLoop_zero, readCells, if_pos (by omega), readCells,
      if_pos (by omega)]
    show Except.ok (slice mem (backCell size idx n) t ++ (slice mem 0 (len - t) ++ [])) = _
    rw [List.append_nil, hfst, hsnd, ← List.take_add, Nat.add_sub_cancel' (by omega)]
  · -- one round is enough
    have hfst := slice_eq_take_recent mem hidx hn hlen (by omega)
    rw [replicationLoop_round mem size (fuel + 1) (t := len) (by omega) (by rw [if_neg (by omega)]),
      Int.sub_self, replicationLoop_zero, readCells, if_pos (by omega)]
    show Except.ok (slice mem (backCell size idx n) len ++ []) = _
    rw [List.append_nil, hfst]

/-! ## Which reads are right -/

/-- The backlogs that a server gets by creating one and feeding it, each with the history that was
fed. -/
inductive Fed : ReplServer → (Int → UInt8) → Prop
  | created (srv : ReplServer) (hist : Int → UInt8) :
    0 < srv.replBacklogSize → Fed srv.emptyBacklog hist
  | feed {srv : ReplServer} {hist : Int → UInt8} (p : Bytes) :
    Fed srv hist → Fed (feedIfBacklog srv p) (extend hist srv.masterReplOffset p)

theorem Fed.inv {srv : ReplServer} {hist : Int → UInt8} (h : Fed srv hist) :
    ∃ mem, srv.replBacklog = some mem ∧ BacklogInv srv hist mem := by
  induction h with
  | created srv hist hsize => exact ⟨zmalloc, rfl, emptyBacklog_inv hsize hist⟩
  | feed p _ ih =>
    obtain ⟨mem, hmem, hinv⟩ := ih
    unfold feedIfBacklog feedReplicationBacklog
    rw [hmem, Option.map_some, Option.getD_some]
    exact feedAllocated_inv hinv p

/-- All offsets of the range lie in the window. -/
def Retained (srv : ReplServer) (start len : Int) : Prop :=
  0 ≤ len ∧ ∀ o, start ≤ o → o < start + len →
    srv.replBacklogOff ≤ o ∧ o < srv.replBacklogOff + srv.replBacklogHistlen

/-- A reply with the bytes of the range if they are retained, and the null reply if not. -/
def RepliesRetained (srv : ReplServer) (hist : Int → UInt8) (start len : Int) :
    Except ReadFault ReplicationReply → Prop
  | .ok .nullbulk => ¬ Retained srv start len
  | .ok (.bulk bytes) => Retained srv start len ∧ bytes = window hist start len.toNat
  | _ => False

/-- The test against the write index happens to be right. -/
def ReadableWhen (srv : ReplServer) (start len : Int) : Prop :=
  if srv.replBacklogIdx < start then ¬ Retained srv start len
  else Retained srv start len ∧ NoOverflow srv start

theorem window_take (hist : Int → UInt8) (o : Int) {n len : Nat} (h : len ≤ n) :
    (window hist o n).take len = window hist o len := by
  unfold window
  rw [← List.map_take, List.take_range, Nat.min_eq_left h]

/-- A retained range is read from its cells. -/
theorem replicationLoop_window {srv : ReplServer} {hist : Int → UInt8} {mem : Nat → UInt8}
    (h : BacklogInv srv hist mem) {start len : Int} (hret : Retained srv start len) :
    replicationLoop mem srv.replBacklogSize len.toNat.succ (backlogCell srv start) len =
      .ok (window hist start len.toNat) := by
  obtain ⟨hnonneg, hin⟩ := hret
  rcases Int.lt_or_eq_of_le hnonneg with hpos | rfl
  · have hoff := h.off_eq
    have hfirst := hin start (Int.le_refl _) (by omega)
    have hlast := hin (start + len - 1) (by omega) (by omega)
    obtain ⟨n, hn⟩ : ∃ n : Nat, start = srv.masterReplOffset + 1 - n :=
      ⟨(srv.masterReplOffset + 1 - start).toNat, by omega⟩
    have hle := h.histlen_le
    have hloop : replicationLoop mem srv.replBacklogSize len.toNat.succ
        (backCell srv.replBacklogSize srv.replBacklogIdx n) len.toNat =
        .ok ((recent srv.replBacklogSize srv.replBacklogIdx mem n).take len.toNat) :=
      replicationLoop_recent h.idx_lt (by omega) (by omega) (Nat.lt_succ_self _)
    rw [Int.toNat_of_nonneg hnonneg] at hloop
    rw [hn, backlogCell_eq h (by omega), hloop, recent_eq_window h (by omega),
      window_take hist _ (by omega)]
  · rw [replicationLoop, if_pos rfl]
    rfl

theorem readBacklog_retained_iff {srv : ReplServer} {hist : Int → UInt8} {mem : Nat → UInt8}
    (h : BacklogInv srv hist mem) (start len : Int) :
    RepliesRetained srv hist start len (readBacklog srv mem start len) ↔
      ReadableWhen srv start len := by
  unfold readBacklog ReadableWhen
  by_cases hidx : (srv.replBacklogIdx : Int) < start
  · rw [if_pos hidx, if_pos hidx]
    rfl
  · rw [if_neg hidx, if_neg hidx]
    by_cases hover : NoOverflow srv start
    · rw [if_pos hover]
      constructor
      · intro hreply
        refine ⟨?_, hover⟩
        cases hloop : replicationLoop mem srv.replBacklogSize len.toNat.succ
          (backlogCell srv start) len with
        | ok bytes =>
          rw [hloop] at hreply
          exact hreply.1
        | error e =>
          rw [hloop] at hreply
          exact hreply.elim
      · rintro ⟨hret, -⟩
        rw [replicationLoop_window h hret]
        exact ⟨hret, rfl⟩
    · rw [if_neg hover]
      exact ⟨False.elim, fun hwhen => hover hwhen.2⟩

/-- The command replies with the retained history exactly where its test against the write index
agrees with what is retained. -/
theorem crdtReplication_retained_iff {server crdtServer : ReplServer} {hist : Int → UInt8}
    {which startText lenText : Bytes} {start len : Int}
    (h : Fed (replicationSource server crdtServer which) hist)
    (hstart : string2ll startText = some start) (hlen : string2ll lenText = some len) :
    RepliesRetained (replicationSource server crdtServer which) hist start len
        (crdtReplicationCommand server crdtServer which startText lenText) ↔
      ReadableWhen (replicationSource server crdtServer which) start len := by
  obtain ⟨mem, hmem, hinv⟩ := h.inv
  unfold crdtReplicationCommand
  simp only [hmem, hstart, hlen]
  exact readBacklog_retained_iff hinv start len

/-- A server with a ring of 16 bytes. -/
def smallRing : ReplServer where
  replid := []
  replid2 := []
  masterReplOffset := 0
  secondReplidOffset := -1
  replBacklog := none
  replBacklogSize := 16
  replBacklogHistlen := 0
  replBacklogIdx := 0
  replBacklogOff := 0

/-- Its ring after the bytes 1 to `n`. -/
def fedRing (n : Nat) : ReplServer :=
  feedIfBacklog smallRing.emptyBacklog ((List.range n).map fun k => UInt8.ofNat (k + 1))

/-- A read from the middle of a full ring goes round its end. -/
theorem readBacklog_ne_running_wrapped : ∃ mem, (fedRing 20).replBacklog = some mem ∧
    readBacklog (fedRing 20) mem 3 16 =
      .ok (.bulk [19, 20, 5, 6, 7, 8, 9, 10, 11, 12, 13, 14, 15, 16, 17, 18]) ∧
    readBacklog (fedRing 20) mem 3 16 ≠ .error .running :=
  ⟨_, rfl, by decide, readBacklog_ne_running (by decide) _ _ _⟩

def fedHistory (n : Nat) : Int → UInt8 :=
  extend (fun _ => 0) 0 ((List.range n).map fun k => UInt8.ofNat (k + 1))

theorem fed_fedRing (n : Nat) : Fed (fedRing n) (fedHistory n) :=
  .feed _ (.created smallRing _ (by decide))

/-- The window is 5 to 20 and the write index is 4: the bytes 5 and 6 are refused, and a read from
offset 0 starts before the ring. -/
theorem retained_read_refused : Fed (fedRing 20) (fedHistory 20) ∧
      crdtReplicationCommand (fedRing 20) (fedRing 20) (ascii "master") (ascii "5") (ascii "2") =
        .ok .nullbulk ∧
      Retained (fedRing 20) 5 2 ∧
      crdtReplicationCommand (fedRing 20) (fedRing 20) (ascii "master") (ascii "0") (ascii "1") =
        .error .outside := by
  refine ⟨fed_fedRing 20, by decide, ⟨by decide, fun o hlo hhi => ?_⟩, by decide⟩
  have hoff : (fedRing 20).replBacklogOff = 5 := by decide
  have hhist : (fedRing 20).replBacklogHistlen = 16 := by decide
  omega

/-- Before the ring has wrapped, an index is an offset. -/
theorem crdtReplication_retained_unwrapped :
    crdtReplicationCommand (fedRing 8) (fedRing 8) (ascii "master") (ascii "3") (ascii "2") =
        .ok (.bulk [3, 4]) ∧
      RepliesRetained (fedRing 8) (fedHistory 8) 3 2
        (crdtReplicationCommand (fedRing 8) (fedRing 8) (ascii "master") (ascii "3")
          (ascii "2")) := by
  have hwhen : ReadableWhen (fedRing 8) 3 2 := by
    have hoff : (fedRing 8).replBacklogOff = 1 := by decide
    have hhist : (fedRing 8).replBacklogHistlen = 8 := by decide
    unfold ReadableWhen
    rw [if_neg (by decide)]
    refine ⟨⟨by decide, fun o hlo hhi => ?_⟩, by decide⟩
    omega
  have hsource : replicationSource (fedRing 8) (fedRing 8) (ascii "master") = fedRing 8 :=
    if_pos (by decide)
  have hiff := @crdtReplication_retained_iff (fedRing 8) (fedRing 8) _ (ascii "master") (ascii "3")
    (ascii "2") 3 2 (fed_fedRing 8) (by decide) (by decide)
  rw [hsource] at hiff
  exact ⟨by decide, hiff.2 hwhen⟩

end XredisCrdt.Repl
