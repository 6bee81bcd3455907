import XredisCrdt.Clock.Lattice
import XredisCrdt.Lib.Stability
import XredisCrdt.Peer.Closed

/-!
# Collection of tombstones (`ctrip_crdt_gc.c`)

A tombstone may go once no write that was issued without knowledge of the delete can
arrive any more. The node goes by the clocks that its peers reported: `CRDT.OVC` in
the stream of a peer, and `CRDT.MERGE_END` of a full sync. `gcVectorClock` is the
minimum of these and of the own clock; it is also written by the merge commands, but
each collection computes it anew.

`GcWorld` is the node, and each peer with the stream of all it sent. The ghost fields
are the reports since the instance of the peer was made, the part of the stream that
was taken, and the gids that ever had an instance or stood in an `ack-vc`.

Which entries a cycle samples, and when it stops, is an argument; counters of hits and
misses are left out. The texts of clocks name no gid twice, see `parseClock`.
-/

namespace XredisCrdt.Peer

open Clock Function List Option VectorClock

/-! ## The module -/

/-- What collection asks of the CRDT module: `tombstoneMethod` says whether there are
methods for the object, and `gc` whether its clock is covered. -/
structure GcModule (Obj : Type) where
  tombstoneMethod : Obj → Bool
  clockOf : Obj → VectorClock
  gc : Obj → VectorClock → Bool
  gc_iff : ∀ t c, gc t c = true ↔ clockOf t ≤ c

/-! ## Collection -/

/-- The clock that collection uses for a gid: the null clock where there is no
instance. -/
def CrdtServer.peerClock (s : CrdtServer) (i : Fin 16) : VectorClock :=
  match s.crdtMasters i with
  | none => VectorClock.null
  | some p => p.vectorClock

/-- The loop of `getGcVectorClock`, over gids in any order. -/
def gcVectorClockOver (s : CrdtServer) (offline : Fin 16 → Bool) (gids : List (Fin 16)) :
    VectorClock :=
  gids.foldl
    (fun clock i =>
      if s.peerSet i && !offline i then clock.mergeMin (s.peerClock i) else clock)
    s.vectorClock

def getGcVectorClock (s : CrdtServer) (offline : Fin 16 → Bool) : VectorClock :=
  gcVectorClockOver s offline (List.finRange 16)

/-- A node and the `deleted_keys` of its databases; `loading` is `server.loading`. -/
structure GcNode (Obj : Type) where
  server : CrdtServer
  offlinePeerSet : Fin 16 → Bool
  loading : Bool
  deletedKeys : Nat → Bytes → Option Obj

variable {Obj : Type} (M : GcModule Obj)

namespace GcNode

def updateGcVectorClock (n : GcNode Obj) : GcNode Obj :=
  { n with server :=
    { n.server with gcVectorClock := getGcVectorClock n.server n.offlinePeerSet } }

/-- The tombstone of a key, put there or, with `none`, deleted. -/
def setTombstone (n : GcNode Obj) (db : Nat) (key : Bytes) (tombstone : Option Obj) : GcNode Obj :=
  { n with deletedKeys := fun d k =>
    if d = db ∧ k = key then tombstone else n.deletedKeys d k }

end GcNode

/-- `gcIfNeeded`, and whether it deleted the tombstone. -/
def gcIfNeeded (n : GcNode Obj) (db : Nat) (key : Bytes) : GcNode Obj × Bool :=
  match n.deletedKeys db key with
  | none => (n, false)
  | some tombstone =>
    if n.loading || n.server.loading then (n, false)
    else
      let n := n.updateGcVectorClock
      if M.tombstoneMethod tombstone && M.gc tombstone n.server.gcVectorClock then
        (n.setTombstone db key none, true)
      else (n, false)

/-- `activeGcCycleTryGc`, with the entry of the key; it goes by the `gcVectorClock` that
it finds. -/
def activeGcCycleTryGc (n : GcNode Obj) (db : Nat) (key : Bytes) : GcNode Obj × Bool :=
  match n.deletedKeys db key with
  | none => (n, false)
  | some tombstone =>
    if M.tombstoneMethod tombstone && M.gc tombstone n.server.gcVectorClock then
      (n.setTombstone db key none, true)
    else (n, false)

/-- `Gc`, with the entries that it samples; a fast cycle that returns early samples
none. -/
def gcCycle (n : GcNode Obj) (paused : Bool) (samples : List (Nat × Bytes)) : GcNode Obj :=
  if paused then n
  else
    samples.foldl (fun n sample => (activeGcCycleTryGc M n sample.1 sample.2).1)
      n.updateGcVectorClock

/-! ## Clocks that peers report -/

/-- `RM_UpdateOvc`. -/
def updateOvc (s : CrdtServer) (i : Fin 16) (vclock : VectorClock) : CrdtServer :=
  match s.crdtMasters i with
  | none => s
  | some p => s.setPeer i (some { p with vectorClock := p.vectorClock.merge vclock })

/-- `refreshVectorClock`, for the node: the gids of an `ack-vc` or `min-vc` are peers. -/
def refreshVectorClock (s : CrdtServer) (vclock : VectorClock) : CrdtServer :=
  ((List.finRange 16).filter fun i : Fin 16 => (vclock.listed i).isSome).foldl addPeerSet s

/-- A `CRDT.OVC` or a `CRDT.MERGE_END`. -/
inductive Report
  | ovc (vclock : VectorClock)
  | mergeEnd (vclock : VectorClock)

/-- The clock that stands after a report: the OVCs are joined, a full sync starts
anew. -/
def Report.apply (clock : VectorClock) : Report → VectorClock
  | .ovc vclock => clock.merge vclock
  | .mergeEnd vclock => vclock

/-- The clock that a peer reported; unknown is all zeros. -/
def reportedClock (reports : List Report) : VectorClock :=
  reports.foldl Report.apply VectorClock.null

theorem reportedClock_concat (reports : List Report) (r : Report) :
    reportedClock (reports ++ [r]) = r.apply (reportedClock reports) := by
  unfold reportedClock
  rw [foldl_append]
  rfl

/-! ## Runs -/

/-- What a peer puts into its stream, each with its clock of that time: its writes and
its `CRDT.OVC`s. `fullSync` marks the place of a snapshot. -/
inductive Sent
  | write
  | ovc
  | fullSync
  deriving DecidableEq, Repr

/-- The node among its peers. -/
structure GcWorld (Obj : Type) where
  node : GcNode Obj
  peers : Fin 16 → Lib.Outbox Sent VectorClock
  /-- How much of the stream of a peer has been delivered. -/
  read : Fin 16 → Nat
  /-- The reports since the instance of the peer was made. -/
  reports : Fin 16 → List Report
  /-- The gid had an instance at some time, or stood in an `ack-vc`. -/
  named : Fin 16 → Bool

inductive GcAct (Obj : Type)
  /-- The clock of a peer goes on. -/
  | peerClock (j : Fin 16) (clock : VectorClock)
  | peerSend (j : Fin 16) (body : Sent)
  /-- The message at `k` of the stream of a peer arrives, the next one or one that had
  been delivered before. -/
  | deliver (j : Fin 16) (k : Nat)
  /-- The `CRDT.MERGE_END` of the full sync at `k` of the stream. -/
  | mergeEnd (clientGid : Int) (qps : Nat) (argv : Argv) (k : Nat)
  /-- Any other step of the links, of `PEEROF`, of `CRDT.MERGE_START` or of the role. -/
  | server (a : ClosingAct)
  /-- A slave loads the RDB file of its master, which has got as far as `read` in the
  streams of the peers. -/
  | rdbLoad (uninitialized : Bytes) (file : List PeerAux) (vclock : VectorClock)
      (offline : Fin 16 → Bool) (deletedKeys : Nat → Bytes → Option Obj) (read : Fin 16 → Nat)
  | ackVc (vclock : VectorClock)
  /-- `setOfflineGid`, which also sets up `vectorClockCache`. -/
  | setOfflineGid (gids : Fin 16 → Bool) (cache : VectorClock)
  | serverLoading (loading : Bool)
  /-- What local writes and applied ones do to the own clock and to tombstones. -/
  | incrLocalVcUnit (delta : Int)
  | mergeVectorClock (gid : Nat) (vclock : VectorClock)
  | setTombstone (db : Nat) (key : Bytes) (tombstone : Option Obj)
  | gcIfNeeded (db : Nat) (key : Bytes)
  | gcCycle (paused : Bool) (samples : List (Nat × Bytes))

/-- The actions of the node's links that do not report a clock. -/
def ClosingAct.silent : ClosingAct → Bool
  | .mergeEnd .. | .rdbLoad .. => false
  | _ => true

namespace GcWorld

variable (w : GcWorld Obj)

/-- The node goes on in the state `s`. What a peer has reported is forgotten with its
instance, and a gid that has an instance is named. -/
def withServer (s : CrdtServer) (reports : Fin 16 → List Report) (read : Fin 16 → Nat) :
    GcWorld Obj :=
  { w with
    node := { w.node with server := s }
    read := read
    reports := fun j => if (s.crdtMasters j).isSome then reports j else []
    named := fun j => w.named j || (s.crdtMasters j).isSome }

/-- The node goes on in the state `s` that a report of `j` leaves; all up to position
`k` of the stream is delivered. -/
def reported (s : CrdtServer) (j : Fin 16) (r : Report) (k : Nat) : GcWorld Obj :=
  w.withServer s (update w.reports j (w.reports j ++ [r]))
    (update w.read j (max (w.read j) (k + 1)))

def deliver (j : Fin 16) (k : Nat) (m : Lib.Stamped Sent VectorClock) : GcWorld Obj :=
  match m.body with
  | .ovc => w.reported (updateOvc w.node.server j m.stamp) j (.ovc m.stamp) k
  | .write | .fullSync => { w with read := update w.read j (max (w.read j) (k + 1)) }

def next : GcAct Obj → Option (GcWorld Obj)
  | .peerClock j clock =>
    if h : (w.peers j).clock ≤ clock then
      some { w with peers := update w.peers j ((w.peers j).advance clock h) }
    else none
  | .peerSend j body => some { w with peers := update w.peers j ((w.peers j).send body) }
  | .deliver j k =>
    if k ≤ w.read j then (w.peers j).sent[k]?.map (w.deliver j k) else none
  | .mergeEnd clientGid qps argv k =>
    (namedSlot argv).bind fun j => (w.peers j).sent[k]?.bind fun m =>
      -- the peer sends its own gid, and its clock at the snapshot
      if 0 < j.val ∧ m.body = .fullSync ∧ clockArg argv = some m.stamp then
        (crdtMergeEndCommand clientGid qps w.node.server argv).state?.map fun s =>
          w.reported s j (.mergeEnd m.stamp) k
      else none
  | .server a =>
    if a.silent then (closingNext w.node.server a).map (w.withServer · w.reports w.read) else none
  | .rdbLoad uninitialized file vclock offline deletedKeys read =>
    if w.node.server.iAmMaster then none
    else
      (rdbLoadPeers uninitialized w.node.server file).map fun s =>
        { w.withServer (loadVclock s vclock) (fun _ => []) read with
          node := ⟨loadVclock s vclock, offline, w.node.loading, deletedKeys⟩ }
  | .ackVc vclock =>
    some { w with
      node := { w.node with server := refreshVectorClock w.node.server vclock }
      named := fun j => w.named j || (vclock.listed j).isSome }
  | .setOfflineGid gids cache =>
    some { w with node :=
      { w.node with
        server := { w.node.server with vectorClockCache := cache }
        offlinePeerSet := gids } }
  | .serverLoading loading => some { w with node := { w.node with loading := loading } }
  | .incrLocalVcUnit delta =>
    some (w.withServer (Peer.incrLocalVcUnit w.node.server delta) w.reports w.read)
  | .mergeVectorClock gid vclock =>
    some (w.withServer (Peer.mergeVectorClock w.node.server gid vclock) w.reports w.read)
  | .setTombstone db key tombstone => some { w with node := w.node.setTombstone db key tombstone }
  | .gcIfNeeded db key => some { w with node := (Peer.gcIfNeeded M w.node db key).1 }
  | .gcCycle paused samples => some { w with node := Peer.gcCycle M w.node paused samples }

end GcWorld

/-- Runs from the start of the process: the instances come from the configuration and
the RDB file, and no peer has reported anything. -/
def collecting : Lib.System (GcWorld Obj) (GcAct Obj) where
  init w :=
    (∀ j, w.reports j = []) ∧
    (∀ j, w.named j = (w.node.server.crdtMasters j).isSome) ∧
    ∀ j p, w.node.server.crdtMasters j = some p → p.vectorClock = VectorClock.null ∧
      (j.val = w.node.server.crdtGid ∨ w.node.server.peerSet j = true)
  next := GcWorld.next M

/-! ## The minimum over the peers -/

variable {c : VectorClock} {n' : GcNode Obj} {s : CrdtServer} {w : GcWorld Obj} (n : GcNode Obj)

theorem peerClock_congr {s' : CrdtServer} (h : s'.crdtMasters = s.crdtMasters) (i : Fin 16) :
    s'.peerClock i = s.peerClock i := by
  unfold CrdtServer.peerClock
  rw [h]

theorem peerClock_of_some {i : Fin 16} {p : PeerMaster} (h : s.crdtMasters i = some p) :
    s.peerClock i = p.vectorClock := by
  unfold CrdtServer.peerClock
  rw [h]

theorem peerClock_of_none {i : Fin 16} (h : s.crdtMasters i = none) :
    s.peerClock i = null := by
  unfold CrdtServer.peerClock
  rw [h]

/-- The loop: below the minimum is what is below the start and below every clock that
counts. -/
theorem le_foldl_mergeMin_iff {ι : Type} (counts : ι → Bool) (clock : ι → VectorClock)
    (l : List ι) (c start : VectorClock) :
    c ≤ l.foldl (fun acc i => if counts i then acc.mergeMin (clock i) else acc) start ↔
      c ≤ start ∧ ∀ i ∈ l, counts i = true → c ≤ clock i := by
  induction l generalizing start with
  | nil => simp
  | cons i l ih =>
    rw [foldl_cons, ih]
    cases hi : counts i with
    | false => simp [hi]
    | true =>
      simp only [if_true, le_mergeMin_iff, forall_mem_cons, hi, true_implies]
      exact and_assoc

theorem le_gcVectorClockOver_iff (s : CrdtServer) (offline : Fin 16 → Bool) {gids : List (Fin 16)}
    (hall : ∀ i, i ∈ gids) :
    c ≤ gcVectorClockOver s offline gids ↔ c ≤ s.vectorClock ∧
        ∀ i, s.peerSet i = true → offline i = false → c ≤ s.peerClock i := by
  unfold gcVectorClockOver
  rw [le_foldl_mergeMin_iff (fun i => s.peerSet i && !offline i) s.peerClock]
  simp [hall]

/-- A clock is covered if the own one covers it and so does that of every peer that is
not offline; one without instance covers only zeros. -/
theorem le_getGcVectorClock_iff {offline : Fin 16 → Bool} : c ≤ getGcVectorClock s offline ↔
      c ≤ s.vectorClock ∧ ∀ i, s.peerSet i = true → offline i = false → c ≤ s.peerClock i :=
  le_gcVectorClockOver_iff _ _ mem_finRange

/-- The times of a gid that the loop takes the minimum of. -/
def gcTimes (s : CrdtServer) (offline : Fin 16 → Bool) (g : Nat) : Set Nat :=
  { t | t = s.vectorClock.time g ∨
    ∃ i, s.peerSet i = true ∧ offline i = false ∧ t = (s.peerClock i).time g }

/-- Each time of the result is one of those the loop has gone through. -/
theorem foldl_mergeMin_time_mem {ι : Type} (counts : ι → Bool) (clock : ι → VectorClock)
    (l : List ι) (start : VectorClock) (g : Nat) :
    (l.foldl (fun acc i => if counts i then acc.mergeMin (clock i) else acc) start).time g =
        start.time g ∨
      ∃ i ∈ l, counts i = true ∧
        (l.foldl (fun acc i => if counts i then acc.mergeMin (clock i) else acc) start).time g =
          (clock i).time g := by
  induction l generalizing start with
  | nil => exact .inl rfl
  | cons i l ih =>
    rw [foldl_cons]
    rcases ih (if counts i then start.mergeMin (clock i) else start) with h | ⟨j, hj, hc, h⟩
    · cases hi : counts i with
      | false =>
        simp only [hi] at h
        exact .inl h
      | true =>
        simp only [hi, if_true, mergeMin_time] at h ⊢
        rcases min_choice (start.time g) ((clock i).time g) with hmin | hmin
        · exact .inl (h.trans hmin)
        · exact .inr ⟨i, by simp, hi, h.trans hmin⟩
    · exact .inr ⟨j, mem_cons_of_mem i hj, hc, h⟩

theorem gcVectorClockOver_isLeast (s : CrdtServer) (offline : Fin 16 → Bool)
    {gids : List (Fin 16)} (hall : ∀ i, i ∈ gids) (g : Nat) :
    IsLeast (gcTimes s offline g) ((gcVectorClockOver s offline gids).time g) := by
  constructor
  · rcases foldl_mergeMin_time_mem (fun i => s.peerSet i && !offline i) s.peerClock gids
      s.vectorClock g with h | ⟨i, -, hi, h⟩
    · exact .inl h
    · rw [Bool.and_eq_true, Bool.not_eq_true'] at hi
      exact .inr ⟨i, hi.1, hi.2, h⟩
  · obtain ⟨hown, hpeers⟩ := (le_gcVectorClockOver_iff s offline hall).1 le_rfl
    rintro t (rfl | ⟨i, hset, honline, rfl⟩)
    · exact hown g
    · exact hpeers i hset honline g

/-- For sorted clocks `mergeMinVectorClock` is sorted and lists the gids of both with the
smaller of the two times; as a function of clocks it is commutative, associative and
idempotent. The clock of a collection has for each gid the least of the times of the own
clock and of the peers that count, in whatever order they are gone through. -/
theorem mergeMinVectorClock_meet {u v w : VectorClock} (hu : u.Sorted) (hv : v.Sorted)
    (hw : w.Sorted) :
    (∃ r : VectorClock, mergeMinVectorClock v.units w.units = some r.units ∧ r.Sorted ∧
      (∀ g, (r.listed g).isSome ↔ (v.listed g).isSome ∨ (w.listed g).isSome) ∧
      ∀ g, r.time g = min (v.time g) (w.time g)) ∧
    mergeMinVectorClock v.units w.units = mergeMinVectorClock w.units v.units ∧
    (mergeMinVectorClock u.units v.units).bind (mergeMinVectorClock · w.units) =
      (mergeMinVectorClock v.units w.units).bind (mergeMinVectorClock u.units) ∧
    mergeMinVectorClock v.units v.units = some v.units ∧
    ∀ (s : CrdtServer) (offline : Fin 16 → Bool) (gids : List (Fin 16)),
      gids.Perm (List.finRange 16) → ∀ g,
        IsLeast (gcTimes s offline g) ((gcVectorClockOver s offline gids).time g) ∧
        (gcVectorClockOver s offline gids).time g = (getGcVectorClock s offline).time g := by
  refine ⟨⟨v.mergeMin w, v.mergeMinVectorClock_units w, hv.mergeMin hw, ?_,
    mergeMin_time v w⟩, ?_, ?_, ?_, ?_⟩
  · intro g
    rw [mergeMin_listed]
    cases v.listed g <;> cases w.listed g <;> simp [Lib.KeyedMerge.combine]
  · rw [mergeMinVectorClock_units, mergeMinVectorClock_units,
      mergeMin_comm hv hw]
  · rw [mergeMinVectorClock_units, mergeMinVectorClock_units,
      bind_some, bind_some, mergeMinVectorClock_units,
      mergeMinVectorClock_units, mergeMin_assoc hu hv hw]
  · rw [mergeMinVectorClock_units, mergeMin_self hv]
  · intro s offline gids hperm g
    have hleast := gcVectorClockOver_isLeast s offline (fun i => hperm.mem_iff.2 (mem_finRange i)) g
    have hascending := gcVectorClockOver_isLeast s offline mem_finRange g
    exact ⟨hleast, le_antisymm (hleast.2 hascending.1) (hascending.2 hleast.1)⟩

/-- The clocks `1:5;3:2` and `2:1;3:7`; gids that one of them lacks are kept with 0. -/
theorem mergeMinVectorClock_meet_overlap :
    mergeMinVectorClock [⟨1, 5⟩, ⟨3, 2⟩] [⟨2, 1⟩, ⟨3, 7⟩] = some [⟨1, 0⟩, ⟨2, 0⟩, ⟨3, 2⟩] ∧
      mergeMinVectorClock [⟨1, 5⟩, ⟨3, 2⟩] [⟨2, 1⟩, ⟨3, 7⟩] =
        mergeMinVectorClock [⟨2, 1⟩, ⟨3, 7⟩] [⟨1, 5⟩, ⟨3, 2⟩] := by
  refine ⟨by decide, ?_⟩
  exact (mergeMinVectorClock_meet (u := null)
    (v := ⟨[⟨1, 5⟩, ⟨3, 2⟩], by decide, by decide⟩)
    (w := ⟨[⟨2, 1⟩, ⟨3, 7⟩], by decide, by decide⟩) sorted_null (by decide)
    (by decide)).2.1

/-! ## What a collection removes -/

variable {M}

/-- Tombstones that `c` covers are gone, and nothing else has changed. -/
structure Sweeps (M : GcModule Obj) (c : VectorClock) (n n' : GcNode Obj) : Prop where
  server : n'.server = n.server
  offline : n'.offlinePeerSet = n.offlinePeerSet
  removed : ∀ db key, n'.deletedKeys db key = n.deletedKeys db key ∨
    n'.deletedKeys db key = none ∧ ∀ t, n.deletedKeys db key = some t → M.clockOf t ≤ c

theorem Sweeps.refl (c : VectorClock) (n : GcNode Obj) : Sweeps M c n n :=
  ⟨rfl, rfl, fun _ _ => .inl rfl⟩

theorem Sweeps.trans {n n'' : GcNode Obj} (h : Sweeps M c n n') (h' : Sweeps M c n' n'') :
    Sweeps M c n n'' := by
  refine ⟨h'.server.trans h.server, h'.offline.trans h.offline, ?_⟩
  intro db key
  rcases h'.removed db key with heq | ⟨hnone, hle⟩
  · rw [heq]
    exact h.removed db key
  · refine .inr ⟨hnone, ?_⟩
    intro t ht
    rcases h.removed db key with heq | ⟨-, hle'⟩
    · exact hle t (heq.trans ht)
    · exact hle' t ht

theorem sweeps_setTombstone {n : GcNode Obj} {db : Nat} {key : Bytes} {t : Obj}
    (ht : n.deletedKeys db key = some t) (hle : M.clockOf t ≤ c) :
    Sweeps M c n (n.setTombstone db key none) := by
  refine ⟨rfl, rfl, ?_⟩
  intro d k
  show (if d = db ∧ k = key then none else n.deletedKeys d k) = _ ∨
    (if d = db ∧ k = key then none else n.deletedKeys d k) = none ∧ _
  split
  · rename_i hat
    refine .inr ⟨rfl, ?_⟩
    intro u hu
    rw [hat.1, hat.2, ht] at hu
    cases hu
    exact hle
  · exact .inl rfl

theorem activeGcCycleTryGc_sweeps (db : Nat) (key : Bytes) :
    Sweeps M n.server.gcVectorClock n (activeGcCycleTryGc M n db key).1 := by
  unfold activeGcCycleTryGc
  split
  · exact Sweeps.refl _ n
  · rename_i t ht
    split
    · rename_i hgc
      rw [Bool.and_eq_true] at hgc
      exact sweeps_setTombstone ht ((M.gc_iff t _).1 hgc.2)
    · exact Sweeps.refl _ n

/-- The loop of a cycle: `gcVectorClock` stays as it was computed at the start. -/
theorem foldl_activeGcCycleTryGc_sweeps (samples : List (Nat × Bytes)) :
    Sweeps M n.server.gcVectorClock n
      (samples.foldl (fun n sample => (activeGcCycleTryGc M n sample.1 sample.2).1) n) := by
  induction samples generalizing n with
  | nil => exact Sweeps.refl _ n
  | cons sample samples ih =>
    have hfirst := activeGcCycleTryGc_sweeps (M := M) n sample.1 sample.2
    have hrest := ih (activeGcCycleTryGc M n sample.1 sample.2).1
    rw [hfirst.server] at hrest
    exact hfirst.trans hrest

/-- Both ways to collect go by the clock that is computed at their start. -/
structure Collects (M : GcModule Obj) (n n' : GcNode Obj) : Prop where
  server : ∃ c, n'.server = { n.server with gcVectorClock := c }
  removed : ∀ db key t, n.deletedKeys db key = some t → n'.deletedKeys db key = none →
    M.clockOf t ≤ getGcVectorClock n.server n.offlinePeerSet

theorem collects_refl : Collects M n n := by
  refine ⟨⟨n.server.gcVectorClock, rfl⟩, ?_⟩
  intro db key t ht hnone
  rw [ht] at hnone
  cases hnone

theorem Sweeps.collects {n : GcNode Obj}
    (h : Sweeps M (getGcVectorClock n.server n.offlinePeerSet) n.updateGcVectorClock n') :
    Collects M n n' := by
  refine ⟨⟨_, h.server⟩, ?_⟩
  intro db key t ht hnone
  rcases h.removed db key with heq | ⟨-, hle⟩
  · rw [hnone] at heq
    exact absurd (heq.trans ht) (by simp)
  · exact hle t ht

theorem gcIfNeeded_collects (db : Nat) (key : Bytes) : Collects M n (gcIfNeeded M n db key).1 := by
  unfold gcIfNeeded
  split
  · exact collects_refl n
  · rename_i t ht
    split
    · exact collects_refl n
    · dsimp only
      split
      · rename_i hgc
        rw [Bool.and_eq_true] at hgc
        have ht' : n.updateGcVectorClock.deletedKeys db key = some t := ht
        exact (sweeps_setTombstone ht' ((M.gc_iff t _).1 hgc.2)).collects
      · exact (Sweeps.refl _ _).collects

theorem gcCycle_collects (paused : Bool) (samples : List (Nat × Bytes)) :
    Collects M n (gcCycle M n paused samples) := by
  unfold gcCycle
  split
  · exact collects_refl n
  · exact (foldl_activeGcCycleTryGc_sweeps n.updateGcVectorClock samples).collects

/-! ## What the other steps of the server keep -/

/-- A reported clock goes only with its instance. No gid leaves `peer_set`, and one that
gets an instance is in it. -/
structure KeepsClocks (s s' : CrdtServer) : Prop where
  gid : s'.crdtGid = s.crdtGid
  counted : ∀ j, s.peerSet j = true → s'.peerSet j = true
  clock : ∀ j q, s'.crdtMasters j = some q → q.vectorClock = s.peerClock j
  fresh : ∀ j, (s'.crdtMasters j).isSome →
    (s.crdtMasters j).isSome ∨ j.val = s.crdtGid ∨ s'.peerSet j = true

/-- What collection reads of the peers. -/
def CrdtServer.clockView (s : CrdtServer) :
    Gid × (Fin 16 → Bool) × (Fin 16 → Option VectorClock) :=
  (s.crdtGid, s.peerSet, fun i => (s.crdtMasters i).map PeerMaster.vectorClock)

section view

variable {s s' : CrdtServer}

theorem clockView_setPeer {i : Fin 16} {p q : PeerMaster} (hp : s.crdtMasters i = some p)
    (hq : q.vectorClock = p.vectorClock) : (s.setPeer i (some q)).clockView = s.clockView := by
  refine congrArg (fun f => (s.crdtGid, s.peerSet, f)) (funext fun j => ?_)
  show (update s.crdtMasters i (some q) j).map _ = _
  by_cases hj : j = i
  · subst hj
    rw [update_self, hp, map_some, map_some, hq]
  · rw [update_of_ne hj]

theorem clockView_mapPeers {f : Fin 16 → PeerMaster → PeerMaster}
    (hf : ∀ i p, (f i p).vectorClock = p.vectorClock) :
    ({ s with crdtMasters := fun i => (s.crdtMasters i).map (f i) } : CrdtServer).clockView =
      s.clockView := by
  refine congrArg (fun f => (s.crdtGid, s.peerSet, f)) (funext fun j => ?_)
  show ((s.crdtMasters j).map (f j)).map _ = _
  rw [Option.map_map]
  exact congrArg (Option.map · _) (funext (hf j))

end view

namespace KeepsClocks

variable {s s' : CrdtServer}

/-- Every peer was there before, with the clock that it has now. -/
theorem of_peers (hgid : s'.crdtGid = s.crdtGid) (hset : s'.peerSet = s.peerSet)
    (h : ∀ j q, s'.crdtMasters j = some q → ∃ p, s.crdtMasters j = some p ∧
      q.vectorClock = p.vectorClock) : KeepsClocks s s' := by
  refine ⟨hgid, fun j hj => by rw [hset, hj], ?_, ?_⟩
  · intro j q hq
    obtain ⟨p, hp, hclock⟩ := h j q hq
    rw [peerClock_of_some hp, hclock]
  · intro j hj
    obtain ⟨q, hq⟩ := isSome_iff_exists.1 hj
    obtain ⟨p, hp, -⟩ := h j q hq
    exact .inl (by rw [hp, isSome_some])

/-- Nothing that collection reads of the peers has changed. -/
theorem of_view (h : s'.clockView = s.clockView) : KeepsClocks s s' := by
  simp only [CrdtServer.clockView, Prod.mk.injEq] at h
  obtain ⟨hgid, hset, hclocks⟩ := h
  refine of_peers hgid hset ?_
  intro j q hq
  have hj := congrFun hclocks j
  rw [hq, map_some] at hj
  obtain ⟨p, hp, hclock⟩ := map_eq_some_iff.1 hj.symm
  exact ⟨p, hp, hclock.symm⟩

theorem unsetMaster (i : Fin 16) : KeepsClocks s (crdtReplicationUnsetMaster s i) := by
  unfold crdtReplicationUnsetMaster
  split
  · exact of_view rfl
  · rw [tryClean_eq]
    exact of_peers rfl rfl fun j q hq => ⟨q, setPeer_none_some hq, rfl⟩

end KeepsClocks

section keeps

variable {s s' : CrdtServer}

variable {argv : Argv} {c : VectorClock} {e : Exit} {j : Fin 16} {p : PeerMaster} (i : Fin 16)

/-- The gid is in the set afterwards, unless it is the own one. -/
theorem addPeerSet_peerSet : (∀ j, s.peerSet j = true → (addPeerSet s i).peerSet j = true) ∧
      (i.val = s.crdtGid ∨ (addPeerSet s i).peerSet i = true) := by
  unfold addPeerSet
  split
  · rename_i hown
    exact ⟨fun _ hj => hj, .inl hown⟩
  · refine ⟨?_, .inr (update_self ..)⟩
    intro j hj
    show update s.peerSet i true j = true
    by_cases hji : j = i
    · rw [hji, update_self]
    · rw [update_of_ne hji, hj]

theorem foldl_addPeerSet (l : List (Fin 16)) (s : CrdtServer) :
    (l.foldl addPeerSet s).crdtGid = s.crdtGid ∧
      (l.foldl addPeerSet s).crdtMasters = s.crdtMasters ∧
      (∀ j, s.peerSet j = true → (l.foldl addPeerSet s).peerSet j = true) ∧
      ∀ j ∈ l, j.val = s.crdtGid ∨ (l.foldl addPeerSet s).peerSet j = true := by
  induction l generalizing s with
  | nil => exact ⟨rfl, rfl, fun _ hj => hj, fun j hj => absurd hj (by simp)⟩
  | cons i l ih =>
    obtain ⟨hgid, hpeers, hset, hadded⟩ := ih (addPeerSet s i)
    have hfirst := addPeerSet_peerSet (s := s) i
    rw [addPeerSet_crdtGid] at hgid hadded
    rw [addPeerSet_crdtMasters] at hpeers
    refine ⟨hgid, hpeers, fun j hj => hset j (hfirst.1 j hj), ?_⟩
    intro j hj
    rcases mem_cons.1 hj with rfl | hj
    · exact hfirst.2.imp id (hset j)
    · exact hadded j hj

theorem refreshVectorClock_spec (s : CrdtServer) (vclock : VectorClock) :
    (refreshVectorClock s vclock).crdtGid = s.crdtGid ∧
      (refreshVectorClock s vclock).crdtMasters = s.crdtMasters ∧
      (∀ j, s.peerSet j = true → (refreshVectorClock s vclock).peerSet j = true) ∧
      ∀ j : Fin 16, (vclock.listed j).isSome →
        j.val = s.crdtGid ∨ (refreshVectorClock s vclock).peerSet j = true := by
  obtain ⟨hgid, hpeers, hset, hadded⟩ := foldl_addPeerSet
    ((List.finRange 16).filter fun i : Fin 16 => (vclock.listed i).isSome) s
  exact ⟨hgid, hpeers, hset, fun j hj => hadded j (mem_filter.2 ⟨mem_finRange j, hj⟩)⟩

/-- What `PEEROF` sets up, apart from the instance. -/
theorem attachPeer_frame (env : PeerofEnv) (i : Fin 16) (host : Bytes) (port : Int)
    (o : PeerofOptions) :
    (attachPeer env s i host port o).crdtGid = s.crdtGid ∧
      ∀ j, s.peerSet j = true → (attachPeer env s i host port o).peerSet j = true := by
  unfold attachPeer crdtReplicationSetMaster
  cases s.crdtMasters i with
  | none => exact ⟨addPeerSet_crdtGid s i, (addPeerSet_peerSet i).1⟩
  | some p => exact ⟨rfl, fun _ hj => hj⟩

theorem keepsClocks_attach (env : PeerofEnv) (i : Fin 16) (host : Bytes) (port : Int)
    (o : PeerofOptions) (d : Int) :
    KeepsClocks s { addPeerSet (attachPeer env s i host port o) i with dirty := d } := by
  obtain ⟨hgid, hset⟩ := attachPeer_frame (s := s) env i host port o
  obtain ⟨-, q, hpeers, hclock, -⟩ := attachPeer_peers env s i host port o
  have hadd := addPeerSet_peerSet (s := attachPeer env s i host port o) i
  refine ⟨(addPeerSet_crdtGid _ i).trans hgid, fun j hj => hadd.1 j (hset j hj), ?_, ?_⟩
  · intro j r hr
    have hr' : update s.crdtMasters i (some q) j = some r := by
      rw [← hpeers, ← addPeerSet_crdtMasters _ i]
      exact hr
    by_cases hj : j = i
    · subst hj
      rw [update_self] at hr'
      cases hr'
      rw [hclock, CrdtServer.peerClock]
      cases s.crdtMasters j <;> rfl
    · rw [update_of_ne hj] at hr'
      rw [peerClock_of_some hr']
  · intro j hj
    have hj' : (update s.crdtMasters i (some q) j).isSome := by
      rw [← hpeers, ← addPeerSet_crdtMasters _ i]
      exact hj
    by_cases hji : j = i
    · subst hji
      rw [← hgid]
      exact .inr hadd.2
    · rw [update_of_ne hji] at hj'
      exact .inl hj'

theorem keepsClocks_peerof {env : PeerofEnv} {reply : Reply}
    (hres : (peerofCommand env s argv).result = .ok (reply, s')) : KeepsClocks s s' := by
  rcases peerofCommand_ok hres with rfl | ⟨i, d, rfl⟩ |
    ⟨cmd, gidText, host, portText, words, gid, port, e, o, rfl, hone, hgid, hport, hread, hend⟩
  · exact .of_view rfl
  · have h := KeepsClocks.unsetMaster (s := s) i
    exact ⟨h.gid, h.counted, h.clock, h.fresh⟩
  rcases hend with ⟨-, rfl⟩ | ⟨-, i, hi, ⟨p, d, hp, hup, rfl⟩ | ⟨hnot, rfl | ⟨d, rfl⟩⟩⟩
  · exact .of_view rfl
  · exact .of_view
      (clockView_setPeer (q := p.reattached o) hp (reattached_sameClocks p o).vectorClock)
  · -- the rewrite failed: the instance is gone, but its gid stays in the set
    rw [crdtReplicationUnsetMaster_attachPeer, tryClean_eq]
    dsimp only
    have hset := addPeerSet_peerSet (s := { s with loading := s.loading || o.loading }) i
    split
    · refine ⟨addPeerSet_crdtGid _ i, hset.1, ?_, ?_⟩
      · intro j q hq
        have hq' := setPeer_none_some hq
        rw [addPeerSet_crdtMasters] at hq'
        rw [peerClock_of_some (s := s) hq']
      · intro j hj
        obtain ⟨q, hq⟩ := isSome_iff_exists.1 hj
        have hq' := setPeer_none_some hq
        rw [addPeerSet_crdtMasters] at hq'
        have hold : s.crdtMasters j = some q := hq'
        exact .inl (by rw [hold, isSome_some])
    · exact .of_peers rfl rfl fun j q hq => ⟨q, setPeer_none_some hq, rfl⟩
  · have h := keepsClocks_attach (s := { s with loading := s.loading || o.loading }) env i host
      port o d
    exact ⟨h.gid, h.counted, h.clock, h.fresh⟩

theorem clockView_mergeError {gid : Int} (h : (mergeError s gid).result = .ok (e, s')) :
    s'.clockView = s.clockView := by
  obtain ⟨-, rfl | ⟨i, p, hp, rfl⟩⟩ := mergeError_ok h
  · rfl
  · exact clockView_setPeer hp (cancelHandshake_sameClocks p).vectorClock

theorem keepsClocks_mergeStart {uninitialized : Bytes}
    (hres : (crdtMergeStartCommand uninitialized s argv).result = .ok (e, s')) :
    KeepsClocks s s' := by
  rcases crdtMergeStartCommand_ok hres with ⟨-, rfl | ⟨i, p, hp, rfl⟩⟩ |
    ⟨i, p, gid, vclock, hp, -, -, -, rfl⟩
  · exact .of_view rfl
  · exact .of_view (clockView_setPeer hp (cancelHandshake_sameClocks p).vectorClock)
  · exact .of_view (clockView_setPeer (q := { p with
      cachedMaster := none
      master := if s.iAmMaster then p.master else some (createFakeClient uninitialized) }) hp rfl)

theorem keepsClocks_peerChange (hres : (peerChangeCommand s argv).result = .ok (e, s')) :
    KeepsClocks s s' := by
  rcases peerChangeCommand_ok hres with rfl | ⟨i, p, m, text, id₁, id₂, hp, -, -, -, -, rfl⟩
  · exact .of_view rfl
  · exact .of_view (clockView_setPeer (q := { p with
      master := some { m with replid := id₁ }
      masterReplid := id₂ }) hp rfl)

theorem clockView_link {i : Fin 16} {act : LinkAct} (h : linkNext s i act = some s') :
    s'.clockView = s.clockView := by
  simp only [linkNext, ite_none_right_eq_some, bind_eq_some_iff, map_eq_some_iff] at h
  obtain ⟨-, p, hp, q, hq, rfl⟩ := h
  exact clockView_setPeer hp (linkStep_sameClocks hq).vectorClock

theorem clockView_becomeSlave (uninitialized : Bytes) :
    (s.becomeSlave uninitialized).clockView = s.clockView := by
  unfold CrdtServer.becomeSlave
  split
  · exact clockView_mapPeers (s := s) (f := fun _ p => p.stateReset uninitialized) fun _ _ => rfl
  · rfl

theorem clockView_becomeMaster : s.becomeMaster.clockView = s.clockView := by
  unfold CrdtServer.becomeMaster
  split
  · rfl
  · exact clockView_mapPeers (s := s) (f := fun _ p => p.cacheForRole)
      fun _ p => (cacheForRole_sameClocks p).vectorClock

theorem clockView_slaveofNoOne (connected nullDb : Bool) (qps : Nat) :
    (slaveofNoOne s connected nullDb qps).1.clockView = s.clockView := by
  unfold slaveofNoOne
  split
  · rfl
  · have hjump : (if connected then jumpVectorClock s qps else s).clockView = s.clockView := by
      split <;> rfl
    generalize (if connected then jumpVectorClock s qps else s) = t at hjump
    have h := clockView_becomeMaster.trans hjump
    dsimp only
    split <;> exact h

theorem clockView_peerBackStream (nullDb : Bool) (vcus : Fin 16 → Option Nat) :
    (peerBackStream s nullDb vcus).1.clockView = s.clockView := by
  have hsilent : (markSilent s vcus).clockView = s.clockView := by
    refine clockView_mapPeers
      (f := fun i p => if vcus i = none then p.backstreamFrom s.crdtGid 0 else p) ?_
    intro i p
    split <;> rfl
  have hclean : ∀ t : CrdtServer, (cleanSlavePeerBackStream t).clockView = t.clockView := by
    intro t
    exact clockView_mapPeers (s := t)
      (f := fun _ p => { p with backstreamVc := null }) fun _ _ => rfl
  have hothers : ∀ (t : CrdtServer) (g : Fin 16) (m : Nat),
      (markOthers t g m).clockView = t.clockView := by
    intro t g m
    refine clockView_mapPeers (f := fun i p =>
      if i = g then p.backstreamFrom t.crdtGid 0
      else if p.backstreaming then p else p.backstreamFrom t.crdtGid m) ?_
    intro i p
    split
    · rfl
    · split <;> rfl
  unfold peerBackStream
  dsimp only
  split
  · exact (hclean _).trans hsilent
  · have hreset : ∀ (b l : Bool), ({ (if b then resetClocks (markSilent s vcus)
        else markSilent s vcus) with loading := l } : CrdtServer).clockView = s.clockView := by
      intro b l
      split <;> exact hsilent
    split
    · exact hreset _ _
    · exact (hothers _ _ _).trans (hreset _ _)

/-- All steps but the reports and the load of a file. -/
theorem keepsClocks_closingNext {a : ClosingAct} (ha : a.silent = true)
    (h : closingNext s a = some s') : KeepsClocks s s' := by
  cases a with
  | peerof env argv =>
    obtain ⟨reply, hres⟩ := Trace.state?_eq_some h
    exact keepsClocks_peerof hres
  | mergeStart uninitialized argv =>
    obtain ⟨e, hres⟩ := Trace.state?_eq_some h
    exact keepsClocks_mergeStart hres
  | mergeEnd clientGid qps argv => cases ha
  | peerChange argv =>
    obtain ⟨e, hres⟩ := Trace.state?_eq_some h
    exact keepsClocks_peerChange hres
  | link i act => exact .of_view (clockView_link h)
  | slaveof uninitialized =>
    cases h
    exact .of_view (clockView_becomeSlave uninitialized)
  | slaveofNoOne connected nullDb qps =>
    cases h
    exact .of_view (clockView_slaveofNoOne connected nullDb qps)
  | slaveContinue =>
    cases h
    exact .of_view (clockView_mapPeers
      (f := fun _ p => { p with backstreamVc := null }) fun _ _ => rfl)
  | rdbLoad uninitialized file => cases ha
  | peerBackStream nullDb vcus =>
    cases h
    exact .of_view (clockView_peerBackStream nullDb vcus)

/-- A file that a slave loads: new instances, without clocks. -/
theorem rdbLoadPeers_fresh {uninitialized : Bytes} {file : List PeerAux}
    (hslave : s.iAmMaster = false) (h : rdbLoadPeers uninitialized s file = some s') :
    s'.crdtGid = s.crdtGid ∧ (∀ j, s.peerSet j = true → s'.peerSet j = true) ∧
      ∀ j q, s'.crdtMasters j = some q → q.vectorClock = null ∧
        (j.val = s.crdtGid ∨ s'.peerSet j = true) := by
  refine rdbLoadPeers_invariant (P := fun t => t.crdtGid = s.crdtGid ∧
    (∀ j, s.peerSet j = true → t.peerSet j = true) ∧
      ∀ j q, t.crdtMasters j = some q → q.vectorClock = null ∧
        (j.val = s.crdtGid ∨ t.peerSet j = true)) ?_ ?_ ?_ h
  · rintro t a t' - ⟨hgid, hset, hpeers⟩ hnext
    rcases loadPeerAux_cases hnext with rfl | ⟨-, rfl⟩ | ⟨p, hp, -, rfl⟩
    · exact ⟨hgid, hset, hpeers⟩
    · have hadd := addPeerSet_peerSet (s := t) a.gid
      refine ⟨(addPeerSet_crdtGid t a.gid).trans hgid, fun j hj => hadd.1 j (hset j hj), ?_⟩
      intro j q hq
      have hq' : update (addPeerSet t a.gid).crdtMasters a.gid _ j = some q := hq
      by_cases hj : j = a.gid
      · subst hj
        rw [update_self] at hq'
        cases hq'
        exact ⟨rfl, hgid ▸ hadd.2⟩
      · rw [update_of_ne hj, addPeerSet_crdtMasters] at hq'
        obtain ⟨hclock, hcounted⟩ := hpeers j q hq'
        exact ⟨hclock, hcounted.imp id (hadd.1 j)⟩
    · refine ⟨hgid, hset, ?_⟩
      intro j q hq
      have hq' : update t.crdtMasters a.gid _ j = some q := hq
      by_cases hj : j = a.gid
      · subst hj
        rw [update_self] at hq'
        cases hq'
        exact hpeers a.gid p hp
      · rw [update_of_ne hj] at hq'
        exact hpeers j q hq'
  · intro hmaster
    rw [hslave] at hmaster
    cases hmaster
  · intro _
    exact ⟨rfl, fun _ hj => hj, fun j q hq => by cases hq⟩

/-! ## What a report does -/

/-- The peer `j` reported, and its clock is now `c`; no instance is new. -/
structure Reports (s s' : CrdtServer) (j : Fin 16) (c : VectorClock) : Prop where
  gid : s'.crdtGid = s.crdtGid
  counted : s'.peerSet = s.peerSet
  clock : ∀ i q, s'.crdtMasters i = some q →
    (s.crdtMasters i).isSome ∧ q.vectorClock = if i = j then c else s.peerClock i

/-- The slot of the peer gets an instance with that clock. -/
theorem reports_update {q : PeerMaster} (hp : s.crdtMasters j = some p) (hq : q.vectorClock = c)
    (hgid : s'.crdtGid = s.crdtGid) (hset : s'.peerSet = s.peerSet)
    (hs' : ∀ i r, s'.crdtMasters i = some r → ∃ r',
      update s.crdtMasters j (some q) i = some r' ∧ r.vectorClock = r'.vectorClock) :
    Reports s s' j c := by
  refine ⟨hgid, hset, ?_⟩
  intro i r hr
  obtain ⟨r', hr', heq⟩ := hs' i r hr
  by_cases hi : i = j
  · subst hi
    rw [update_self] at hr'
    cases hr'
    rw [if_pos rfl, heq, hq, hp]
    exact ⟨rfl, rfl⟩
  · rw [update_of_ne hi] at hr'
    rw [if_neg hi, heq, peerClock_of_some hr', hr']
    exact ⟨rfl, rfl⟩

/-- Without instance there is nothing to update. -/
theorem reports_of_view (hnone : s.crdtMasters j = none) (h : s'.clockView = s.clockView) :
    Reports s s' j c := by
  simp only [CrdtServer.clockView, Prod.mk.injEq] at h
  obtain ⟨hgid, hset, hclocks⟩ := h
  refine ⟨hgid, hset, ?_⟩
  intro i q hq
  have hi := congrFun hclocks i
  rw [hq, map_some] at hi
  obtain ⟨p, hp, hclock⟩ := map_eq_some_iff.1 hi.symm
  have hne : i ≠ j := by
    rintro rfl
    rw [hnone] at hp
    cases hp
  rw [if_neg hne, peerClock_of_some hp, hclock, hp]
  exact ⟨rfl, rfl⟩

theorem reports_updateOvc (j : Fin 16) (vclock : VectorClock) :
    Reports s (updateOvc s j vclock) j ((s.peerClock j).merge vclock) := by
  unfold updateOvc
  cases hp : s.crdtMasters j with
  | none => exact reports_of_view hp rfl
  | some p =>
    refine reports_update (q := { p with vectorClock := p.vectorClock.merge vclock }) hp ?_ rfl rfl
      fun i r hr => ⟨r, hr, rfl⟩
    rw [peerClock_of_some hp]

theorem reports_mergeEndPeer {clientGid : Int} {qps : Nat} {gid : Gid}
    (hp : s.crdtMasters j = some p) (hc : clockArg argv = some c)
    (h : (crdtMergeEndPeer clientGid qps s argv j p gid).result = .ok (e, s')) :
    Reports s s' j c := by
  obtain ⟨text, vclock, htext, hclock, hend⟩ := crdtMergeEndPeer_ok h
  have hvc : vclock = c := by
    rw [clockArg, htext, bind_some, Trace.toOption_eq_some, hclock] at hc
    exact Except.ok.inj hc
  subst hvc
  rcases hend with ⟨-, -, rfl⟩ | ⟨m, replid, id₁, id₂, offset, -, -, -, -, -, rfl⟩
  · exact reports_update (q := { p with vectorClock := vclock }) hp rfl rfl rfl
      fun i r hr => ⟨r, hr, rfl⟩
  · obtain ⟨v, w, g, l, b, r, heq⟩ := connectPeer_synced (s := s) (i := j) qps p
      (p.synced m vclock id₁ id₂ offset) gid vclock
    rw [heq]
    exact reports_update (q := { p.synced m vclock id₁ id₂ offset with
      backstreamVc := b
      replState := r }) hp rfl rfl rfl fun i r hr => ⟨r, hr, rfl⟩

theorem reports_mergeEnd {clientGid : Int} {qps : Nat} (hj : namedSlot argv = some j)
    (hpos : 0 < j.val) (hc : clockArg argv = some c)
    (h : (crdtMergeEndCommand clientGid qps s argv).state? = some s') : Reports s s' j c := by
  obtain ⟨e, hres⟩ := Trace.state?_eq_some h
  obtain ⟨sourceGid, gid, hnames⟩ := exists_names hj hpos
  rw [crdtMergeEndCommand_of_names clientGid qps s hnames] at hres
  cases hp : s.crdtMasters j with
  | none =>
    rw [hp] at hres
    exact reports_of_view hp (clockView_mergeError hres)
  | some p =>
    rw [hp] at hres
    exact reports_mergeEndPeer hp hc hres

end keeps

/-! ## The invariant -/

/-- The clock of an instance is what its peer reported, all that is still to come from
the peer was issued at that clock or later, and every gid that was ever named counts. -/
structure GcWorld.Sound (w : GcWorld Obj) : Prop where
  reported : ∀ j, w.node.server.peerClock j = reportedClock (w.reports j)
  stable : ∀ j, (w.peers j).StableFrom (w.read j) (w.node.server.peerClock j)
  known : ∀ j, (w.node.server.crdtMasters j).isSome → w.named j = true
  counted : ∀ j, w.named j = true →
    j.val = w.node.server.crdtGid ∨ w.node.server.peerSet j = true

theorem stableFrom_null {μ : Type} (o : Lib.Outbox μ VectorClock) (n : Nat) :
    o.StableFrom n null :=
  ⟨null_le, fun _ _ _ _ => null_le⟩

theorem stableFrom_merge {μ : Type} {o : Lib.Outbox μ VectorClock} {n : Nat} {d : VectorClock}
    (hc : o.StableFrom n c) (hd : o.StableFrom n d) :
    o.StableFrom n (c.merge d) :=
  ⟨merge_le hc.now hd.now,
    fun k m hk hm => merge_le (hc.unread k m hk hm) (hd.unread k m hk hm)⟩

namespace GcWorld.Sound

variable {w : GcWorld Obj}

variable {j : Fin 16} {s : CrdtServer}

/-- The node goes on in a state `s` whose instances fit the reports. -/
theorem withServer (h : w.Sound) {reports : Fin 16 → List Report} {read : Fin 16 → Nat}
    (hgid : s.crdtGid = w.node.server.crdtGid)
    (hset : ∀ j, w.node.server.peerSet j = true → s.peerSet j = true)
    (hclock : ∀ j q, s.crdtMasters j = some q →
      q.vectorClock = reportedClock (reports j) ∧ (w.peers j).StableFrom (read j) q.vectorClock)
    (hfresh : ∀ j, (s.crdtMasters j).isSome → (w.node.server.crdtMasters j).isSome ∨
      j.val = w.node.server.crdtGid ∨ s.peerSet j = true) :
    (w.withServer s reports read).Sound := by
  refine ⟨?_, ?_, ?_, ?_⟩
  · intro j
    show s.peerClock j = reportedClock (if (s.crdtMasters j).isSome then reports j else [])
    cases hq : s.crdtMasters j with
    | none => exact peerClock_of_none hq
    | some q =>
      rw [peerClock_of_some hq]
      exact (hclock j q hq).1
  · intro j
    show (w.peers j).StableFrom (read j) (s.peerClock j)
    cases hq : s.crdtMasters j with
    | none =>
      rw [peerClock_of_none hq]
      exact stableFrom_null _ _
    | some q =>
      rw [peerClock_of_some hq]
      exact (hclock j q hq).2
  · intro j hj
    show (w.named j || (s.crdtMasters j).isSome) = true
    rw [Bool.or_eq_true]
    exact .inr hj
  · intro j hj
    show j.val = s.crdtGid ∨ s.peerSet j = true
    rw [hgid]
    have hnamed : w.named j = true ∨ (s.crdtMasters j).isSome = true := by
      rw [← Bool.or_eq_true]
      exact hj
    have hold : w.named j = true → j.val = w.node.server.crdtGid ∨ s.peerSet j = true :=
      fun hn => (h.counted j hn).imp id (hset j)
    rcases hnamed with hn | hsome
    · exact hold hn
    · rcases hfresh j hsome with hwas | hdone
      · exact hold (h.known j hwas)
      · exact hdone

theorem keeps (h : w.Sound) (hk : KeepsClocks w.node.server s) :
    (w.withServer s w.reports w.read).Sound := by
  refine h.withServer hk.gid hk.counted ?_ hk.fresh
  intro j q hq
  rw [hk.clock j q hq]
  exact ⟨h.reported j, h.stable j⟩

/-- A report of a clock that is stable from where the stream has been read to. -/
theorem reports (h : w.Sound) {r : Report} {k : Nat}
    (hr : Reports w.node.server s j (r.apply (w.node.server.peerClock j)))
    (hstable : (w.peers j).StableFrom (max (w.read j) (k + 1)) (r.apply (w.node.server.peerClock
      j))) : (w.reported s j r k).Sound := by
  refine h.withServer hr.gid (fun i hi => by rw [hr.counted, hi]) ?_ ?_
  · intro i q hq
    rw [(hr.clock i q hq).2]
    by_cases hi : i = j
    · subst hi
      rw [if_pos rfl, update_self, update_self, reportedClock_concat, ← h.reported i]
      exact ⟨rfl, hstable⟩
    · rw [if_neg hi, update_of_ne hi, update_of_ne hi]
      exact ⟨h.reported i, h.stable i⟩
  · intro i hi
    obtain ⟨q, hq⟩ := isSome_iff_exists.1 hi
    exact .inl (hr.clock i q hq).1

/-- A step that leaves what collection reads of the peers. -/
theorem withNode (h : w.Sound) {n : GcNode Obj}
    (hs : n.server.clockView = w.node.server.clockView) :
    ({ w with node := n } : GcWorld Obj).Sound := by
  simp only [CrdtServer.clockView, Prod.mk.injEq] at hs
  obtain ⟨hgid, hset, hclocks⟩ := hs
  have hclock : ∀ j, n.server.peerClock j = w.node.server.peerClock j := by
    intro j
    have hj := congrFun hclocks j
    unfold CrdtServer.peerClock
    cases hn : n.server.crdtMasters j <;> cases hw : w.node.server.crdtMasters j <;> simp_all
  refine ⟨?_, ?_, ?_, ?_⟩
  · intro j
    exact (hclock j).trans (h.reported j)
  · intro j
    show (w.peers j).StableFrom (w.read j) (n.server.peerClock j)
    rw [hclock j]
    exact h.stable j
  · intro j hj
    refine h.known j ?_
    have hmap := congrArg Option.isSome (congrFun hclocks j)
    rw [isSome_map, isSome_map] at hmap
    rw [← hmap]
    exact hj
  · intro j hj
    show j.val = n.server.crdtGid ∨ n.server.peerSet j = true
    rw [hgid, hset]
    exact h.counted j hj

/-- The peer goes on; what is stable stays so. -/
theorem withPeer (h : w.Sound) {o : Lib.Outbox Sent VectorClock}
    (ho : ∀ n r, (w.peers j).StableFrom n r → o.StableFrom n r) :
    ({ w with peers := update w.peers j o } : GcWorld Obj).Sound := by
  refine ⟨h.reported, ?_, h.known, h.counted⟩
  intro i
  show (update w.peers j o i).StableFrom (w.read i) (w.node.server.peerClock i)
  by_cases hi : i = j
  · subst hi
    rw [update_self]
    exact ho _ _ (h.stable i)
  · rw [update_of_ne hi]
    exact h.stable i

theorem deliver (h : w.Sound) {k : Nat} {m : Lib.Stamped Sent VectorClock}
    (hm : (w.peers j).sent[k]? = some m) : (w.deliver j k m).Sound := by
  have hlater : (w.peers j).StableFrom (max (w.read j) (k + 1)) (w.node.server.peerClock j) :=
    (h.stable j).later (Nat.le_max_left _ _)
  have hread : ({ w with read := update w.read j (max (w.read j) (k + 1)) } :
      GcWorld Obj).Sound := by
    refine ⟨h.reported, ?_, h.known, h.counted⟩
    intro i
    show (w.peers i).StableFrom (update w.read j (max (w.read j) (k + 1)) i) _
    by_cases hi : i = j
    · subst hi
      rw [update_self]
      exact hlater
    · rw [update_of_ne hi]
      exact h.stable i
  unfold GcWorld.deliver
  cases hbody : m.body with
  | write => exact hread
  | fullSync => exact hread
  | ovc =>
    refine h.reports (reports_updateOvc j m.stamp) (stableFrom_merge hlater ?_)
    exact Lib.Outbox.stableFrom_stamp hm (Nat.le_trans (Nat.le_succ k) (Nat.le_max_right _ _))

/-- The gids of an `ack-vc` count from now on. -/
theorem refresh (h : w.Sound) (vclock : VectorClock) : ({ w with
      node := { w.node with server := refreshVectorClock w.node.server vclock }
      named := fun j => w.named j || (vclock.listed j).isSome } : GcWorld Obj).Sound := by
  obtain ⟨hgid, hpeers, hset, hadded⟩ := refreshVectorClock_spec w.node.server vclock
  refine ⟨?_, ?_, ?_, ?_⟩
  · intro j
    exact (peerClock_congr hpeers j).trans (h.reported j)
  · intro j
    show (w.peers j).StableFrom (w.read j) ((refreshVectorClock w.node.server vclock).peerClock j)
    rw [peerClock_congr hpeers]
    exact h.stable j
  · intro j hj
    show (w.named j || _) = true
    rw [h.known j (by rw [← hpeers]; exact hj), Bool.true_or]
  · intro j hj
    show j.val = (refreshVectorClock w.node.server vclock).crdtGid ∨ _
    have hj' : w.named j = true ∨ (vclock.listed j).isSome = true := by
      rw [← Bool.or_eq_true]
      exact hj
    rw [hgid]
    rcases hj' with hn | hlisted
    · exact (h.counted j hn).imp id (hset j)
    · exact hadded j hlisted

end GcWorld.Sound

theorem sound_init (h : (collecting M).init w) : w.Sound := by
  obtain ⟨hreports, hnamed, hpeers⟩ := h
  have hnull : ∀ j, w.node.server.peerClock j = null := by
    intro j
    cases hp : w.node.server.crdtMasters j with
    | none => exact peerClock_of_none hp
    | some p => exact (peerClock_of_some hp).trans (hpeers j p hp).1
  refine ⟨?_, ?_, ?_, ?_⟩
  · intro j
    rw [hnull, hreports]
    rfl
  · intro j
    rw [hnull]
    exact stableFrom_null _ _
  · intro j hj
    rw [hnamed, hj]
  · intro j hj
    rw [hnamed] at hj
    obtain ⟨p, hp⟩ := isSome_iff_exists.1 hj
    exact (hpeers j p hp).2

theorem Collects.clockView {n : GcNode Obj} (h : Collects M n n') :
    n'.server.clockView = n.server.clockView := by
  obtain ⟨c, hc⟩ := h.server
  rw [hc]
  rfl

/-- Every step keeps the invariant. -/
theorem sound_step {w' : GcWorld Obj} {a : GcAct Obj} (h : w.Sound) (hnext : w.next M a = some w') :
    w'.Sound := by
  cases a with
  | peerClock j clock =>
    simp only [GcWorld.next] at hnext
    split at hnext
    · cases hnext
      exact h.withPeer fun n r hr => hr.advance _
    · cases hnext
  | peerSend j body =>
    cases hnext
    exact h.withPeer fun n r hr => hr.send body
  | deliver j k =>
    simp only [GcWorld.next, ite_none_right_eq_some, map_eq_some_iff] at hnext
    obtain ⟨-, m, hm, rfl⟩ := hnext
    exact h.deliver hm
  | mergeEnd clientGid qps argv k =>
    simp only [GcWorld.next, bind_eq_some_iff, ite_none_right_eq_some, map_eq_some_iff] at hnext
    obtain ⟨j, hj, m, hm, ⟨hpos, -, hc⟩, s, hs, rfl⟩ := hnext
    refine h.reports (r := .mergeEnd m.stamp) (reports_mergeEnd hj hpos hc hs) ?_
    exact Lib.Outbox.stableFrom_stamp hm (Nat.le_trans (Nat.le_succ k) (Nat.le_max_right _ _))
  | server a =>
    simp only [GcWorld.next, ite_none_right_eq_some, map_eq_some_iff] at hnext
    obtain ⟨ha, s, hs, rfl⟩ := hnext
    exact h.keeps (keepsClocks_closingNext ha hs)
  | rdbLoad uninitialized file vclock offline deletedKeys read =>
    simp only [GcWorld.next, ite_none_left_eq_some, map_eq_some_iff] at hnext
    obtain ⟨hslave, s, hs, rfl⟩ := hnext
    obtain ⟨hgid, hset, hpeers⟩ := rdbLoadPeers_fresh (Bool.eq_false_iff.2 hslave) hs
    have hload : (w.withServer (loadVclock s vclock) (fun _ => []) read).Sound := by
      refine h.withServer hgid hset ?_ ?_
      · intro j q hq
        rw [(hpeers j q hq).1]
        exact ⟨rfl, stableFrom_null _ _⟩
      · intro j hj
        obtain ⟨q, hq⟩ := isSome_iff_exists.1 hj
        exact .inr (hpeers j q hq).2
    exact hload.withNode rfl
  | ackVc vclock =>
    cases hnext
    exact h.refresh vclock
  | setOfflineGid gids cache =>
    cases hnext
    exact h.withNode rfl
  | serverLoading loading =>
    cases hnext
    exact h.withNode rfl
  | incrLocalVcUnit delta =>
    cases hnext
    exact h.keeps (.of_view rfl)
  | mergeVectorClock gid vclock =>
    cases hnext
    exact h.keeps (.of_view rfl)
  | setTombstone db key tombstone =>
    cases hnext
    exact h.withNode rfl
  | gcIfNeeded db key =>
    cases hnext
    exact h.withNode (gcIfNeeded_collects w.node db key).clockView
  | gcCycle paused samples =>
    cases hnext
    exact h.withNode (gcCycle_collects w.node paused samples).clockView

/-- The actions that collect. -/
def GcAct.collects : GcAct Obj → Bool
  | .gcIfNeeded .. | .gcCycle .. => true
  | _ => false

theorem collects_next {w' : GcWorld Obj} {a : GcAct Obj} (ha : a.collects = true)
    (hnext : w.next M a = some w') : Collects M w.node w'.node := by
  cases a with
  | gcIfNeeded db key =>
    cases hnext
    exact gcIfNeeded_collects w.node db key
  | gcCycle paused samples =>
    cases hnext
    exact gcCycle_collects w.node paused samples
  | _ => cases ha

/-- In every run, each gid that was ever configured or seen in an `ack-vc` is in
`peer_set`, unless it is the own one. And whenever a tombstone is collected, its clock is
at most the own clock and at most what each peer in `peer_set` that is not offline has
reported, which is all zeros for a gid without instance; each write of such a peer that
has not been delivered was issued when the peer had seen the delete. -/
theorem collects_stable {w : GcWorld Obj} (hw : (collecting M).Reachable Lib.System.anyStep w) :
    (∀ j, w.named j = true → j.val = w.node.server.crdtGid ∨ w.node.server.peerSet j = true) ∧
    ∀ a w' db key t, a.collects = true → (collecting M).next w a = some w' →
      w.node.deletedKeys db key = some t → w'.node.deletedKeys db key = none →
      M.clockOf t ≤ w.node.server.vectorClock ∧
      ∀ j, w.node.server.peerSet j = true → w.node.offlinePeerSet j = false →
        M.clockOf t ≤ reportedClock (w.reports j) ∧
        (w.node.server.crdtMasters j = none → ∀ g, (M.clockOf t).time g = 0) ∧
        ∀ k m, w.read j ≤ k → (w.peers j).sent[k]? = some m → m.body = .write →
          M.clockOf t ≤ m.stamp := by
  have h : w.Sound := by
    refine hw.invariant (fun w => sound_init) ?_
    intro w a w' hw _ hnext
    exact sound_step hw hnext
  refine ⟨h.counted, ?_⟩
  intro a w' db key t ha hnext ht hgone
  obtain ⟨hown, hpeers⟩ :=
    le_getGcVectorClock_iff.1 ((collects_next ha hnext).removed db key t ht hgone)
  refine ⟨hown, ?_⟩
  intro j hj honline
  have hle := hpeers j hj honline
  refine ⟨(h.reported j) ▸ hle, ?_, ?_⟩
  · intro hnone
    rw [peerClock_of_none hnone] at hle
    exact le_null_iff.1 hle
  · intro k m hk hm _
    exact hle.trans ((h.stable j).unread k m hk hm)

/-- A module whose tombstones are clocks. -/
def clockModule : GcModule VectorClock where
  tombstoneMethod _ := true
  clockOf t := t
  gc t c := decide (t ≤ c)
  gc_iff _ _ := decide_eq_true_iff

/-- Node 1 with the peer 2 in its configuration. -/
def gcStart : GcWorld VectorClock where
  node := ⟨addPeerSet configuredNode slotTwo, fun _ => false, false, fun _ _ => none⟩
  peers := fun _ => .empty VectorClock.null
  read := fun _ => 0
  reports := fun _ => []
  named := fun j => (configuredNode.crdtMasters j).isSome

/-- The clock after the first write of node 1. -/
def firstClock : VectorClock := VectorClock.null.add gidOne 1

/-- Node 1 deletes a key at its time 1. Peer 2 sends a write that does not know of this,
takes note of the delete and sends a `CRDT.OVC`; both are delivered. -/
def deleteSeen : List (GcAct VectorClock) :=
  [.incrLocalVcUnit 1, .setTombstone 0 (ascii "k") (some firstClock), .peerSend slotTwo .write,
    .peerClock slotTwo firstClock, .peerSend slotTwo .ovc, .deliver slotTwo 0, .deliver slotTwo 1]

/-- The tombstone of that key is collected. -/
theorem collects_stable_deleteSeen :
    ∃ w w', (collecting clockModule).Reachable Lib.System.anyStep w ∧
      (collecting clockModule).next w (.gcIfNeeded 0 (ascii "k")) = some w' ∧
      w.node.deletedKeys 0 (ascii "k") = some firstClock ∧
      w'.node.deletedKeys 0 (ascii "k") = none ∧
      firstClock ≤ w.node.server.vectorClock ∧ firstClock ≤ reportedClock (w.reports slotTwo) := by
  have hinit : (collecting clockModule).Reachable Lib.System.anyStep gcStart := by
    refine .init ⟨fun _ => rfl, fun j => by rw [gcStart, addPeerSet_crdtMasters], ?_⟩
    intro j p hp
    have hp' : update loneNode.crdtMasters slotTwo _ j = some p := hp
    by_cases hj : j = slotTwo
    · subst hj
      rw [update_self] at hp'
      cases hp'
      exact ⟨rfl, .inr rfl⟩
    · rw [update_of_ne hj] at hp'
      cases hp'
  have hrun : (((collecting clockModule).run gcStart deleteSeen).any fun w =>
      w.node.deletedKeys 0 (ascii "k") == some firstClock && w.node.server.peerSet slotTwo &&
        !w.node.offlinePeerSet slotTwo &&
        (w.next clockModule (.gcIfNeeded 0 (ascii "k"))).any fun w' =>
          (w'.node.deletedKeys 0 (ascii "k")).isNone) = true := by
    decide +kernel
  obtain ⟨w, hw, hall⟩ := (Option.any_eq_true _ _).1 hrun
  simp only [Bool.and_eq_true, beq_iff_eq, Bool.not_eq_true', Option.any_eq_true,
    isNone_iff_eq_none] at hall
  obtain ⟨⟨⟨ht, hset⟩, honline⟩, w', hnext, hgone⟩ := hall
  have hreach := Lib.System.reachable_of_run hinit hw
  obtain ⟨hown, hpeers⟩ := (collects_stable hreach).2 (.gcIfNeeded 0 (ascii "k")) w' 0 (ascii "k")
    firstClock rfl hnext ht hgone
  exact ⟨w, w', hreach, hnext, ht, hgone, hown, (hpeers slotTwo hset honline).1⟩

end XredisCrdt.Peer
