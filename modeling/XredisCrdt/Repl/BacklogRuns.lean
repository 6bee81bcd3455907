import XredisCrdt.Lib.System
import XredisCrdt.Repl.Servers

/-!
# Faithfulness of the backlogs along every run

The runs of a node as far as its two backlogs are concerned: attaching slaves
and peers, feeding, resizing and freeing, full and partial resynchronization as
a slave, promotion. The history that each server is in is carried along as a
ghost: feeding continues it, and loading an offset from an RDB file or taking it
over from a master replaces it.
-/

namespace XredisCrdt.Repl

open Lib.RingBuffer

/-- The byte that `addReplyReplicationBacklog` would read for an offset of the
window is the byte that the history has there. -/
def BacklogFaithful (srv : ReplServer) (hist : Int → UInt8) : Prop :=
  ∀ mem, srv.replBacklog = some mem →
    srv.replBacklogOff + srv.replBacklogHistlen = srv.masterReplOffset + 1 ∧
      srv.replBacklogHistlen ≤ srv.replBacklogSize ∧
      ∀ o, srv.replBacklogOff ≤ o → o < srv.replBacklogOff + srv.replBacklogHistlen →
        mem (backlogCell srv o).toNat = hist o

/-! ## One server -/

/-- The inductive form of `BacklogFaithful`. -/
structure Sound (srv : ReplServer) (hist : Int → UInt8) : Prop where
  size_pos : 0 < srv.replBacklogSize
  inv : ∀ mem, srv.replBacklog = some mem → BacklogInv srv hist mem

theorem Sound.faithful {srv : ReplServer} {hist : Int → UInt8} (h : Sound srv hist) :
    BacklogFaithful srv hist := by
  intro mem hmem
  have hinv := h.inv mem hmem
  have hoff := hinv.off_eq
  refine ⟨hoff, hinv.histlen_le, ?_⟩
  intro o hlo hhi
  obtain ⟨d, hd⟩ : ∃ d : Nat, o = srv.masterReplOffset + 1 - d :=
    ⟨(srv.masterReplOffset + 1 - o).toNat, by omega⟩
  rw [hd, backlogCell_eq hinv (by omega), Int.toNat_natCast]
  exact hinv.bytes d (by omega) (by omega)

theorem sound_of_null {srv : ReplServer} (hist : Int → UInt8) (hsize : 0 < srv.replBacklogSize)
    (hnull : srv.replBacklog = none) : Sound srv hist :=
  ⟨hsize, fun mem hmem => by rw [hnull] at hmem; cases hmem⟩

theorem Sound.free {srv : ReplServer} {hist : Int → UInt8} (h : Sound srv hist)
    (hist' : Int → UInt8) : Sound (freeReplicationBacklog srv) hist' :=
  sound_of_null hist' h.size_pos rfl

theorem sound_emptyBacklog {srv : ReplServer} (hist : Int → UInt8)
    (hsize : 0 < srv.replBacklogSize) : Sound srv.emptyBacklog hist := by
  refine ⟨hsize, ?_⟩
  intro mem hmem
  obtain rfl : zmalloc = mem := Option.some.inj hmem
  exact emptyBacklog_inv hsize hist

theorem Sound.create {srv : ReplServer} {hist : Int → UInt8} (h : Sound srv hist) :
    Sound (createServerReplicationBacklog srv) hist := by
  unfold createServerReplicationBacklog
  split
  · exact sound_emptyBacklog hist h.size_pos
  · exact h

/-- Ids are not part of the backlog. -/
theorem Sound.withIds {srv : ReplServer} {hist : Int → UInt8} (h : Sound srv hist)
    (replid replid2 : Bytes) (second : Int) :
    Sound { srv with replid := replid, replid2 := replid2, secondReplidOffset := second } hist :=
  ⟨h.size_pos, fun mem hmem => by
    have hinv := h.inv mem hmem
    exact ⟨hinv.idx_lt, hinv.histlen_le, hinv.off_eq, hinv.bytes⟩⟩

theorem Sound.resize {srv : ReplServer} {hist : Int → UInt8} (h : Sound srv hist)
    (newsize : Nat) : Sound (resizeReplicationBacklog srv newsize) hist := by
  have hpos : 0 < if newsize < configReplBacklogMinSize then configReplBacklogMinSize
      else newsize := by
    have : 0 < configReplBacklogMinSize := by decide
    split <;> omega
  unfold resizeReplicationBacklog
  generalize (if newsize < configReplBacklogMinSize then configReplBacklogMinSize
    else newsize) = n at hpos
  simp only
  split
  · exact h
  · split
    · exact sound_emptyBacklog hist hpos
    · rename_i hnull
      exact sound_of_null hist hpos (by simpa using hnull)

theorem Sound.feed {srv srv' : ReplServer} {hist : Int → UInt8} {p : Bytes} (h : Sound srv hist)
    (hfeed : feedReplicationBacklog srv p = some srv') :
    Sound srv' (extend hist srv.masterReplOffset p) := by
  obtain ⟨mem, hmem, rfl⟩ := Option.map_eq_some_iff.mp hfeed
  obtain ⟨mem', hmem', hinv'⟩ := feedAllocated_inv (h.inv mem hmem) p
  refine ⟨h.size_pos, ?_⟩
  intro mem'' hmem''
  obtain rfl : mem' = mem'' := Option.some.inj (hmem'.symm.trans hmem'')
  exact hinv'

/-! ## Both servers -/

/-- Both backlogs are sound for the histories of their servers. -/
def BothSound (s : Servers) (hist : Kind → Int → UInt8) : Prop :=
  ∀ k, Sound (s.get k) (hist k)

/-- A step on the pair keeps soundness if it does so on each server. -/
theorem bothSound_mk {s : Servers} {hist : Kind → Int → UInt8}
    (hserver : Sound s.server (hist .server)) (hcrdt : Sound s.crdtServer (hist .crdtServer)) :
    BothSound s hist := by
  intro k
  cases k with
  | server => exact hserver
  | crdtServer => exact hcrdt

variable {s : Servers} {hist : Kind → Int → UInt8}

theorem BothSound.create (h : BothSound s hist) : BothSound (createReplicationBacklog s) hist :=
  bothSound_mk (h .server).create (h .crdtServer).create

theorem BothSound.update (h : BothSound s hist) (k : Kind) {f : ReplServer → ReplServer}
    (hf : Sound (s.get k) (hist k) → Sound (f (s.get k)) (hist k)) :
    BothSound (s.update k f) hist := by
  cases k with
  | server => exact bothSound_mk (hf (h .server)) (h .crdtServer)
  | crdtServer => exact bothSound_mk (h .server) (hf (h .crdtServer))

theorem BothSound.free (h : BothSound s hist) (k : Kind) :
    BothSound (s.update k freeReplicationBacklog) hist :=
  h.update k fun hk => hk.free _

theorem BothSound.clear (h : BothSound s hist) (k : Kind) :
    BothSound (s.update k clearReplicationId2) hist :=
  h.update k fun hk => hk.withIds _ _ _

theorem BothSound.changeId (h : BothSound s hist) (k : Kind) (newid : Bytes) :
    BothSound (changeReplicationId s k newid) hist := by
  cases k with
  | server => exact h.update .server fun hk => hk.withIds _ _ _
  | crdtServer => exact h.update .crdtServer fun hk => hk.withIds _ _ _

theorem BothSound.renew (h : BothSound s hist) (newid : Bytes) :
    BothSound (renewReplicationIds s newid) hist :=
  (((h.changeId .server newid).changeId .crdtServer newid).clear .server).clear .crdtServer

theorem BothSound.shift (h : BothSound s hist) (k : Kind) (newid : Bytes) :
    BothSound (shiftReplicationId s k newid) hist :=
  (h.update k fun hk => hk.withIds _ _ _).changeId k newid

theorem BothSound.attach (h : BothSound s hist) (k : Kind) (first : Bool) (newid : Bytes) :
    BothSound (refullSyncWithSlaves s k first newid) hist := by
  unfold refullSyncWithSlaves
  split
  · exact (h.renew newid).create
  · split
    · exact h.create
    · exact h

theorem BothSound.crdtSlaveContinue (h : BothSound s hist) :
    BothSound (crdtSlaveContinue s) hist := by
  unfold Repl.crdtSlaveContinue
  split
  · exact h.create
  · exact h

theorem BothSound.createIfNull (h : BothSound s hist) :
    BothSound (if s.server.replBacklog.isNone then createReplicationBacklog s else s) hist := by
  split
  · exact h.create
  · exact h

theorem BothSound.slaveContinue (h : BothSound s hist) (same : Bool) (cachedId : Bytes)
    (new : Option Bytes) : BothSound (slaveContinue s same cachedId new) hist := by
  have hshift : ∀ new : Bytes, BothSound
      { server := { s.server with
          replid2 := cachedId, secondReplidOffset := s.server.masterReplOffset + 1, replid := new }
        crdtServer := { s.crdtServer with
          replid2 := cachedId, secondReplidOffset := s.crdtServer.masterReplOffset + 1,
          replid := new } } hist := fun new =>
    bothSound_mk ((h .server).withIds _ _ _) ((h .crdtServer).withIds _ _ _)
  unfold Repl.slaveContinue
  apply BothSound.createIfNull
  cases new with
  | none => exact h
  | some new =>
    simp only
    split
    · exact hshift new
    · exact h

theorem BothSound.syncStart (h : BothSound s hist) (same : Bool) :
    BothSound (syncWithMasterFullResync s same) hist := by
  unfold syncWithMasterFullResync
  split
  · exact h.free .server
  · exact h

/-! ## Runs -/

/-- A node with the histories that its two servers are in. -/
structure BacklogNode where
  servers : Servers
  hist : Kind → Int → UInt8

/-- What can happen to the backlogs. The actions that replace a history carry the
new one. -/
inductive BacklogAct
  | create
  | resize (k : Kind) (newsize : Nat)
  | refullsync
  | crdtCronFree (newid : Bytes)
  | cronFree (newid : Bytes)
  | attach (k : Kind) (first : Bool) (newid : Bytes)
  | peerContinue
  | feed (k : Kind) (p : Bytes)
  | slaveContinue (same : Bool) (cachedId : Bytes) (new : Option Bytes)
  | syncStart (same : Bool)
  | bulkRead (same : Bool) (eof : Option SyncEof) (hist : Kind → Int → UInt8)
  | unsetMaster (newid : Bytes)
  | backstreamReset (newid : Bytes)

/-- The history of a server when the last read of a full resynchronization has
been processed: taken over where an offset was. -/
def histAfterSync (same : Bool) (eof : Option SyncEof) (old new : Kind → Int → UInt8) :
    Kind → Int → UInt8
  | .server =>
    if same ∧ (eof.bind SyncEof.loaded).isSome then new .server else old .server
  | .crdtServer =>
    if (eof.bind fun e => e.aux.crdtReplOffset).isSome then new .crdtServer else old .crdtServer

def backlogNext (n : BacklogNode) : BacklogAct → Option BacklogNode
  | .create => some { n with servers := createReplicationBacklog n.servers }
  | .resize k newsize =>
    some { n with servers := n.servers.update k (resizeReplicationBacklog · newsize) }
  | .refullsync => some { n with servers := refullsyncCommand n.servers }
  | .crdtCronFree newid => some { n with servers := crdtReplicationCronFree n.servers newid }
  | .cronFree newid => some { n with servers := replicationCronFree n.servers newid }
  | .attach k first newid =>
    some { n with servers := refullSyncWithSlaves n.servers k first newid }
  | .peerContinue => some { n with servers := crdtSlaveContinue n.servers }
  | .feed k p =>
    (feedReplicationBacklog (n.servers.get k) p).map fun srv =>
      { servers := n.servers.update k fun _ => srv
        hist := Function.update n.hist k
          (extend (n.hist k) (n.servers.get k).masterReplOffset p) }
  | .slaveContinue same cachedId new =>
    some { n with servers := slaveContinue n.servers same cachedId new }
  | .syncStart same => some { n with servers := syncWithMasterFullResync n.servers same }
  | .bulkRead same eof hist =>
    some { servers := readSyncBulkPayload n.servers same eof
           hist := histAfterSync same eof n.hist hist }
  | .unsetMaster newid => some { n with servers := replicationUnsetMaster n.servers newid }
  | .backstreamReset newid => some { n with servers := backstreamReset n.servers newid }

/-- After the start of the process, RDB file loaded, no backlog exists. -/
def backlogSystem : Lib.System BacklogNode BacklogAct where
  init n := ∀ k, (n.servers.get k).replBacklog = none ∧ 0 < (n.servers.get k).replBacklogSize
  next := backlogNext

/-- `crdt-repl-offset` is loaded only while `crdtServer` has no backlog, or with
the offset and the history that the backlog holds. -/
def LoadsWithoutBacklog (n : BacklogNode) : BacklogAct → Prop
  | .bulkRead _ (some e) hist =>
    ∀ offset, e.aux.crdtReplOffset = some offset →
      n.servers.crdtServer.replBacklog = none ∨
      (offset = n.servers.crdtServer.masterReplOffset ∧
        ∀ o, n.servers.crdtServer.replBacklogOff ≤ o →
          o ≤ n.servers.crdtServer.masterReplOffset →
          hist .crdtServer o = n.hist .crdtServer o)
  | _ => True

/-! ## Every step keeps both backlogs sound -/

/-- Taking over an offset is harmless without a backlog, or when nothing changes
inside its window. -/
theorem Sound.loadOffset {srv : ReplServer} {hist hist' : Int → UInt8} (h : Sound srv hist)
    (replid : Bytes) {offset : Int}
    (hok : srv.replBacklog = none ∨ (offset = srv.masterReplOffset ∧ ∀ o,
      srv.replBacklogOff ≤ o → o ≤ srv.masterReplOffset → hist' o = hist o)) :
    Sound { srv with replid := replid, masterReplOffset := offset } hist' := by
  rcases hok with hnull | ⟨rfl, hsame⟩
  · exact sound_of_null hist' h.size_pos hnull
  · refine ⟨h.size_pos, ?_⟩
    intro mem hmem
    have hinv := (h.inv mem hmem).congr hsame
    exact ⟨hinv.idx_lt, hinv.histlen_le, hinv.off_eq, hinv.bytes⟩

theorem BothSound.loadAux (h : BothSound s hist) {e : SyncEof} {new : Kind → Int → UInt8}
    (hok : ∀ offset, e.aux.crdtReplOffset = some offset →
      s.crdtServer.replBacklog = none ∨ (offset = s.crdtServer.masterReplOffset ∧
      ∀ o, s.crdtServer.replBacklogOff ≤ o → o ≤ s.crdtServer.masterReplOffset →
      new .crdtServer o = hist .crdtServer o)) :
    Sound (rdbLoadCrdtInfoAuxFields s e.aux).crdtServer
      (if e.aux.crdtReplOffset.isSome then new .crdtServer else hist .crdtServer) := by
  have hcrdt : Sound s.crdtServer (hist .crdtServer) := h .crdtServer
  cases hoff : e.aux.crdtReplOffset with
  | none => exact hcrdt.loadOffset _ (.inr ⟨by rw [hoff]; rfl, fun o _ _ => rfl⟩)
  | some offset => exact hcrdt.loadOffset _ (by rw [hoff]; exact hok offset hoff)

theorem BothSound.bulkRead (h : BothSound s hist) (same : Bool) {eof : Option SyncEof}
    {new : Kind → Int → UInt8}
    (hok : ∀ e, eof = some e → ∀ offset,
      e.aux.crdtReplOffset = some offset → s.crdtServer.replBacklog = none ∨
      (offset = s.crdtServer.masterReplOffset ∧ ∀ o, s.crdtServer.replBacklogOff ≤ o →
      o ≤ s.crdtServer.masterReplOffset → new .crdtServer o = hist .crdtServer o)) :
    BothSound (readSyncBulkPayload s same eof) (histAfterSync same eof hist new) := by
  have hserver : Sound s.server (hist .server) := h .server
  cases eof with
  | none =>
    -- a read in the middle of the file at most frees the backlog of the slaves
    cases same with
    | true => exact bothSound_mk (hserver.free _) (h .crdtServer)
    | false => exact bothSound_mk hserver (h .crdtServer)
  | some e =>
    have hcrdt := h.loadAux (hok e rfl)
    obtain ⟨aux, loaded⟩ := e
    cases loaded with
    | none =>
      cases same with
      | true => exact bothSound_mk (hserver.free _) hcrdt
      | false => exact bothSound_mk hserver hcrdt
    | some m =>
      cases same with
      | true =>
        -- the offset of `server` changes while its backlog is freed
        refine BothSound.createIfNull (bothSound_mk ?_ ?_)
        · exact sound_of_null _ hserver.size_pos rfl
        · exact hcrdt.withIds _ _ _
      | false => exact BothSound.createIfNull (bothSound_mk hserver hcrdt)

theorem backlogNext_sound {n n' : BacklogNode} {a : BacklogAct}
    (h : BothSound n.servers n.hist) (hok : LoadsWithoutBacklog n a)
    (hnext : backlogNext n a = some n') : BothSound n'.servers n'.hist := by
  cases a with
  | create => cases hnext; exact h.create
  | resize k newsize => cases hnext; exact h.update k fun hk => hk.resize newsize
  | refullsync => cases hnext; exact h.free .server
  | crdtCronFree newid =>
    cases hnext
    exact ((h.renew newid).free .server).free .crdtServer
  | cronFree newid =>
    cases hnext
    exact ((h.changeId .server newid).clear .server).free .server
  | attach k first newid => cases hnext; exact h.attach k first newid
  | peerContinue => cases hnext; exact h.crdtSlaveContinue
  | feed k p =>
    obtain ⟨srv, hfeed, rfl⟩ := Option.map_eq_some_iff.mp hnext
    have hk := (h k).feed hfeed
    cases k with
    | server => exact bothSound_mk hk (h .crdtServer)
    | crdtServer => exact bothSound_mk (h .server) hk
  | slaveContinue same cachedId new => cases hnext; exact h.slaveContinue same cachedId new
  | syncStart same => cases hnext; exact h.syncStart same
  | bulkRead same eof new =>
    cases hnext
    refine h.bulkRead same ?_
    rintro e rfl offset hoff
    exact hok offset hoff
  | unsetMaster newid => cases hnext; exact (h.shift .server newid).shift .crdtServer newid
  | backstreamReset newid => cases hnext; exact (h.changeId .server newid).clear .server

/-- In every run in which `crdt-repl-offset` is never loaded over a backlog of
another history, both backlogs are faithful in every state. -/
theorem backlogs_faithful {n : BacklogNode}
    (h : backlogSystem.Reachable LoadsWithoutBacklog n) (k : Kind) :
    BacklogFaithful (n.servers.get k) (n.hist k) := by
  have hsound : BothSound n.servers n.hist := by
    refine h.invariant (P := fun n => BothSound n.servers n.hist) ?_ ?_
    · intro n hinit k
      exact sound_of_null _ (hinit k).2 (hinit k).1
    · intro n a n' hn hok hnext
      exact backlogNext_sound hn hok hnext
  exact (hsound k).faithful

/-- A node as it comes up, with rings of four bytes. -/
def freshNode : BacklogNode where
  servers :=
    { server := ⟨ascii "a", ascii "0", 0, -1, none, 4, 0, 0, 0⟩
      crdtServer := ⟨ascii "a", ascii "0", 0, -1, none, 4, 0, 0, 0⟩ }
  hist := fun _ _ => 0

theorem freshNode_init : backlogSystem.init freshNode := by
  intro k
  cases k <;> exact ⟨rfl, by decide⟩

/-- A peer attaches and five bytes are fed: the ring of four is full. -/
theorem backlogs_faithful_five_bytes : ∃ n, backlogSystem.run freshNode
        [.attach .crdtServer true (ascii "b"), .feed .crdtServer [1, 2, 3, 4, 5]] = some n ∧
      n.servers.crdtServer.replBacklogHistlen = 4 ∧
      BacklogFaithful n.servers.crdtServer (n.hist .crdtServer) := by
  refine ⟨_, rfl, by decide, ?_⟩
  exact backlogs_faithful
    (.step (.step (.init freshNode_init) (a := .attach .crdtServer true (ascii "b")) trivial rfl)
      (a := .feed .crdtServer [1, 2, 3, 4, 5]) trivial rfl) .crdtServer

/-- The last read of a full resynchronization whose file has `crdt-repl-offset` 5. -/
def resyncEof : SyncEof where
  aux := { crdtReplId := none, crdtReplOffset := some 5 }
  loaded := some (ascii "m", 7)

/-- A master with a peer backlog of one byte becomes a slave and is fully
resynchronized: `crdtServer` is at offset 5 while its backlog still ends at 1. -/
theorem crdt_backlog_unfaithful : ¬ ∀ n, backlogSystem.Reachable Lib.System.anyStep n →
      ∀ k, BacklogFaithful (n.servers.get k) (n.hist k) := by
  intro h
  have hrun : backlogSystem.run freshNode
      [.attach .crdtServer true (ascii "b"), .feed .crdtServer [1], .syncStart true,
        .bulkRead true (some resyncEof) fun _ _ => 0] = some _ := rfl
  have hreach := Lib.System.reachable_of_run (.init freshNode_init) hrun
  have hbad := (h _ hreach .crdtServer _ rfl).1
  exact absurd hbad (by decide)

end XredisCrdt.Repl
