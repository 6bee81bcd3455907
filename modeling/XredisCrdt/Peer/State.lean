import XredisCrdt.Clock.VectorClock

/-!
# The peers of a node

`crdtServer.crdtMasters` has a slot for each gid; an occupied one holds a
`CRDT_Master_Instance`, what the node knows of that peer and of its link to it.
This module has the state and the functions of `ctrip_crdt_replication.c` that
set up, cut and remove a link.

A handler that indexes `crdtMasters` beyond its end, follows a null pointer or
reads an argument that is not there ends in a `Fault`. `Trace` carries that and
the list of indices into `crdtMasters` that were used.

Left out are sockets, times and logging; the client that stands for a peer carries
the gid of its slot.
-/

namespace XredisCrdt.Peer

open Clock

/-! ## Faults -/

/-- What the source leaves undefined, or what ends the process. -/
inductive Fault
  /-- `crdtMasters[i]` outside of the array. -/
  | index (i : Int)
  /-- A peer that is not configured was followed. -/
  | nullPeer
  /-- The client of a peer that has none was followed. -/
  | nullMaster
  /-- An argument beyond `argc`. -/
  | missingArg
  /-- The gid variable was never set. -/
  | unsetGid
  /-- The text of a clock trips an assertion. -/
  | clockText
  /-- A replication id longer than its buffer. -/
  | replidOverflow
  /-- The payload of a merge is not an object of the module. -/
  | notModule
  /-- The assertion in `getExpire` fails. -/
  | expireWithoutValue
  deriving DecidableEq, Repr

/-- A computation that may end in a fault; `indices` are the indices into
`crdtMasters` it has used. -/
structure Trace (α : Type) where
  indices : List Int
  result : Except Fault α

namespace Trace

variable {α β : Type}

protected def pure (a : α) : Trace α := ⟨[], .ok a⟩

protected def bind (t : Trace α) (f : α → Trace β) : Trace β :=
  match t.result with
  | .ok a => ⟨t.indices ++ (f a).indices, (f a).result⟩
  | .error e => ⟨t.indices, .error e⟩

instance : Monad Trace where
  pure := Trace.pure
  bind := Trace.bind

/-- End in a fault. -/
def fail (e : Fault) : Trace α := ⟨[], .error e⟩

/-- Follow a pointer that may be null. -/
def deref (e : Fault) : Option α → Trace α
  | some a => pure a
  | none => fail e

@[simp] theorem pure_indices (a : α) : (pure a : Trace α).indices = [] := rfl

@[simp] theorem pure_result (a : α) : (pure a : Trace α).result = .ok a := rfl

@[simp] theorem fail_indices (e : Fault) : (fail e : Trace α).indices = [] := rfl

@[simp] theorem fail_result (e : Fault) : (fail e : Trace α).result = .error e := rfl

@[simp] theorem pure_bind (a : α) (f : α → Trace β) : (pure a >>= f) = f a := rfl

@[simp] theorem fail_bind (e : Fault) (f : α → Trace β) : (fail e >>= f) = fail e := rfl

@[simp] theorem deref_some (e : Fault) (a : α) : deref e (some a) = pure a := rfl

@[simp] theorem deref_none (e : Fault) : deref e (none : Option α) = fail e := rfl

theorem bind_of_ok {t : Trace α} {a : α} (h : t.result = .ok a) (f : α → Trace β) :
    (t >>= f).result = (f a).result := by
  show (Trace.bind t f).result = _
  simp only [Trace.bind, h]

theorem bind_of_error {t : Trace α} {e : Fault} (h : t.result = .error e) (f : α → Trace β) :
    (t >>= f).result = .error e := by
  show (Trace.bind t f).result = _
  simp only [Trace.bind, h]

theorem toOption_eq_some {t : Trace α} {a : α} : t.result.toOption = some a ↔ t.result = .ok a := by
  cases t.result with
  | error e => simp [Except.toOption]
  | ok b => simp [Except.toOption]

theorem bind_result_ok {t : Trace α} {f : α → Trace β} {b : β} :
    (t >>= f).result = .ok b ↔ ∃ a, t.result = .ok a ∧ (f a).result = .ok b := by
  show (Trace.bind t f).result = .ok b ↔ _
  unfold Trace.bind
  cases h : t.result with
  | error e => simp
  | ok a => simp

theorem deref_result_ok {e : Fault} {o : Option α} {a : α} :
    (deref e o).result = .ok a ↔ o = some a := by
  cases o <;> simp

end Trace

/-- `check_gid`. -/
def checkGid (gid : Int) : Bool := 0 < toInt gid ∧ toInt gid < 16

/-! ## State -/

/-- `repl_state`; `handshake` stands for the states from `REPL_STATE_RECEIVE_PONG`
to `REPL_STATE_RECEIVE_PSYNC`. -/
inductive ReplState
  | none
  | connect
  | connecting
  | handshake
  | transfer
  | connected
  deriving DecidableEq, Repr

/-- The client that stands for a peer; `replid` is the buffer of 41 bytes. Of the
flags, `crdtMaster` is `CLIENT_CRDT_MASTER`, and `closing` says that one of those is
set with which `freeClient` does not keep the client. -/
structure PeerClient where
  replid : Bytes
  reploff : Int
  readReploff : Int
  db : Int
  crdtMaster : Bool
  closing : Bool
  deriving DecidableEq, Repr

/-- `XPIPE_PROXY_NONE`, `XPIPE_PROXY_TCP`. -/
inductive PointType
  | none
  | tcp
  deriving DecidableEq, Repr

structure Point where
  host : Bytes
  port : Int
  type : PointType
  deriving DecidableEq, Repr

structure XpipeProxy where
  servers : List Point
  serversIndex : Nat
  params : Option Bytes
  inRange : serversIndex < servers.length
  deriving DecidableEq, Repr

/-- `CRDT_Master_Instance`. A peer without proxy has `proxy_type` `NONE_PROXY`;
`lazyTime` says that `lazy_time` is not `NO_LAZY_TIME`. -/
structure PeerMaster where
  masterhost : Bytes
  masterport : Int
  master : Option PeerClient
  cachedMaster : Option PeerClient
  replState : ReplState
  masterReplid : Bytes
  masterInitialOffset : Int
  vectorClock : VectorClock
  dbid : Int
  backstreamVc : VectorClock
  lazyTime : Bool
  proxy : Option XpipeProxy
  deriving DecidableEq

/-- The fields of `crdtServer` and `server` that the peers are about; `iAmMaster` is
the result of the function of that name. -/
@[ext] structure CrdtServer where
  crdtGid : Gid
  iAmMaster : Bool
  vectorClock : VectorClock
  vectorClockCache : VectorClock
  gcVectorClock : VectorClock
  crdtMasters : Fin 16 → Option PeerMaster
  peerSet : Fin 16 → Bool
  loading : Bool
  dirty : Int

/-- The waiting for data that a peer has to send back. -/
def PeerMaster.backstreaming (p : PeerMaster) : Bool := p.backstreamVc.units ≠ []

namespace CrdtServer

def setPeer (s : CrdtServer) (i : Fin 16) (p : Option PeerMaster) : CrdtServer :=
  { s with crdtMasters := Function.update s.crdtMasters i p }

/-- Some configured peer has a `backstream_vc` that is not null. -/
def recovering (s : CrdtServer) : Bool :=
  decide (∃ i, (s.crdtMasters i).any PeerMaster.backstreaming)

theorem recovering_congr {s t : CrdtServer} (h : s.crdtMasters = t.crdtMasters) :
    s.recovering = t.recovering := by
  rw [recovering, recovering, h]

end CrdtServer

/-- The slot that `crdtMasters[gid]` denotes. -/
def slot (gid : Int) : Trace (Fin 16) :=
  if h : 0 ≤ toInt gid ∧ toInt gid < 16 then
    ⟨[toInt gid], .ok ⟨(toInt gid).toNat, by omega⟩⟩
  else ⟨[toInt gid], .error (.index (toInt gid))⟩

theorem slot_result {gid : Int} {i : Fin 16} (h : (slot gid).result = .ok i) :
    ((i : Nat) : Int) = toInt gid := by
  unfold slot at h
  split at h
  · simp only [Except.ok.injEq] at h
    rw [← h]
    simp only
    omega
  · simp at h

/-- `getPeerMaster`. -/
def getPeerMaster (s : CrdtServer) (gid : Int) : Trace (Option PeerMaster) := do
  let i ← slot gid
  pure (s.crdtMasters i)

/-- The own gid is not added. -/
def addPeerSet (s : CrdtServer) (i : Fin 16) : CrdtServer :=
  if (i : Nat) = s.crdtGid then s else { s with peerSet := Function.update s.peerSet i true }

/-! ## Links -/

/-- The instance that `createPeerMaster` makes; the buffer of its replication id is
not initialized. -/
def createPeerMaster (uninitialized : Bytes) : PeerMaster where
  masterhost := []
  masterport := -1
  master := none
  cachedMaster := none
  replState := .none
  masterReplid := uninitialized
  masterInitialOffset := -1
  vectorClock := VectorClock.null
  dbid := 0
  backstreamVc := VectorClock.null
  lazyTime := false
  proxy := none

/-- `crdtCancelReplicationHandshake` on the peer. -/
def PeerMaster.cancelHandshake (p : PeerMaster) : PeerMaster :=
  match p.replState with
  | .transfer => { p with master := none, replState := .connect }
  | .connecting | .handshake => { p with replState := .connect }
  | _ => p

def crdtCancelReplicationHandshake (s : CrdtServer) (gid : Int) : Trace CrdtServer := do
  let i ← slot gid
  match s.crdtMasters i with
  | none => pure s
  | some p => pure (s.setPeer i (some p.cancelHandshake))

/-- `crdtReplicationCacheMaster`. -/
def PeerMaster.cacheMaster (p : PeerMaster) : PeerMaster :=
  { p with
    cachedMaster := p.master.map fun c => { c with readReploff := c.reploff }
    master := none
    replState := .connect }

/-- `freeClient(peer->master)`: the client is kept in `cached_master` unless it is
being closed. One without its flag is freed, and `peer->master` goes on pointing
there. -/
def PeerMaster.freeMaster (p : PeerMaster) : PeerMaster :=
  match p.master with
  | none => p
  | some c =>
    if c.crdtMaster then
      if c.closing then { p with master := none, replState := .connect } else p.cacheMaster
    else p

/-- `tryCleanCrdtServerLoading`. -/
def tryCleanCrdtServerLoading (s : CrdtServer) : CrdtServer :=
  if s.recovering then s else { s with loading := false }

/-- `crdtReplicationSetMaster`, with the slot of the gid. -/
def crdtReplicationSetMaster (s : CrdtServer) (i : Fin 16) (ip : Bytes) (port : Int)
    (uninitialized : Bytes) : CrdtServer :=
  let (s, p) := match s.crdtMasters i with
    | some p => (s, p)
    | none => (addPeerSet s i, createPeerMaster uninitialized)
  let p := { p with masterhost := cstr ip, masterport := toInt port, lazyTime := false }
  let p := if s.iAmMaster then { p.freeMaster.cancelHandshake with replState := .connect } else p
  s.setPeer i (some p)

/-- `crdtReplicationUnsetMaster`, with the slot of the gid. -/
def crdtReplicationUnsetMaster (s : CrdtServer) (i : Fin 16) : CrdtServer :=
  match s.crdtMasters i with
  | none => s
  | some _ => tryCleanCrdtServerLoading (s.setPeer i none)

/-- `cleanSlavePeerBackStream`. -/
def cleanSlavePeerBackStream (s : CrdtServer) : CrdtServer :=
  { s with
    crdtMasters := fun i =>
      (s.crdtMasters i).map fun p => { p with backstreamVc := VectorClock.null }
    loading := false }

/-! ## Own clock -/

/-- `incrLocalVcUnit`. -/
def incrLocalVcUnit (s : CrdtServer) (delta : Int) : CrdtServer :=
  { s with
    vectorClock := s.vectorClock.incr s.crdtGid delta
    vectorClockCache := s.vectorClockCache.incr s.crdtGid delta }

/-- The amount of `jumpVectorClock`: what a day brings, at least a million. -/
def jumpVcu (qps : Nat) : Nat := max (qps * 60 * 60 * 24) 1000000

def jumpVectorClock (s : CrdtServer) (qps : Nat) : CrdtServer := incrLocalVcUnit s (jumpVcu qps)

/-- `refreshGcVectorClock`. -/
def refreshGcVectorClock (s : CrdtServer) (other : VectorClock) : CrdtServer :=
  { s with gcVectorClock := s.gcVectorClock.mergeMin other }

/-- `RM_MergeVectorClock`; a null cache stays null. -/
def mergeVectorClock (s : CrdtServer) (gid : Nat) (vclock : VectorClock) : CrdtServer :=
  let flag : MergeFlag := if gid = s.crdtGid then .align else .max
  refreshGcVectorClock
    { s with
      vectorClock := s.vectorClock.mergeAt vclock gid flag
      vectorClockCache :=
        if s.vectorClockCache.units = [] then s.vectorClockCache
        else s.vectorClockCache.mergeAt vclock gid flag }
    vclock

/-! ## Runs on fixed inputs -/

/-- The own gid in runs on fixed inputs. -/
def gidOne : Gid := ⟨1, by decide⟩

/-- The slot of the peer in runs on fixed inputs. -/
def slotTwo : Fin 16 := ⟨2, by decide⟩

end XredisCrdt.Peer
