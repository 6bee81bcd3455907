import XredisCrdt.Lib.System
import XredisCrdt.Repl.Servers

/-!
# One replication identity for two servers

`crdtServer` is to share `replid` and `replid2` with `server`. The functions of
`Repl.Servers` that assign ids are put together here to what a node does: `SLAVEOF`,
the answers of its master, the cron jobs, saving, and starting again from the file
that it has saved or that its master has sent.

The random ids that a step draws are arguments of the step, and so are the clocks that
`peerBackStream` compares. A file that cannot be read to its end ends the process, so
a load that fails has read no field. `crdt_enabled` is 1.
-/

namespace XredisCrdt.Repl

open Option

/-! ## A node -/

/-- What an RDB file says of replication: the fields of `crdtServer`, and `repl-id`,
`repl-offset` and `repl-stream-db`, if they were written; `nullDb` says that it has no
keys. -/
structure RdbFile where
  aux : RdbAux
  rsi : Option (Bytes × Int × Int)
  nullDb : Bool

/-- A node: its servers, `masterhost` and `masterport`, the ids of `server.master` and
`server.cached_master`, what `+FULLRESYNC` said, `isNullDb()`, the result of
`get_min_backstream_vcu()`, and the file on its disk. -/
structure Node where
  servers : Servers
  masterhost : Option (Bytes × Int)
  masterIsCrdt : Bool
  master : Option Bytes
  cachedMaster : Option Bytes
  masterReplid : Bytes
  masterInitialOffset : Int
  nullDb : Bool
  minBackstreamVcu : Int
  disk : Option RdbFile

namespace Node

/-- `iAmMaster() == C_OK`. -/
def iAmMaster (n : Node) : Bool := !n.masterIsCrdt || n.masterhost.isNone

def withServers (n : Node) (s : Servers) : Node := { n with servers := s }

/-- `freeClient` of the link to the master keeps the client. -/
def cacheMaster (n : Node) : Node :=
  { n with master := none, cachedMaster := n.master.or n.cachedMaster }

/-- `replicationSetMaster`. -/
def replicationSetMaster (n : Node) (host : Bytes) (port : Int) : Node :=
  let n' := { n.cacheMaster with masterhost := some (host, port) }
  if n.masterhost.isNone then { n' with cachedMaster := some n.servers.server.replid } else n'

/-- `replicationUnsetMaster`. -/
def replicationUnsetMaster (n : Node) (newid : Bytes) : Node :=
  { n with
    masterhost := none
    masterIsCrdt := true
    servers := Repl.replicationUnsetMaster n.servers newid
    master := none
    cachedMaster := none }

/-- `SLAVEOF host port`. -/
def slaveofCommand (n : Node) (host : Bytes) (port : Int) : Node :=
  match n.masterhost with
  | some (host', port') =>
    if strcaseeq host' host && port' = port then n else n.replicationSetMaster host port
  | none => n.replicationSetMaster host port

/-- The node loses its data set to get it back from peers. -/
def wipes (n : Node) : Bool := n.masterhost.isSome && n.minBackstreamVcu = 0 && !n.nullDb

/-- `SLAVEOF NO ONE`. -/
def slaveofNoOne (n : Node) (newid resetId : Bytes) : Node :=
  if n.masterhost.isNone then n
  else
    let n' := n.replicationUnsetMaster newid
    if n.wipes then
      { n' with servers := backstreamReset n'.servers resetId, nullDb := true }
    else n'

/-- `XSLAVEOF NO ONE`. -/
def xslaveofNoOne (n : Node) (newid : Bytes) : Node :=
  if n.masterhost.isNone then n else n.replicationUnsetMaster newid

/-- `rdbSaveInfoAuxFields` with what `rdbPopulateSaveInfo` yields; `streamDb` is the
database that is selected in the stream to the slaves or from the master. -/
def savedFile (n : Node) (streamDb : Nat) : RdbFile where
  aux :=
    { crdtReplId := some n.servers.crdtServer.replid
      crdtReplOffset := some n.servers.crdtServer.masterReplOffset }
  rsi :=
    if n.iAmMaster && n.servers.server.replBacklog.isSome || n.master.isSome ||
        n.cachedMaster.isSome then
      some (n.servers.server.replid, n.servers.server.masterReplOffset, streamDb)
    else none
  nullDb := n.nullDb

end Node

/-- The id for `server` in a file, as `loadDataFromDisk` takes it: only in a node that
starts as a slave. The exit of `verifyRdbType`, for a file that is not of the CRDT type, is
left out. -/
def RdbFile.serverId (f : RdbFile) (masterhost : Option (Bytes × Int)) : Option (Bytes × Int) :=
  match f.rsi with
  | some (id, offset, db) =>
    if masterhost.isSome ∧ id.length = 40 ∧ offset ≠ -1 ∧ db ≠ -1 then some (id, offset) else none
  | none => none

/-- The id for `crdtServer` in a file. -/
def RdbFile.crdtId (f : RdbFile) : Option Bytes := f.aux.crdtReplId.filter fun id => id.length = 40

/-- The start of a process. -/
structure Boot where
  masterhost : Option (Bytes × Int)
  newid : Bytes
  resetId : Bytes
  /-- The own clock at the peers, and the one in the file. -/
  maxVcu : Int
  processVcu : Int

/-- `initServerConfig`, for both servers. -/
def initServers (s : Servers) (newid : Bytes) : Servers :=
  let blank (srv : ReplServer) : ReplServer :=
    { srv with
      masterReplOffset := 0
      replBacklog := none
      replBacklogHistlen := 0
      replBacklogIdx := 0
      replBacklogOff := 0 }
  renewReplicationIds { server := blank s.server, crdtServer := blank s.crdtServer } newid

/-- `loadDataFromDisk`. -/
def loadDataFromDisk (s : Servers) (masterhost : Option (Bytes × Int)) (f : RdbFile) : Servers :=
  let s := rdbLoadCrdtInfoAuxFields s f.aux
  match f.serverId masterhost with
  | some (id, offset) =>
    s.update .server fun srv => { srv with replid := id, masterReplOffset := offset }
  | none => s

/-- `peerBackStream` drops the data set of a master that is behind what its peers have
from it. -/
def Boot.wipes (b : Boot) (disk : Option RdbFile) : Bool :=
  b.masterhost.isNone && disk.any (fun f => !f.nullDb) && b.processVcu < b.maxVcu

/-- A new process with the file on the disk. -/
def Node.boot (n : Node) (b : Boot) : Node :=
  let fresh := initServers n.servers b.newid
  let s := match n.disk with
    | some f => loadDataFromDisk fresh b.masterhost f
    | none => fresh
  { n with
    servers := if b.wipes n.disk then backstreamReset s b.resetId else s
    masterhost := b.masterhost
    masterIsCrdt := true
    master := none
    cachedMaster := (n.disk.bind fun f => f.serverId b.masterhost).map Prod.fst
    nullDb := b.wipes n.disk || n.disk.all RdbFile.nullDb }

/-! ## Runs -/

inductive NodeAct
  | slaveof (host : Bytes) (port : Int)
  | slaveofNoOne (newid resetId : Bytes)
  | xslaveofNoOne (newid : Bytes)
  /-- The handshake has found out what the master is. -/
  | masterIsCrdt (crdt : Bool)
  | masterContinue (new : Option Bytes)
  /-- The id is `none` after a malformed answer. -/
  | masterFullResync (replid : Option (Bytes × Int))
  | transferRead
  /-- The last read of the transfer; a file that is not loaded is refused at its start. -/
  | transferEnd (file : RdbFile) (loaded : Bool)
  | masterLost
  | refullsync
  | cronFree (newid : Bytes)
  | attach (k : Kind) (first : Bool) (newid : Bytes)
  | peerContinue
  | debugChangeReplId (newid : Bytes)
  | save (streamDb : Nat)
  /-- Writes, and whatever happens to peers. -/
  | world (nullDb : Bool) (minBackstreamVcu : Int)
  | restart (b : Boot)

namespace Node

/-- `isSameTypeWithMaster() == C_OK`. -/
def sameType (n : Node) : Bool := n.masterIsCrdt

/-- A master that is no CRDT node writes no fields for `crdtServer`. -/
def accepts (n : Node) (file : RdbFile) : Bool := n.masterIsCrdt || file.aux.crdtReplId.isNone

/-- The end of a transfer. Left out is the type of the file (`verifyRdbType`): one that is
not of the CRDT type stays on the disk here, while the source removes it. -/
def transferEnd (n : Node) (file : RdbFile) (loaded : Bool) : Node :=
  if loaded then
    { n with
      servers := readSyncBulkPayload n.servers n.sameType
        (some ⟨file.aux, some (n.masterReplid, n.masterInitialOffset)⟩)
      master := some n.masterReplid
      cachedMaster := none
      nullDb := file.nullDb
      disk := some file }
  else
    { n with
      servers := readSyncBulkPayload n.servers n.sameType (some ⟨⟨none, none⟩, none⟩)
      nullDb := true
      disk := some file }

def next (n : Node) : NodeAct → Option Node
  | .slaveof host port => some (n.slaveofCommand host port)
  | .slaveofNoOne newid resetId => some (n.slaveofNoOne newid resetId)
  | .xslaveofNoOne newid => some (n.xslaveofNoOne newid)
  | .masterIsCrdt crdt => if n.masterhost.isSome then some { n with masterIsCrdt := crdt } else none
  | .masterContinue new =>
    match n.masterhost, n.cachedMaster with
    | some _, some cachedId =>
      some
        { n.withServers (slaveContinue n.servers n.sameType cachedId new) with
          master := some (new.getD cachedId)
          cachedMaster := none }
    | _, _ => none
  | .masterFullResync replid =>
    if n.masterhost.isSome then
      some
        { n.withServers (syncWithMasterFullResync n.servers n.sameType) with
          cachedMaster := none
          masterReplid := (replid.map Prod.fst).getD []
          masterInitialOffset := (replid.map Prod.snd).getD n.masterInitialOffset }
    else none
  | .transferRead =>
    if n.masterhost.isSome then
      some (n.withServers (readSyncBulkPayload n.servers n.sameType none))
    else none
  | .transferEnd file loaded =>
    if n.masterhost.isSome && n.accepts file then some (n.transferEnd file loaded) else none
  | .masterLost => some n.cacheMaster
  | .refullsync => some (n.withServers (refullsyncCommand n.servers))
  | .cronFree newid =>
    if n.iAmMaster && n.servers.server.replBacklog.isSome &&
        n.servers.crdtServer.replBacklog.isSome then
      some (n.withServers (crdtReplicationCronFree n.servers newid))
    else none
  | .attach k first newid => some (n.withServers (refullSyncWithSlaves n.servers k first newid))
  | .peerContinue => some (n.withServers (crdtSlaveContinue n.servers))
  | .debugChangeReplId newid => some (n.withServers (renewReplicationIds n.servers newid))
  | .save streamDb => some { n with disk := some (n.savedFile streamDb) }
  | .world nullDb minBackstreamVcu =>
    some { n with nullDb := nullDb, minBackstreamVcu := minBackstreamVcu }
  | .restart b => some (n.boot b)

end Node

/-- Both servers have the same ids. -/
def Servers.Shares (s : Servers) : Prop :=
  s.server.replid = s.crdtServer.replid ∧ s.server.replid2 = s.crdtServer.replid2

instance (s : Servers) : Decidable s.Shares := inferInstanceAs (Decidable (_ ∧ _))

/-- Runs of a node that is started for the first time. -/
def identity : Lib.System Node NodeAct where
  init n := ∃ (n₀ : Node) (b : Boot), n₀.disk = none ∧ n = n₀.boot b
  next := Node.next

/-- A step that neither drops the data set to recover it nor starts from a file that has
an id for one of the servers only, or different ones. -/
def keepsIdentity (n : Node) : NodeAct → Bool
  | .slaveofNoOne _ _ => !n.wipes
  | .restart b =>
    !b.wipes n.disk && n.disk.all fun f => (f.serverId b.masterhost).map Prod.fst = f.crdtId
  | _ => true

/-! ## The functions one by one -/

namespace Servers

variable {s t : Servers}

/-- The ids are the same in `s` and `t`. -/
structure SameIds (s t : Servers) : Prop where
  server : t.server.replid = s.server.replid ∧ t.server.replid2 = s.server.replid2
  crdtServer : t.crdtServer.replid = s.crdtServer.replid ∧
    t.crdtServer.replid2 = s.crdtServer.replid2

theorem SameIds.shares (h : SameIds s t) (hs : s.Shares) : t.Shares := by
  obtain ⟨⟨h₁, h₂⟩, h₃, h₄⟩ := h
  exact ⟨by rw [h₁, h₃, hs.1], by rw [h₂, h₄, hs.2]⟩

end Servers

section functions

variable {s : Servers} {newid : Bytes}

theorem createServerReplicationBacklog_ids (srv : ReplServer) :
    (createServerReplicationBacklog srv).replid = srv.replid ∧
      (createServerReplicationBacklog srv).replid2 = srv.replid2 := by
  unfold createServerReplicationBacklog
  split <;> exact ⟨rfl, rfl⟩

theorem sameIds_createReplicationBacklog (s : Servers) : s.SameIds (createReplicationBacklog s) :=
  ⟨createServerReplicationBacklog_ids s.server, createServerReplicationBacklog_ids s.crdtServer⟩

theorem sameIds_freeServer (s : Servers) : s.SameIds (s.update .server freeReplicationBacklog) :=
  ⟨⟨rfl, rfl⟩, rfl, rfl⟩

theorem shares_renewReplicationIds (s : Servers) (newid : Bytes) :
    (renewReplicationIds s newid).Shares := ⟨rfl, rfl⟩

/-- A missing backlog is created for both servers; that does not touch ids. -/
theorem shares_createIf {c : Bool} (h : s.Shares) :
    (if c then createReplicationBacklog s else s).Shares := by
  split
  · exact (sameIds_createReplicationBacklog s).shares h
  · exact h

theorem shares_refullSyncWithSlaves (k : Kind) (first : Bool) (h : s.Shares) :
    (refullSyncWithSlaves s k first newid).Shares := by
  unfold refullSyncWithSlaves
  split
  · exact (sameIds_createReplicationBacklog _).shares (shares_renewReplicationIds s newid)
  · exact shares_createIf h

theorem shares_slaveContinue (same : Bool) (cachedId : Bytes) (new : Option Bytes) (h : s.Shares) :
    (slaveContinue s same cachedId new).Shares := by
  unfold slaveContinue
  apply shares_createIf
  cases new with
  | none => exact h
  | some new =>
    -- both servers get the new id, and the one of the cached client as second id
    dsimp only
    split
    · exact ⟨rfl, rfl⟩
    · exact h

/-- The second ids are drawn from the first ones, and the new first id of `crdtServer` is
that of `server`. -/
theorem shares_replicationUnsetMaster (h : s.Shares) : (replicationUnsetMaster s newid).Shares :=
  ⟨rfl, h.1⟩

theorem shares_freeIf {same : Bool} (h : s.Shares) :
    (if same then s.update .server freeReplicationBacklog else s).Shares := by
  split
  · exact (sameIds_freeServer s).shares h
  · exact h

/-- Of the fields only `crdt-repl-id` touches ids. -/
theorem sameIds_rdbLoad_none {aux : RdbAux} (haux : aux.crdtReplId = none) :
    s.SameIds (rdbLoadCrdtInfoAuxFields s aux) := by
  refine ⟨⟨rfl, rfl⟩, ?_, rfl⟩
  simp only [rdbLoadCrdtInfoAuxFields, haux]
  rfl

/-- What a file loads into `crdtServer` does not matter when the id of the master is set
afterwards; without that, the file has no id. -/
theorem shares_readSyncBulkPayload {same : Bool} {eof : Option SyncEof} (h : s.Shares)
    (heof : ∀ e ∈ eof, (e.loaded = none ∨ same = false) → e.aux.crdtReplId = none) :
    (readSyncBulkPayload s same eof).Shares := by
  unfold readSyncBulkPayload
  cases eof with
  | none => exact shares_freeIf h
  | some e =>
    have hload : ∀ s' : Servers, s'.Shares → (e.loaded = none ∨ same = false) →
        (rdbLoadCrdtInfoAuxFields s' e.aux).Shares := fun s' hs' hnone =>
      (sameIds_rdbLoad_none (heof e rfl hnone)).shares hs'
    dsimp only
    cases hloaded : e.loaded with
    | none => exact hload _ (shares_freeIf h) (.inl hloaded)
    | some loaded =>
      apply shares_createIf
      cases same with
      | true => exact ⟨rfl, rfl⟩
      | false => exact hload _ h (.inr rfl)

theorem rdbLoad_crdtServer_replid (s : Servers) (f : RdbFile) :
    (rdbLoadCrdtInfoAuxFields s f.aux).crdtServer.replid = f.crdtId.getD s.crdtServer.replid := by
  unfold rdbLoadCrdtInfoAuxFields RdbFile.crdtId
  cases f.aux.crdtReplId with
  | none => rfl
  | some id => by_cases hid : id.length = 40 <;> simp [Servers.update, Option.filter, hid]

/-- A file that has the same id for both servers, or none for either. -/
theorem shares_loadDataFromDisk {masterhost : Option (Bytes × Int)} {f : RdbFile} (h : s.Shares)
    (hf : (f.serverId masterhost).map Prod.fst = f.crdtId) :
    (loadDataFromDisk s masterhost f).Shares := by
  unfold loadDataFromDisk
  have hcrdt := rdbLoad_crdtServer_replid s f
  rw [← hf] at hcrdt
  cases hid : f.serverId masterhost with
  | none =>
    rw [hid] at hcrdt
    refine ⟨?_, h.2⟩
    show s.server.replid = (rdbLoadCrdtInfoAuxFields s f.aux).crdtServer.replid
    rw [hcrdt]
    exact h.1
  | some id =>
    rw [hid] at hcrdt
    refine ⟨?_, h.2⟩
    show id.1 = (rdbLoadCrdtInfoAuxFields s f.aux).crdtServer.replid
    rw [hcrdt]
    rfl

end functions

/-! ## Whole runs -/

theorem shares_boot (n : Node) {b : Boot} (hwipe : b.wipes n.disk = false)
    (hf : ∀ f ∈ n.disk, (f.serverId b.masterhost).map Prod.fst = f.crdtId) :
    (n.boot b).servers.Shares := by
  have hfresh : (initServers n.servers b.newid).Shares := shares_renewReplicationIds _ _
  simp only [Node.boot, hwipe]
  cases hdisk : n.disk with
  | none => exact hfresh
  | some f => exact shares_loadDataFromDisk hfresh (hf f hdisk)

theorem shares_step {n n' : Node} {a : NodeAct} (h : n.servers.Shares)
    (hok : keepsIdentity n a = true) (hstep : n.next a = some n') : n'.servers.Shares := by
  cases a with
  | slaveof host port =>
    obtain rfl := some.inj hstep
    have hset : (n.replicationSetMaster host port).servers = n.servers := by
      unfold Node.replicationSetMaster
      dsimp only
      split <;> rfl
    unfold Node.slaveofCommand
    split
    · split
      · exact h
      · rwa [hset]
    · rwa [hset]
  | slaveofNoOne newid resetId =>
    obtain rfl := some.inj hstep
    have hwipe : n.wipes = false := by simpa [keepsIdentity] using hok
    unfold Node.slaveofNoOne
    split
    · exact h
    · simp only [hwipe]
      exact shares_replicationUnsetMaster h
  | xslaveofNoOne newid =>
    obtain rfl := some.inj hstep
    unfold Node.xslaveofNoOne
    split
    · exact h
    · exact shares_replicationUnsetMaster h
  | masterIsCrdt crdt =>
    obtain ⟨-, ⟨⟩⟩ := ite_none_right_eq_some.1 hstep
    exact h
  | masterContinue new =>
    simp only [Node.next] at hstep
    split at hstep
    · obtain rfl := some.inj hstep
      exact shares_slaveContinue _ _ _ h
    · cases hstep
  | masterFullResync replid =>
    obtain ⟨-, ⟨⟩⟩ := ite_none_right_eq_some.1 hstep
    exact shares_freeIf h
  | transferRead =>
    obtain ⟨-, ⟨⟩⟩ := ite_none_right_eq_some.1 hstep
    exact shares_readSyncBulkPayload h (by simp)
  | transferEnd file loaded =>
    obtain ⟨hguard, ⟨⟩⟩ := ite_none_right_eq_some.1 hstep
    have haccepts : n.masterIsCrdt = false → file.aux.crdtReplId = none := by
      intro hplain
      simpa [Node.accepts, hplain] using (Bool.and_eq_true_iff.1 hguard).2
    unfold Node.transferEnd
    split
    · refine shares_readSyncBulkPayload h fun e he hcase => ?_
      obtain rfl := some.inj he
      exact haccepts (hcase.resolve_left (by simp))
    · refine shares_readSyncBulkPayload h fun e he _ => ?_
      obtain rfl := some.inj he
      rfl
  | masterLost =>
    obtain rfl := some.inj hstep
    exact h
  | refullsync =>
    obtain rfl := some.inj hstep
    exact (sameIds_freeServer _).shares h
  | cronFree newid =>
    obtain ⟨-, ⟨⟩⟩ := ite_none_right_eq_some.1 hstep
    exact ⟨rfl, rfl⟩
  | attach k first newid =>
    obtain rfl := some.inj hstep
    exact shares_refullSyncWithSlaves k first h
  | peerContinue =>
    obtain rfl := some.inj hstep
    exact shares_createIf h
  | debugChangeReplId newid =>
    obtain rfl := some.inj hstep
    exact shares_renewReplicationIds _ _
  | save streamDb =>
    obtain rfl := some.inj hstep
    exact h
  | world nullDb minBackstreamVcu =>
    obtain rfl := some.inj hstep
    exact h
  | restart b =>
    obtain rfl := some.inj hstep
    simp only [keepsIdentity, Bool.and_eq_true, Bool.not_eq_true'] at hok
    refine shares_boot n hok.1 fun f hf => ?_
    have hall := hok.2
    rw [show n.disk = some f from hf] at hall
    simpa using hall

/-- In every run whose steps meet `keepsIdentity` the two servers have the same ids. -/
theorem one_identity {n : Node} (h : identity.Reachable (fun n a => keepsIdentity n a = true) n) :
    n.servers.server.replid = n.servers.crdtServer.replid ∧
      n.servers.server.replid2 = n.servers.crdtServer.replid2 := by
  apply h.invariant (P := fun n => n.servers.Shares)
  · -- the first start finds no file
    rintro n ⟨n₀, b, hdisk, rfl⟩
    apply shares_boot
    · simp [Boot.wipes, hdisk]
    · simp [hdisk]
  · intro n a n' hn hok hstep
    exact shares_step hn hok hstep

/-- Memory in which the first process starts. -/
def blankNode : Node :=
  let srv : ReplServer := ⟨[], [], 0, -1, none, configReplBacklogMinSize, 0, 0, 0⟩
  { servers := ⟨srv, srv⟩
    masterhost := none
    masterIsCrdt := true
    master := none
    cachedMaster := none
    masterReplid := []
    masterInitialOffset := -1
    nullDb := true
    minBackstreamVcu := -1
    disk := none }

def someId (c : UInt8) : Bytes := List.replicate 40 c

/-- The start of a process that has no better clock among its peers. -/
def bootAs (masterhost : Option (Bytes × Int)) (newid : Bytes) : Boot :=
  ⟨masterhost, newid, newid, -1, 0⟩

theorem reachable_bootAs (ok : Node → NodeAct → Prop) (c : UInt8) :
    identity.Reachable ok (blankNode.boot (bootAs none (someId c))) :=
  .init ⟨blankNode, _, rfl, rfl⟩

/-- A master is saved, starts again as the slave of another node, goes on under the id of
that node and is promoted. -/
theorem one_identity_promoted :
    ∃ n : Node, identity.Reachable (fun n a => keepsIdentity n a = true) n ∧
      n.servers.server.replid2 = someId 99 ∧
      n.servers.server.replid = n.servers.crdtServer.replid ∧
      n.servers.server.replid2 = n.servers.crdtServer.replid2 := by
  have hrun : ((identity.runMeeting (fun n a => keepsIdentity n a = true)
      (blankNode.boot (bootAs none (someId 97)))
      [.attach .server true (someId 98), .world false (-1), .save 0,
        .restart (bootAs (some (ascii "10.0.0.1", 6379)) (someId 100)),
        .masterContinue (some (someId 99)), .slaveofNoOne (someId 101) (someId 102)]).any fun n =>
      n.servers.server.replid2 = someId 99) = true := by
    decide +kernel
  obtain ⟨n, hn, hid⟩ := (Option.any_eq_true _ _).1 hrun
  have hreach := Lib.System.reachable_of_runMeeting (reachable_bootAs _ 97) hn
  exact ⟨n, hreach, of_decide_eq_true hid, one_identity hreach⟩

/-- A master with a peer is saved and starts again from its own file: `crdtServer` has the
id of the file, `server` a new one. -/
theorem restart_splits_identity : ¬ ∀ n : Node, identity.Reachable Lib.System.anyStep n →
      n.servers.server.replid = n.servers.crdtServer.replid ∧
        n.servers.server.replid2 = n.servers.crdtServer.replid2 := by
  intro h
  have hrun : ((identity.run (blankNode.boot (bootAs none (someId 97)))
      [.attach .crdtServer true (someId 98), .world false (-1), .save 0,
        .restart (bootAs none (someId 99))]).any fun n =>
      n.servers.server.replid ≠ n.servers.crdtServer.replid) = true := by
    decide +kernel
  obtain ⟨n, hn, hne⟩ := (Option.any_eq_true _ _).1 hrun
  have hreach := Lib.System.reachable_of_run (reachable_bootAs _ 97) hn
  exact of_decide_eq_true hne (h n hreach).1

end XredisCrdt.Repl
