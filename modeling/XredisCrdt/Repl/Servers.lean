import XredisCrdt.Repl.Backlog

/-!
# The two servers of a node

Every place of the source that changes a replication id, a replication offset
or a backlog pointer of `server` or `crdtServer`, as a function on the pair.
The random id that `changeReplicationId` draws is an argument.
-/

namespace XredisCrdt.Repl

/-- Which of the two histories of a node. -/
inductive Kind
  | server
  | crdtServer
  deriving DecidableEq, Repr

/-- The globals `server` and `crdtServer`. -/
structure Servers where
  server : ReplServer
  crdtServer : ReplServer

namespace Servers

def get (s : Servers) : Kind → ReplServer
  | .server => s.server
  | .crdtServer => s.crdtServer

def update (s : Servers) (k : Kind) (f : ReplServer → ReplServer) : Servers :=
  match k with
  | .server => { s with server := f s.server }
  | .crdtServer => { s with crdtServer := f s.crdtServer }

end Servers

/-! ## Replication ids -/

/-- `crdtServer` reuses the id of `server`. -/
def changeReplicationId (s : Servers) (k : Kind) (newid : Bytes) : Servers :=
  match k with
  | .server => s.update .server fun srv => { srv with replid := newid }
  | .crdtServer => s.update .crdtServer fun srv => { srv with replid := s.server.replid }

def clearReplicationId2 (srv : ReplServer) : ReplServer :=
  { srv with replid2 := List.replicate 40 48, secondReplidOffset := -1 }

def shiftReplicationId (s : Servers) (k : Kind) (newid : Bytes) : Servers :=
  changeReplicationId
    (s.update k fun srv =>
      { srv with replid2 := srv.replid, secondReplidOffset := srv.masterReplOffset + 1 })
    k newid

/-- Both servers start a new history under one new id, without a second one. -/
def renewReplicationIds (s : Servers) (newid : Bytes) : Servers :=
  let s := changeReplicationId (changeReplicationId s .server newid) .crdtServer newid
  (s.update .server clearReplicationId2).update .crdtServer clearReplicationId2

/-! ## Backlogs of both servers -/

def createReplicationBacklog (s : Servers) : Servers :=
  { server := createServerReplicationBacklog s.server
    crdtServer := createServerReplicationBacklog s.crdtServer }

/-- `REFULLSYNC`: the slaves are disconnected and their backlog is freed. -/
def refullsyncCommand (s : Servers) : Servers :=
  s.update .server freeReplicationBacklog

/-- The end of `crdtReplicationCron`: no slave or peer for long enough. -/
def crdtReplicationCronFree (s : Servers) (newid : Bytes) : Servers :=
  ((renewReplicationIds s newid).update .server freeReplicationBacklog).update .crdtServer
    freeReplicationBacklog

/-- The same in `replicationCron`, which does it for a node without peers only. -/
def replicationCronFree (s : Servers) (newid : Bytes) : Servers :=
  ((changeReplicationId s .server newid).update .server clearReplicationId2).update .server
    freeReplicationBacklog

/-- What `refullSyncWithSlaves` does to the backlogs after it has added the new
slave or peer to its list; `first` says that the two lists have one element. -/
def refullSyncWithSlaves (s : Servers) (k : Kind) (first : Bool) (newid : Bytes) : Servers :=
  if first && s.server.replBacklog.isNone && s.crdtServer.replBacklog.isNone then
    createReplicationBacklog (renewReplicationIds s newid)
  else if (s.get k).replBacklog.isNone then createReplicationBacklog s
  else s

/-- An own peer link was answered `+CONTINUE`. -/
def crdtSlaveContinue (s : Servers) : Servers :=
  if s.crdtServer.replBacklog.isNone then createReplicationBacklog s else s

/-! ## Slave side -/

/-- `slaveTryPartialResynchronization` has read `+CONTINUE`, possibly with a new
id; `same` is `isSameTypeWithMaster() == C_OK`. -/
def slaveContinue (s : Servers) (same : Bool) (cachedId : Bytes) (new : Option Bytes) : Servers :=
  let shift (srv : ReplServer) (new : Bytes) : ReplServer :=
    { srv with
      replid2 := cachedId
      secondReplidOffset := srv.masterReplOffset + 1
      replid := new }
  let s := match new with
    | some new =>
      if new ≠ cachedId && same then
        { server := shift s.server new, crdtServer := shift s.crdtServer new : Servers }
      else s
    | none => s
  if s.server.replBacklog.isNone then createReplicationBacklog s else s

/-- `syncWithMaster` after `+FULLRESYNC`. -/
def syncWithMasterFullResync (s : Servers) (same : Bool) : Servers :=
  if same then s.update .server freeReplicationBacklog else s

/-- The aux fields of an RDB file that concern the two histories. -/
structure RdbAux where
  crdtReplId : Option Bytes
  crdtReplOffset : Option Int

def rdbLoadCrdtInfoAuxFields (s : Servers) (aux : RdbAux) : Servers :=
  s.update .crdtServer fun srv =>
    { srv with
      replid := match aux.crdtReplId with
        | some id => if id.length = 40 then id else srv.replid
        | none => srv.replid
      masterReplOffset := aux.crdtReplOffset.getD srv.masterReplOffset }

/-- The last read of a full resynchronization: the aux fields of the file and,
if the file was loaded without error, id and offset of the master. -/
structure SyncEof where
  aux : RdbAux
  loaded : Option (Bytes × Int)

/-- `readSyncBulkPayload`: a read in the middle of the file or the last one. -/
def readSyncBulkPayload (s : Servers) (same : Bool) (eof : Option SyncEof) : Servers :=
  let s := if same then s.update .server freeReplicationBacklog else s
  match eof with
  | none => s
  | some e =>
    let s := rdbLoadCrdtInfoAuxFields s e.aux
    match e.loaded with
    | none => s
    | some (replid, reploff) =>
      let s :=
        if same then
          ((s.update .server fun srv =>
              { srv with replid := replid, masterReplOffset := reploff }).update .crdtServer
            fun srv => { srv with replid := replid }).update .server clearReplicationId2
            |>.update .crdtServer clearReplicationId2
        else s
      if s.server.replBacklog.isNone then createReplicationBacklog s else s

/-- `replicationUnsetMaster`. -/
def replicationUnsetMaster (s : Servers) (newid : Bytes) : Servers :=
  shiftReplicationId (shiftReplicationId s .server newid) .crdtServer newid

/-- The data-recovery branches of `slaveofCommand` and `peerBackStream`: the
dataset is emptied and `server` starts a new history. -/
def backstreamReset (s : Servers) (newid : Bytes) : Servers :=
  (changeReplicationId s .server newid).update .server clearReplicationId2

end XredisCrdt.Repl
