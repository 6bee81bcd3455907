import XredisCrdt.Proto.Inline
import XredisCrdt.Repl.Servers

/-!
# Commands, clients and the gates of `processCommand`

A command is looked up, and then every condition under which the server does not
take it is tried in the order of the source. A refused command is answered with
an error, and yet `processCommand` returns `C_OK` as it does for a command that
was run or queued; only `quit` returns `C_ERR`.

The procedures of the transaction commands and `crdtMergeEndCommand` are modelled
as far as the client is concerned. All others, those of the CRDT module among
them, are a parameter.
-/

namespace XredisCrdt.Net

open Proto Repl

/-! ## Commands -/

/-- The procedures that the server tells apart. `subscribe` stands for the eight
of the subscription commands. -/
inductive Proc
  | multiCommand
  | execCommand
  | crdtExecCommand
  | discardCommand
  | watchCommand
  | pingCommand
  | authCommand
  | replconfCommand
  | shutdownCommand
  | scriptCommand
  | subscribe
  | crdtMergeEndCommand
  | other
  deriving DecidableEq, Repr

/-- `struct redisCommand`, with the flags that are read below. -/
structure Command where
  name : Bytes
  proc : Proc
  arity : Int
  write : Bool
  denyoom : Bool
  stale : Bool
  loading : Bool
  firstkey : Nat
  getkeysProc : Bool
  deriving DecidableEq, Repr

/-- An entry of `redisCommandTable` with its flags as `populateCommandTable` reads
them. -/
def tableEntry (name : String) (proc : Proc) (arity : Int) (sflags : String) : Command where
  name := ascii name
  proc := proc
  arity := arity
  write := sflags.toList.contains 'w'
  denyoom := sflags.toList.contains 'm'
  stale := sflags.toList.contains 't'
  loading := sflags.toList.contains 'l'
  firstkey := 0
  getkeysProc := false

/-- The entries of `redisCommandTable` that a replication stream can contain. -/
def redisCommandTable : List Command :=
  [tableEntry "select" .other 2 "lF",
    tableEntry "multi" .multiCommand 1 "sF",
    tableEntry "crdt.multi" .multiCommand 2 "sF",
    tableEntry "exec" .execCommand 1 "sM",
    tableEntry "crdt.exec" .crdtExecCommand 2 "sM",
    tableEntry "discard" .discardCommand 1 "sF",
    tableEntry "ping" .pingCommand (-1) "tF",
    tableEntry "replconf" .replconfCommand (-1) "aslt",
    tableEntry "publish" .other 3 "pltF",
    tableEntry "crdt.merge_start" .other (-1) "lars",
    tableEntry "crdt.merge" .other (-1) "lwm",
    tableEntry "crdt.merge_del" .other (-1) "lwm",
    tableEntry "crdt.merge_end" .crdtMergeEndCommand (-1) "lars",
    tableEntry "crdt.replconf" .replconfCommand (-1) "aslt",
    tableEntry "crdt.evictiontombstone" .other 4 "rF"]

/-- What is not in the server: the commands that the module registers, and for a
procedure the data set that it leaves, the database it selects for the client and
the gid it passes to `RM_CrdtReplicateVerbatim`, if it does. -/
structure Procs (σ : Type) where
  moduleCommands : List Command
  run : σ → (db : Int) → Argv → σ × Int × Option Int

def lookupCommand {σ : Type} (P : Procs σ) (name : Bytes) : Option Command :=
  (redisCommandTable ++ P.moduleCommands).find? fun cmd => strcaseeq cmd.name name

/-- The entry of `redisCommandTable` with a name. -/
def tableCommand (name : Bytes) : Option Command :=
  redisCommandTable.find? fun cmd => strcaseeq cmd.name name

theorem lookupCommand_eq {σ : Type} (P : Procs σ) (name : Bytes) :
    lookupCommand P name = (tableCommand name).or
      (P.moduleCommands.find? fun cmd => strcaseeq cmd.name name) := List.find?_append

theorem lookupCommand_table {σ : Type} {P : Procs σ} {name : Bytes} {cmd : Command}
    (h : tableCommand name = some cmd) : lookupCommand P name = some cmd := by
  rw [lookupCommand_eq, h]
  rfl

/-! ## Server and client -/

/-- The role of the node and `repl_slave_repl_all`, which stay while the commands of
one read are processed: `SLAVEOF` gives up the links. -/
structure Server where
  crdtEnabled : Bool
  masterhost : Bool
  masterIsCrdt : Bool
  replSlaveReplAll : Bool

/-- What else the gates look at. The command before may have changed it, in the same
read as well: settings, flags of the server and of the client, and what is found out
for every command, namely the result of `freeMemoryIfNeeded`, the reply where the keys
belong to another node, and the slaves that lag little. `aofLastWriteErr` is the error
text of the last AOF write if it failed. -/
structure Moment where
  requirepass : Bool
  authenticated : Bool
  clusterEnabled : Bool
  clusterRedirect : Argv → Option Bytes
  maxmemory : Bool
  freeMemoryFails : Bool
  stopWritesOnBgsaveErr : Bool
  saveparamslen : Nat
  lastbgsaveErr : Bool
  aofLastWriteErr : Option Bytes
  replMinSlavesToWrite : Nat
  replMinSlavesMaxLag : Nat
  replGoodSlavesCount : Nat
  replSlaveRo : Bool
  pubsub : Bool
  replConnected : Bool
  replServeStaleData : Bool
  loading : Bool
  crdtLoading : Bool
  luaTimedout : Bool

/-- `iAmMaster() == C_OK`. -/
def Server.iAmMaster (s : Server) : Bool :=
  (s.crdtEnabled && !s.masterIsCrdt && s.masterhost) || !s.masterhost

/-- A client. The flags `CLIENT_*` are Booleans; `mstate` has the queued commands. -/
structure Client where
  input : Input
  pendingQuerybuf : Bytes
  pendingUsedOffset : Int
  reploff : Int
  readReploff : Int
  gid : Int
  db : Int
  isSlave : Bool
  isMaster : Bool
  isCrdtMaster : Bool
  multi : Bool
  dirtyCas : Bool
  dirtyExec : Bool
  blocked : Bool
  closeAfterReply : Bool
  closeAsap : Bool
  mstate : List (Command × Argv)

/-- The parser is ready for the next command. -/
def resetInput (i : Input) : Input :=
  { i with reqtype := .none, multibulklen := 0, bulklen := none, argv := [] }

def resetClient (c : Client) : Client := { c with input := resetInput c.input }

/-- `flagTransaction`. -/
def flagTransaction (c : Client) : Client :=
  if c.multi then { c with dirtyExec := true } else c

def discardTransaction (c : Client) : Client :=
  { c with mstate := [], multi := false, dirtyCas := false, dirtyExec := false }

/-! ## Gates -/

/-- Why `processCommand` refuses a command. -/
inductive Refusal
  | unknownCommand (name : Bytes)
  | wrongArity (name : Bytes)
  | noauth
  | redirected (reply : Bytes)
  | oom
  | bgsave
  | aof (error : Bytes)
  | noreplicas
  | roslave
  | pubsub
  | masterdown
  | loading
  | slowscript
  deriving DecidableEq, Repr

/-- Whether the refusal spoils an open transaction. -/
def Refusal.flags : Refusal → Bool
  | roslave | pubsub | loading => false
  | _ => true

/-- Does the number of arguments not fit? -/
def wrongArity (cmd : Command) (argc : Nat) : Bool :=
  (cmd.arity > 0 ∧ cmd.arity ≠ argc) ∨ (argc : Int) < -cmd.arity

/-- The failure of the last write to disk, if writes are to be stopped for it. -/
def persistenceError (m : Moment) : Option Refusal :=
  match m.aofLastWriteErr with
  | some error => some (.aof error)
  | none =>
    if m.stopWritesOnBgsaveErr ∧ m.saveparamslen > 0 ∧ m.lastbgsaveErr then some .bgsave else none

/-- The second argument starts with the letter `b` or its capital. -/
def secondArgIs (argv : Argv) (b : UInt8) : Bool :=
  match argv with
  | [_, a] => (cstr a).head?.map tolower == some b
  | _ => false

/-- May the command run while a script is over its time? -/
def allowedDuringScript (cmd : Command) (argv : Argv) : Bool :=
  match cmd.proc with
  | .authCommand | .replconfCommand => true
  | .shutdownCommand => secondArgIs argv 110
  | .scriptCommand => secondArgIs argv 107
  | _ => false

/-- May the command run in the context of Pub/Sub? -/
def allowedInPubsub (cmd : Command) : Bool :=
  match cmd.proc with
  | .pingCommand | .subscribe => true
  | _ => false

/-- The first gate of `processCommand` that is closed for a command known to the
server. -/
def closedGate (s : Server) (m : Moment) (c : Client) (cmd : Command) (argv : Argv) :
    Option Refusal :=
  if wrongArity cmd argv.length then some (.wrongArity cmd.name)
  else if m.requirepass ∧ ¬ m.authenticated ∧ cmd.proc ≠ .authCommand then some .noauth
  else if m.clusterEnabled ∧ ¬ c.isMaster ∧ (m.clusterRedirect argv).isSome ∧
      ¬ (¬ cmd.getkeysProc ∧ cmd.firstkey = 0 ∧ cmd.proc ≠ .execCommand) then
    (m.clusterRedirect argv).map .redirected
  else if m.maxmemory ∧ cmd.denyoom ∧ m.freeMemoryFails then some .oom
  else if (persistenceError m).isSome ∧ s.iAmMaster ∧ (cmd.write ∨ cmd.proc = .pingCommand) then
    persistenceError m
  else if s.iAmMaster ∧ m.replMinSlavesToWrite ≠ 0 ∧ m.replMinSlavesMaxLag ≠ 0 ∧ cmd.write ∧
      m.replGoodSlavesCount < m.replMinSlavesToWrite then some .noreplicas
  else if ¬ s.iAmMaster ∧ m.replSlaveRo ∧ ¬ c.isMaster ∧ cmd.write then some .roslave
  else if m.pubsub ∧ ¬ allowedInPubsub cmd then some .pubsub
  else if ¬ s.iAmMaster ∧ ¬ m.replConnected ∧ ¬ m.replServeStaleData ∧ ¬ cmd.stale then
    some .masterdown
  else if (m.loading ∨ m.crdtLoading) ∧ ¬ cmd.loading then some .loading
  else if m.luaTimedout ∧ ¬ allowedDuringScript cmd argv then some .slowscript
  else none

end XredisCrdt.Net
