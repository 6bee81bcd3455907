import XredisCrdt.Lib.System
import XredisCrdt.Net.Replay
import XredisCrdt.Txn.Brackets

/-!
# Sites that are each other's peers

Any number of nodes, each with the gid of its site. A master applies the commands of
its clients and those that it reads from the peer histories of other sites; a slave
applies the history of its master. What a node puts into its two histories is decided
by `propagate`, by the feeding functions below it, by `EXEC`, and on a slave by the gid
that the executed command has left in the client of the master.

The model is about whole commands. A link has the position up to which it has counted
commands (`reploff`), the commands read since then, and those that are counted and not
yet passed on to the own slaves. Selections are commands like others: a local command
may bring its `CRDT.SELECT`, and `sendSelect` feeds a `SELECT`.
-/

namespace XredisCrdt.Sites

open Txn

/-! ## Commands -/

/-- The procedures of the server that are told apart here. -/
inductive Proc
  | multi
  | exec
  | crdtExec
  | evictionTombstone
  | merge
  | other
  deriving DecidableEq, Repr

/-- Not about transactions: such a command is queued after `MULTI`. -/
def Proc.plain : Proc → Bool
  | multi | exec | crdtExec => false
  | evictionTombstone | merge | other => true

def mergeNames : List Bytes :=
  [ascii "crdt.merge_start", ascii "crdt.merge", ascii "crdt.merge_del", ascii "crdt.merge_end"]

/-- The procedure of a command of the server; those of the module are not told apart. -/
def procNamed (name : Bytes) : Proc :=
  match Net.tableCommand name with
  | none => .other
  | some cmd =>
    match cmd.proc with
    | .multiCommand => .multi
    | .execCommand => .exec
    | .crdtExecCommand => .crdtExec
    | _ =>
      if cmd.name = ascii "crdt.evictiontombstone" then .evictionTombstone
      else if cmd.name ∈ mergeNames then .merge
      else .other

def procOf (argv : Argv) : Proc := procNamed (argv.headD [])

/-- A command that is not about transactions. -/
abbrev PlainArgv := { argv : Argv // (procOf argv).plain = true }

theorem isBracket_of_plain {argv : Argv} (h : (procOf argv).plain = true) :
    isBracket argv = false := by
  rw [Bool.eq_false_iff]
  intro hbracket
  have hname : ∀ name, argv.head? = some name → procOf argv = procNamed name := by
    intro name hhead
    rw [procOf, List.headD_eq_head?_getD, hhead]
    rfl
  simp only [isBracket, Bool.or_eq_true, beq_iff_eq] at hbracket
  obtain hhead | hhead := hbracket
  · rw [hname _ hhead] at h
    exact absurd h (by decide)
  · rw [hname _ hhead] at h
    exact absurd h (by decide)

/-- What the server does not decide: the gid in a command of the module, which commands
are read-only or administrative, and which commands of the server increase `dirty`. -/
structure Commands where
  gidOf : Argv → Option Int
  flagged : Argv → Bool
  dirty : Argv → Bool
  ovc : ∀ gid clock, Net.checkGid gid = true →
    gidOf (ovcArgv gid clock) = some gid

variable (C : Commands)

/-- The gid that a command has among its arguments. -/
def carriedGid (argv : Argv) : Option Int :=
  match procOf argv with
  | .multi | .merge => argv[1]?.bind string2gid
  | .exec => none
  | .crdtExec => Net.execGid argv
  | .evictionTombstone => argv[2]?.bind string2gid
  | .other => C.gidOf argv

/-- The gid that a command passes to `RM_CrdtReplicateVerbatim`. -/
def verbatimGid (argv : Argv) : Option Int :=
  if procOf argv = .other then C.gidOf argv else none

/-- What `call` propagates of a command that came from elsewhere: a command of the module
as `RM_CrdtReplicateVerbatim` says, another one to the slaves if it changed something. -/
def replicated (own : Int) (argv : Argv) : List Effect :=
  match verbatimGid C argv with
  | some gid => [.propagate (if gid = own then ⟨true, false⟩ else ⟨false, true⟩) argv]
  | none => if C.dirty argv then [.propagate ⟨false, true⟩ argv] else []

theorem argv_of_replicated {own : Int} {argv : Argv} {e : Effect}
    (he : e ∈ replicated C own argv) : ∃ target, e = .propagate target argv := by
  unfold replicated at he
  split at he
  · exact ⟨_, List.mem_singleton.1 he⟩
  · split at he
    · exact ⟨_, List.mem_singleton.1 he⟩
    · cases he

/-- A command as `EXEC` or `call` runs it. -/
def queued (own : Int) (argv : PlainArgv) : Queued where
  flagged := C.flagged argv.1
  effects := replicated C own argv.1
  dirty := if (verbatimGid C argv.1).isSome ∨ C.dirty argv.1 then 1 else 0
  noBracket := by
    intro e he a ha
    obtain ⟨target, rfl⟩ := argv_of_replicated C he
    obtain rfl : argv.1 = a := Option.some.inj ha
    exact isBracket_of_plain argv.2

/-! ## Links -/

/-- The client of a link: `pos` counts the commands up to `reploff`, `block` has those
read since then, `queue` those after `MULTI`, and `done` those that are counted and not
yet passed on. -/
structure Link where
  pos : Nat
  queue : Option (List PlainArgv)
  block : List Argv
  done : List Argv

/-- The number of the next command to be read. -/
def Link.next (l : Link) : Nat := l.pos + l.block.length

/-- A link that starts to read, or reads again, after the first `pos` commands. -/
def Link.startAt (pos : Nat) (done : List Argv) : Link := ⟨pos, none, [], done⟩

/-- A command has been read and `queue` is what it leaves: outside of a transaction
everything read counts. -/
def Link.advance (l : Link) (argv : Argv) (queue : Option (List PlainArgv)) : Link :=
  if queue.isNone then
    Link.startAt (l.pos + (l.block ++ [argv]).length) (l.done ++ (l.block ++ [argv]))
  else { l with queue := queue, block := l.block ++ [argv] }

/-- What `processCommand` makes of a command: a closed gate, a transaction that was
spoiled before, or neither. -/
inductive Fate
  | refused
  | aborted
  | runs
  deriving DecidableEq, Repr

/-- What a command of a link leaves: the queue, the gid of the client if it is set, and
the streams. -/
structure Taken where
  queue : Option (List PlainArgv)
  gid : Option Int
  streams : Streams

/-- `processCommand` for a command of a link. -/
def takeCommand (own : Int) (fate : Fate) (s : Streams) (queue : Option (List PlainArgv))
    (argv : Argv) : Taken :=
  if fate = .refused then ⟨queue, none, s⟩
  else if h : (procOf argv).plain = true then
    match queue with
    | none => ⟨none, verbatimGid C argv, callQueued s (queued C own ⟨argv, h⟩)⟩
    | some q => ⟨some (q ++ [⟨argv, h⟩]), none, s⟩
  else
    match queue, procOf argv with
    | none, .multi => ⟨some [], none, s⟩
    | some q, .exec =>
      if fate = .aborted then ⟨none, none, s⟩
      else ⟨none, q.findSome? fun a => verbatimGid C a.1, execCommand own s (q.map (queued C own))⟩
    | some q, .crdtExec =>
      match Net.execGid argv with
      | none => ⟨some q, none, s⟩
      | some gid =>
        ⟨none, some gid,
          if fate = .aborted then s else crdtExecCommand gid s (q.map (queued C own))⟩
    -- a nested MULTI, or EXEC without MULTI
    | queue, _ => ⟨queue, none, s⟩

section Processing

variable {σ : Type} {P : Net.Procs σ} {C : Commands} {n : Net.Node σ}
  {queue : Option (List PlainArgv)} {argv : Argv}

/-- The queue of a link is that of its client. -/
structure Queues (c : Net.Client) (queue : Option (List PlainArgv)) : Prop where
  multi : c.multi = queue.isSome
  mstate : c.mstate.map Prod.snd = (queue.getD []).map Subtype.val

/-- The procedures that are told apart are those of the command table. -/
theorem procOf_of_role (hmodule : ∀ cmd ∈ P.moduleCommands, cmd.proc = .other) {ρ : Net.Role}
    (h : Net.role P argv = some ρ) :
    ρ = .opens ∧ procOf argv = .multi ∨
      (∃ g, ρ = .closes g ∧ procOf argv = .crdtExec ∧ Net.execGid argv = some g) ∨
      ρ = .plain ∧ (procOf argv).plain = true := by
  unfold Net.role at h
  obtain ⟨cmd, hlook, hrole⟩ := Option.bind_eq_some_iff.mp h
  split at hrole
  · cases hrole
  rw [Net.lookupCommand_eq] at hlook
  unfold procOf procNamed
  cases htable : Net.tableCommand (argv.headD []) with
  | none =>
    rw [htable, Option.none_or] at hlook
    rw [hmodule cmd (List.mem_of_find?_eq_some hlook)] at hrole
    simp_all [Proc.plain]
  | some entry =>
    rw [htable, Option.some_or] at hlook
    cases hlook
    dsimp only
    have hplain : (if cmd.name = ascii "crdt.evictiontombstone" then Proc.evictionTombstone
        else if cmd.name ∈ mergeNames then .merge else .other).plain = true := by
      split_ifs <;> rfl
    generalize cmd.proc = proc at hrole
    cases proc <;> simp only [reduceCtorEq, Option.some.injEq, Option.map_eq_some_iff] at hrole
    all_goals first
      | (subst hrole; simp [hplain])
      | (obtain ⟨g, hg, rfl⟩ := hrole; simp [hg])

/-- `takeCommand` is `processCommand` on the queue of a link and on the gid of the master's
client, for a command that passes the gates and is in no spoiled transaction. -/
theorem processCommand_takes (hmodule : ∀ cmd ∈ P.moduleCommands, cmd.proc = .other)
    (hlaw : Net.GidLaw P (verbatimGid C)) {ρ : Net.Role}
    (hrole : Net.role P n.c.input.argv = some ρ)
    (hadm : ∀ cmd, Net.WellFormed P n.c.input.argv cmd →
      Net.Admits n.server n.moment n.c cmd n.c.input.argv)
    (hend : Net.QueueOk n.c) (hclean : n.c.dirtyCas = false ∧ n.c.dirtyExec = false)
    (h : Queues n.c queue) (own : Int) (s : Streams) {t : Taken}
    (ht : takeCommand C own .runs s queue n.c.input.argv = t) :
    Queues (Net.processCommand P n).1.c t.queue ∧
      (n.c.gid = -1 → (Net.processCommand P n).1.c.gid = t.gid.getD (-1)) := by
  have hran := Net.processCommand_ran hlaw hrole hadm hend hclean
  generalize (Net.processCommand P n).1 = r at hran ⊢
  generalize n.c.input.argv = argv at hrole ht hran
  obtain ⟨hmulti, hmstate⟩ := h
  unfold takeCommand at ht
  rw [if_neg (by simp)] at ht
  rcases procOf_of_role hmodule hrole with ⟨rfl, hp⟩ | ⟨g, rfl, hp, hg⟩ | ⟨rfl, hp⟩ <;>
    rcases hran with ⟨role, rfl⟩ | ⟨role, multi, rfl⟩ | ⟨role, multi, rfl⟩ | ⟨role, multi, rfl⟩ |
      ⟨role, multi, rfl⟩ <;> cases role.symm.trans hrole
  · -- MULTI
    rw [dif_neg (by simp [hp, Proc.plain]), hp] at ht
    cases queue <;> subst ht <;> exact ⟨⟨rfl, hmstate⟩, id⟩
  · -- CRDT.EXEC without MULTI
    rw [dif_neg (by simp [hp, Proc.plain]), hp] at ht
    cases queue with
    | none =>
      subst ht
      exact ⟨⟨hmulti, hmstate⟩, id⟩
    | some q => cases hmulti.symm.trans multi
  · -- the transaction is executed
    rw [dif_neg (by simp [hp, Proc.plain]), hp] at ht
    cases queue with
    | none => cases hmulti.symm.trans multi
    | some q =>
      simp only [hg] at ht
      subst ht
      exact ⟨⟨rfl, rfl⟩, fun _ => rfl⟩
  · -- a command inside a transaction, and one outside
    rw [dif_pos hp] at ht
    cases queue with
    | none => cases hmulti.symm.trans multi
    | some q =>
      subst ht
      exact ⟨⟨hmulti, by simpa using hmstate⟩, id⟩
  · rw [dif_pos hp] at ht
    cases queue with
    | none =>
      subst ht
      exact ⟨⟨hmulti, hmstate⟩, fun hn => by simp [hn, Net.verbatimGid]⟩
    | some q => cases hmulti.symm.trans multi

end Processing

/-- The link with a peer: during a full synchronization it has the position that the
`CRDT.MERGE_END` will carry. -/
inductive PeerLink
  | idle
  | syncing (pos : Nat)
  | connected (link : Link)

/-! ## Nodes -/

/-- A node: its gid, role and histories, its links, and the numbers of the commands that
it has applied from each peer history. -/
structure Site (ν : Type) where
  gid : Int
  streams : Streams
  peers : ν → PeerLink
  master : Option (ν × Link)
  applied : ν → List Nat

/-- What a client sends in a transaction: a local command of the module, which replicates
`out`, a command that carries its gid or belongs to the server, or one that changes the
role. -/
inductive Submitted
  | write (out : List PlainArgv) (wrapped : Bool)
  | command (argv : PlainArgv)
  | slaveof (role : Role → Role)

/-- `RM_CrdtReplicateAlsoNormReplicate`, or `RM_CrdtMultiWrappedReplicate` (`wrapped`)
for each command. -/
def replicates (out : List PlainArgv) (wrapped : Bool) : List Effect :=
  out.map fun argv => .propagate ⟨true, wrapped⟩ argv.1

def Submitted.queued (own : Int) : Submitted → Queued
  | write out wrapped =>
    { flagged := false
      effects := replicates out wrapped
      dirty := out.length
      noBracket := by
        intro e he a ha
        obtain ⟨argv, -, rfl⟩ := List.mem_map.1 he
        obtain rfl : argv.1 = a := Option.some.inj ha
        exact isBracket_of_plain argv.2 }
  | command argv => Sites.queued C own argv
  | slaveof role =>
    { flagged := true
      effects := [.become role]
      dirty := 0
      noBracket := by
        intro e he a ha
        obtain rfl := List.mem_singleton.1 he
        cases ha }

/-- A local command carries the own gid in all that it replicates. -/
def ownGid (own : Int) (out : List PlainArgv) : Bool :=
  out.all fun argv => decide (procOf argv.1 = .other ∧ C.gidOf argv.1 = some own)

def Submitted.valid (own : Int) : Submitted → Bool
  | write out _ => ownGid C own out
  | command _ | slaveof _ => true

/-- A local command outside of a transaction. `RM_CrdtMultiWrappedReplicate` puts `MULTI`
before and `EXEC` after what it replicates. -/
def localWrite (s : Streams) (out : List PlainArgv) (wrapped : Bool) : Streams :=
  let s := if wrapped then propagate s ⟨true, false⟩ [ascii "MULTI"] else s
  let s := (replicates out wrapped).foldl Effect.run s
  if wrapped then propagate s ⟨true, false⟩ [ascii "EXEC"] else s

/-- `replicationFeedSlavesFromMasterStream`. -/
def feedMasterStream (s : Streams) (commands : List Argv) : Streams :=
  commands.foldl feedServer s

/-- The command ends a transaction, if one is open. -/
def closes (argv : Argv) : Bool :=
  procOf argv == .exec || procOf argv == .crdtExec && (Net.execGid argv).isSome

/-- Is a transaction open after the command? -/
def opensAfter (inMulti : Bool) (argv : Argv) : Bool :=
  if inMulti then !closes argv else procOf argv == .multi

/-! ## The network -/

variable {ν : Type} [DecidableEq ν]

structure World (ν : Type) where
  node : ν → Site ν

/-- The actions. `attach` starts to read the history of a master after `pos` commands:
all of them after a full resynchronization, and those that count after a partial one. -/
inductive Act (ν : Type)
  | write (i : ν) (out : List PlainArgv) (wrapped : Bool)
  | command (i : ν) (argv : PlainArgv)
  | exec (i : ν) (queue : List Submitted)
  | crdtExec (i : ν) (gid : Int) (queue : List Submitted)
  | sendOvc (i : ν) (clock : Bytes)
  | evict (i : ν) (key clock : Bytes)
  | sendSelect (i : ν) (db : Bytes)
  | setRole (i : ν) (role : Role)
  | startSync (i j : ν)
  | merge (i j : ν) (argv : PlainArgv)
  | endSync (i j : ν)
  | peerRead (i j : ν) (fate : Fate)
  | peerForward (i j : ν)
  | relink (i j : ν)
  | unlink (i j : ν)
  | attach (i m : ν) (pos : Nat)
  | detach (i : ν)
  | slaveRead (i : ν) (fate : Fate)
  | slaveForward (i : ν)

namespace World

variable (w : World ν)

def put (i : ν) (n : Site ν) : World ν := ⟨Function.update w.node i n⟩

/-- Change the streams of a node. -/
def feed (i : ν) (f : Streams → Streams) : World ν :=
  w.put i { w.node i with streams := f (w.node i).streams }

def setPeer (i j : ν) (link : PeerLink) : World ν :=
  w.put i { w.node i with peers := Function.update (w.node i).peers j link }

/-- The next command on the link with a peer. -/
def nextFromPeer (i j : ν) : Option (Link × Argv) :=
  match (w.node i).peers j with
  | .connected l => (w.node j).streams.peer[l.next]?.map fun argv => (l, argv)
  | _ => none

/-- The next command on the link with the master. -/
def nextFromMaster (i : ν) : Option (ν × Link × Argv) :=
  (w.node i).master.bind fun (m, l) =>
    (w.node m).streams.own[l.next]?.map fun argv => (m, l, argv)

end World

/-- The role of a node while the current client is a connected peer, or is not. -/
def setFromPeer (b : Bool) (s : Streams) : Streams :=
  { s with role := { s.role with fromPeer := b } }

/-- A node takes the next command of a peer. -/
def Site.takeFromPeer (n : Site ν) (j : ν) (l : Link) (argv : Argv) (fate : Fate) : Site ν :=
  let t := takeCommand C n.gid fate (setFromPeer true n.streams) l.queue argv
  { n with
    streams := setFromPeer false t.streams
    peers := Function.update n.peers j (.connected (l.advance argv t.queue))
    applied :=
      if t.queue.isNone then
        Function.update n.applied j
          (n.applied j ++ List.range' l.pos (l.block ++ [argv]).length)
      else n.applied }

/-- A slave takes the next command of its master: `processInputBuffer` puts everything
since `reploff` into the peer history if the client has got the own gid. -/
def Site.takeFromMaster (n : Site ν) (m : ν) (l : Link) (argv : Argv) (fate : Fate) :
    Site ν :=
  let t := takeCommand C n.gid fate n.streams l.queue argv
  { n with
    streams := if t.gid = some n.gid then (l.block ++ [argv]).foldl feedCrdtServer t.streams
      else t.streams
    master := some (m, l.advance argv t.queue) }

/-- The commands of a history up to `pos` end outside of a transaction. -/
def endsUnit (history : List Argv) (pos : Nat) : Bool :=
  pos ≤ history.length ∧ (history.take pos).foldl opensAfter false = false

def World.next (w : World ν) : Act ν → Option (World ν)
  | .write i out wrapped =>
    if ownGid C (w.node i).gid out then some (w.feed i fun s => localWrite s out wrapped) else none
  | .command i argv => some (w.feed i fun s => callQueued s (queued C (w.node i).gid argv))
  | .exec i queue =>
    if queue.all (Submitted.valid C (w.node i).gid) then
      some (w.feed i fun s =>
        execCommand (w.node i).gid s (queue.map (Submitted.queued C (w.node i).gid)))
    else none
  | .crdtExec i gid queue =>
    if queue.all (Submitted.valid C (w.node i).gid) ∧ Net.checkGid gid then
      some (w.feed i fun s =>
        crdtExecCommand gid s (queue.map (Submitted.queued C (w.node i).gid)))
    else none
  | .sendOvc i clock =>
    some (w.feed i fun s => replicationFeedAllSlaves s (ovcArgv (w.node i).gid clock))
  | .evict i key clock =>
    some (w.feed i fun s => replicationFeedAllSlaves s (evictionArgv (w.node i).gid key clock))
  | .sendSelect i db => some (w.feed i fun s => feedServer s [ascii "SELECT", db])
  | .setRole i role =>
    if role.fromPeer then none else some (w.feed i fun s => { s with role := role })
  | .startSync i j =>
    if (w.node i).gid = (w.node j).gid then none
    else some (w.setPeer i j (.syncing (w.node j).streams.peer.length))
  | .merge i j argv =>
    match (w.node i).peers j with
    | .syncing _ =>
      if procOf argv.1 = .merge then some (w.feed i fun s => propagate s ⟨false, true⟩ argv.1)
      else none
    | _ => none
  | .endSync i j =>
    match (w.node i).peers j with
    | .syncing pos => some (w.setPeer i j (.connected (.startAt pos [])))
    | _ => none
  | .peerRead i j fate =>
    if (w.node i).streams.role.iAmMaster then
      (w.nextFromPeer i j).map fun (l, argv) => w.put i ((w.node i).takeFromPeer C j l argv fate)
    else none
  | .peerForward i j =>
    match (w.node i).peers j with
    | .connected l =>
      some ((w.feed i fun s => feedMasterStream s l.done).setPeer i j
        (.connected { l with done := [] }))
    | _ => none
  | .relink i j =>
    match (w.node i).peers j with
    | .connected l => some (w.setPeer i j (.connected (.startAt l.pos l.done)))
    | _ => none
  | .unlink i j => some (w.setPeer i j .idle)
  | .attach i m pos =>
    if i ≠ m ∧ (w.node i).gid = (w.node m).gid ∧ endsUnit (w.node m).streams.own pos then
      some (w.put i { w.node i with master := some (m, .startAt pos []) })
    else none
  | .detach i => some (w.put i { w.node i with master := none })
  | .slaveRead i fate =>
    if (w.node i).streams.role.iAmMaster then none
    else (w.nextFromMaster i).map fun (m, l, argv) =>
      w.put i ((w.node i).takeFromMaster C m l argv fate)
  | .slaveForward i =>
    (w.node i).master.map fun (m, l) =>
      w.put i { w.node i with
        streams := if (w.node i).streams.role.replSlaveReplAll then (w.node i).streams
          else feedMasterStream (w.node i).streams l.done
        master := some (m, { l with done := [] }) }

/-- At the start nothing is recorded and there are no links. -/
structure World.Starts (w : World ν) : Prop where
  gid : ∀ i, Net.checkGid (w.node i).gid = true
  fromPeer : ∀ i, (w.node i).streams.role.fromPeer = false
  own : ∀ i, (w.node i).streams.own = []
  peer : ∀ i, (w.node i).streams.peer = []
  peers : ∀ i j, (w.node i).peers j = .idle
  master : ∀ i, (w.node i).master = none
  applied : ∀ i j, (w.node i).applied j = []

def network : Lib.System (World ν) (Act ν) where
  init := World.Starts
  next := World.next C

/-! ## The condition -/

/-- A queued command gets only commands with the own gid to the slaves, and keeps the
role. -/
def Submitted.ownOnly (own : Int) : Submitted → Bool
  | write _ _ => true
  | command argv => verbatimGid C argv.1 == some own || (replicated C own argv.1).isEmpty
  | slaveof _ => false

/-- A queued command keeps the role. -/
def Submitted.steady : Submitted → Bool
  | slaveof _ => false
  | _ => true

/-- The gates are open for `MULTI` and `EXEC`. -/
def Fate.keepsBrackets (fate : Fate) (argv : Argv) : Bool :=
  fate ≠ .refused ∨ (procOf argv).plain = true

/-- Local commands are not wrapped in `MULTI` and `EXEC`, transactions contain nothing
that goes to the slaves alone or changes the role, and no link is refused the beginning
or the end of a transaction. -/
def keepsGids (w : World ν) : Act ν → Bool
  | .write _ _ wrapped => !wrapped
  | .exec i queue => queue.all (Submitted.ownOnly C (w.node i).gid)
  | .crdtExec _ _ queue => queue.all Submitted.steady
  | .peerRead i j fate => (w.nextFromPeer i j).all fun (_, argv) => fate.keepsBrackets argv
  | .slaveRead i fate => (w.nextFromMaster i).all fun (_, _, argv) => fate.keepsBrackets argv
  | _ => true

end XredisCrdt.Sites
