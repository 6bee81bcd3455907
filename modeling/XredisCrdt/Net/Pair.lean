import XredisCrdt.Net.Accounts
import XredisCrdt.Repl.BacklogRuns
import XredisCrdt.Repl.PeerStream

/-!
# A master, its peers and its slave

The system of a master that executes writes and transactions of its clients, reads
the streams of several peers and feeds its slave, and of the slave, which reads
what it is fed in pieces of any size. Every act of the master is one call of a
feeding function or a series of them, or a read on the link of a peer.

`Fed` says what an act adds to the stream of the slave, unit by unit, and which
bytes of it go to the history for the peers.
-/

namespace XredisCrdt.Net

open Proto Repl List Option

variable {σ : Type}

/-! ## Calls of the feeding functions -/

/-- A call of a feeding function: for slaves and peers, or for the own slaves
only. -/
inductive FeedOp
  | all (v : FeedVariant) (dictid : Int) (argv : Argv)
  | slaves (dictid : Int) (argv : Argv)

/-- The `SELECT` that `sendSelectCommandToSlave` sends. -/
def selectArgv (dictid : Int) : Argv := [ascii "SELECT", ll2string dictid]

namespace FeedOp

def dictid : FeedOp → Int
  | all _ d _ => d
  | slaves d _ => d

def argv : FeedOp → Argv
  | all _ _ a => a
  | slaves _ a => a

/-- Do the peers get the command as well? -/
def isAll : FeedOp → Bool
  | all .. => true
  | slaves .. => false

def apply (f : FeedState) : FeedOp → FeedState
  | all v d a => feedVariant v f d a
  | slaves d a => replicationFeedSlaves f false d a

/-- The selection that precedes the command. -/
def select (f : FeedState) : FeedOp → List Argv
  | all _ d _ =>
    if f.serverSeldb ≠ d ∨ f.crdtSeldb ≠ d then [crdtSelectArgv f.crdtGid d] else []
  | slaves d _ => if f.serverSeldb ≠ d then [selectArgv d] else []

end FeedOp

def applyAll (f : FeedState) (ops : List FeedOp) : FeedState := ops.foldl FeedOp.apply f

/-- The commands that the slaves get. -/
def commandsOf : FeedState → List FeedOp → List Argv
  | _, [] => []
  | f, op :: ops => op.select f ++ op.argv :: commandsOf (op.apply f) ops

/-! ## Configuration -/

def isEviction (argv : Argv) : Bool :=
  strcaseeq (argv.headD []) (ascii "crdt.evictiontombstone")

/-- The database that `SELECT`, or the `CRDT.SELECT` of the module, is to select. -/
def selectArg (argv : Argv) : Option Int :=
  if strcaseeq (argv.headD []) (ascii "select") then argv[1]?.bind string2ll
  else if isCrdtSelect argv then argv[2]?.bind string2ll
  else none

/-- The database after a command. One that does not exist is not selected. -/
def nextDb (cfg : StreamConfig) (db : Int) (argv : Argv) : Int :=
  ((selectArg argv).filter fun d => ValidDb cfg d).getD db

theorem nextDb_valid {cfg : StreamConfig} {db : Int} (h : ValidDb cfg db) (argv : Argv) :
    ValidDb cfg (nextDb cfg db argv) := by
  unfold nextDb
  cases hd : (selectArg argv).filter fun d => ValidDb cfg d with
  | none => exact h
  | some d =>
    obtain ⟨-, hvalid⟩ := filter_eq_some_iff.mp hd
    simpa using hvalid

/-- Every `CRDT.EXEC` of the stream closes a transaction. -/
def WellNested (P : Procs σ) (stream : List Argv) : Prop :=
  ∀ cmds argv rest g, stream = cmds ++ argv :: rest → role P argv = some (.closes g) →
    (txnOf P cmds).cur ≠ []

/-- The node with the gid `gid` and the peers `peers`, the stream that each peer
sends, and the offset of its link at the beginning. `gidOf` is the gid that a
command carries, `wrote` what a write of a client does to the data set. The fields
below say what is known of the module and of the streams. -/
structure PairConfig (σ : Type) extends StreamConfig where
  procs : Procs σ
  gidOf : Argv → Option Int
  wrote : σ → Int → Argv → σ
  gid : Int
  peers : List Int
  stream : Int → List Argv
  start : Int → Int
  gid_ok : checkGid gid = true
  gidLaw : GidLaw procs gidOf
  run_db : ∀ w db argv, ValidDb toStreamConfig db →
    ValidDb toStreamConfig (procs.run w db argv).2.1
  table_gid : ∀ argv, (tableCommand (argv.headD [])).isSome → gidOf argv = none
  select_role : ∀ g d, role procs (crdtSelectArgv g d) = some .plain
  select_gid : ∀ d, ValidDb toStreamConfig d → gidOf (crdtSelectArgv gid d) = some gid
  ovc_role : ∀ vclock, role procs (ovcArgv gid vclock) = some .plain
  ovc_gid : ∀ vclock, gidOf (ovcArgv gid vclock) = some gid
  peers_ok : ∀ g ∈ peers, g ≠ gid
  carries : ∀ g ∈ peers, LinkStream procs (some g) maxBulk (stream g)
  roles : ∀ g ∈ peers, ∀ argv ∈ stream g, (role procs argv).isSome
  nested : ∀ g ∈ peers, WellNested procs (stream g)
  carry : ∀ g ∈ peers, ∀ argv ∈ stream g, role procs argv = some .plain →
    gidOf argv = some g ∨ isEviction argv = true

namespace PairConfig

variable (cfg : PairConfig σ)

/-- The link of a peer. -/
def link {g : Int} (hg : g ∈ cfg.peers) : LinkConfig σ where
  procs := cfg.procs
  peer := some g
  maxBulk := cfg.maxBulk
  stream := cfg.stream g
  start := cfg.start g
  carries := cfg.carries g hg

/-- A write of the module with the own gid. -/
structure OwnWrite (argv : Argv) : Prop where
  feedable : Feedable cfg.toStreamConfig argv
  plain : role cfg.procs argv = some .plain
  gid : cfg.gidOf argv = some cfg.gid

/-- A command of the server itself that is replicated to the own slaves. -/
structure ServerWrite (argv : Argv) : Prop where
  feedable : Feedable cfg.toStreamConfig argv
  plain : role cfg.procs argv = some .plain
  table : (tableCommand (argv.headD [])).isSome

instance (argv : Argv) : Decidable (cfg.OwnWrite argv) :=
  decidable_of_iff (Feedable cfg.toStreamConfig argv ∧ role cfg.procs argv = some .plain ∧
    cfg.gidOf argv = some cfg.gid) ⟨fun h => ⟨h.1, h.2.1, h.2.2⟩, fun h => ⟨h.1, h.2, h.3⟩⟩

instance (argv : Argv) : Decidable (cfg.ServerWrite argv) :=
  decidable_of_iff (Feedable cfg.toStreamConfig argv ∧ role cfg.procs argv = some .plain ∧
    (tableCommand (argv.headD [])).isSome)
    ⟨fun h => ⟨h.1, h.2.1, h.2.2⟩, fun h => ⟨h.1, h.2, h.3⟩⟩

/-- A call that a client can cause. -/
def OpOk : FeedOp → Prop
  | .all _ d argv => ValidDb cfg.toStreamConfig d ∧ cfg.OwnWrite argv
  | .slaves d argv => ValidDb cfg.toStreamConfig d ∧ cfg.ServerWrite argv

instance : (op : FeedOp) → Decidable (cfg.OpOk op)
  | .all .. => inferInstanceAs (Decidable (_ ∧ _))
  | .slaves .. => inferInstanceAs (Decidable (_ ∧ _))

variable {cfg} in
theorem OpOk.dictid {op : FeedOp} (h : cfg.OpOk op) : ValidDb cfg.toStreamConfig op.dictid := by
  cases op with
  | all v d argv => exact h.1
  | slaves d argv => exact h.1

variable {cfg} in
theorem OpOk.wf {op : FeedOp} (h : cfg.OpOk op) : WfCommand cfg.maxBulk op.argv := by
  cases op with
  | all v d argv => exact h.2.feedable.wf
  | slaves d argv => exact h.2.feedable.wf

variable {cfg} in
theorem OpOk.plain {op : FeedOp} (h : cfg.OpOk op) : role cfg.procs op.argv = some .plain := by
  cases op with
  | all v d argv => exact h.2.plain
  | slaves d argv => exact h.2.plain

/-- The calls of `execCommand`: the transaction of a client with the calls of its
commands between `CRDT.MULTI` and `CRDT.EXEC`. -/
def execOps (d : Int) (body : List FeedOp) (d' : Int) : List FeedOp :=
  .all .argv d (multiArgv cfg.gid) :: body ++ [.all .argv d' (execArgv cfg.gid)]

end PairConfig

/-! ## States -/

/-- A master. A link is stored with the node as it was when it was last read; the
parts that are common to all links are stored once. -/
structure Master (σ : Type) where
  server : Server
  peers : Int → Option Peer
  feed : FeedState
  world : σ
  links : Int → LinkState σ

/-- The node with the client of a peer. -/
def Master.view (m : Master σ) (g : Int) : LinkState σ :=
  { m.links g with node := { (m.links g).node with
      server := m.server, peers := m.peers, feed := m.feed, world := m.world } }

/-- Store the node after the link of a peer has been read. -/
def Master.store (m : Master σ) (g : Int) (s : LinkState σ) : Master σ :=
  { m with
    peers := s.node.peers
    feed := s.node.feed
    world := s.node.world
    links := Function.update m.links g s }

/-- Read bytes from a peer. -/
def Master.read (P : Procs σ) (m : Master σ) (g : Int) (bytes : Bytes) : Master σ :=
  m.store g ⟨readQueryFromClient P (m.view g).node bytes, (m.links g).received + bytes.length⟩

theorem Master.view_store_self (m : Master σ) (g : Int) {s : LinkState σ}
    (h : s.node.server = m.server) : (m.store g s).view g = s := by
  simp only [Master.view, Master.store, Function.update_self, ← h]

theorem Master.view_store_other (m : Master σ) {g g' : Int} (s : LinkState σ) (h : g' ≠ g) :
    (m.store g s).view g' = { m.view g' with node := { (m.view g').node with
      server := m.server, peers := s.node.peers, feed := s.node.feed,
      world := s.node.world } } := by
  simp only [Master.view, Master.store, Function.update_of_ne h]

/-- A master and the first of its slaves, with the number of bytes that it has
read. -/
structure Pair (σ : Type) where
  master : Master σ
  slave : LinkState σ

/-- What the slave has been sent. -/
def Pair.out (p : Pair σ) : Bytes := (p.master.feed.slaves.head?.map SlaveLink.out).getD []

/-- The commands in it. -/
def Pair.sent (cfg : PairConfig σ) (p : Pair σ) : List Argv :=
  decodeCommands cfg.maxBulk p.out.length p.out

/-- Call feeding functions for the commands `noted` and others around them. -/
def Pair.feedOps (cfg : PairConfig σ) (p : Pair σ) (ops noted : List FeedOp) : Pair σ :=
  { p with master := { p.master with
      feed := applyAll p.master.feed ops
      world := noted.foldl (fun w op => cfg.wrote w op.dictid op.argv) p.master.world } }

/-- The acts of the master and of its slave, whose roles stay. What each command finds
otherwise is in the `moments` of the links. -/
inductive PairAct
  | write (v : FeedVariant) (dictid : Int) (argv : Argv)
  | exec (dictid : Int) (body : List FeedOp) (dictid' : Int)
  | ovc (vclock : Bytes)
  | evict (dictid : Int) (key vclock : Bytes)
  | feedSlaves (dictid : Int) (argv : Argv)
  | cron (argv : Argv)
  | peerRead (gid : Int) (k : Nat)
  | slaveRead (k : Nat)

variable (cfg : PairConfig σ)

section Next

variable {cfg} {p : Pair σ}

end Next

/-! ## Bytes of the feeding functions -/

section Feeds

variable {f : FeedState}

theorem replicationFeedSlaves_adds (d : Int) (argv : Argv) (hmaster : f.proxying = false)
    (hslaves : f.slaves ≠ []) :
    Adds f (replicationFeedSlaves f false d argv)
      (encoded ((if f.serverSeldb ≠ d then [selectArgv d] else []) ++ [argv])) [] ∧
      (replicationFeedSlaves f false d argv).serverSeldb = d ∧
      (replicationFeedSlaves f false d argv).crdtSeldb = f.crdtSeldb := by
  have hne : f.slaves.isEmpty = false := by simpa using hslaves
  have hpieces : encoded [argv] = (commandPieces argv).flatten := by
    rw [commandPieces_flatten]
    simp [encoded]
  unfold replicationFeedSlaves
  rw [if_neg (by simp [hmaster]), if_neg (by simp [hne])]
  simp only [foldl_feedServer, foldl_replySlaves]
  by_cases hd : f.serverSeldb = d
  · rw [if_neg (by simpa using hd), if_neg (by simpa using hd), nil_append, hpieces]
    refine ⟨⟨rfl, (SlaveLink.map_addReply_nil _).symm, fedBy_foldl _ _, fedBy_nil _, rfl, rfl⟩, hd,
      rfl⟩
  · rw [if_pos hd, if_pos hd, encoded_append, hpieces]
    have hsel : Adds f (sendSelectCommandToSlave f d) (encoded [selectArgv d]) [] := by
      have henc : encoded [selectArgv d] = selectCmd d := by
        rw [selectCmd_eq]
        simp [encoded, selectArgv]
      rw [henc]
      exact ⟨rfl, (SlaveLink.map_addReply_nil _).symm, fedBy_one _ _, fedBy_nil _, rfl, rfl⟩
    have hcmd : Adds (sendSelectCommandToSlave f d)
        (FeedState.replySlaves { sendSelectCommandToSlave f d with
          servers := (sendSelectCommandToSlave f d).servers.update .server
            ((commandPieces argv).foldl feedIfBacklog ·) } (commandPieces argv).flatten)
        (commandPieces argv).flatten [] :=
      ⟨rfl, (SlaveLink.map_addReply_nil _).symm, fedBy_foldl _ _, fedBy_nil _, rfl, rfl⟩
    exact ⟨hsel.trans hcmd, rfl, rfl⟩

/-- What a call adds for the slaves and for the peers, and what is selected then. -/
theorem FeedOp.apply_adds (op : FeedOp) (hmaster : f.proxying = false) (hslaves : f.slaves ≠ []) :
    Adds f (op.apply f) (encoded (op.select f ++ [op.argv]))
      (if op.isAll then encoded (op.select f ++ [op.argv]) else []) ∧
      (op.apply f).serverSeldb = op.dictid ∧
      (op.apply f).crdtSeldb = if op.isAll then op.dictid else f.crdtSeldb := by
  cases op with
  | all v d argv =>
    have hbytes : encoded (FeedOp.select f (.all v d argv) ++ [argv]) = feedAllBytes f d argv := by
      rw [feedAllBytes_eq, encoded, FeedOp.select, feedCommands]
      split
      · rfl
      · rfl
    obtain ⟨hadds, hsel⟩ := feedVariant_adds v d argv hmaster
    refine ⟨?_, hsel⟩
    show Adds f (feedVariant v f d argv) (encoded (FeedOp.select f (.all v d argv) ++ [argv]))
      (encoded (FeedOp.select f (.all v d argv) ++ [argv]))
    rw [hbytes]
    exact hadds
  | slaves d argv => exact replicationFeedSlaves_adds d argv hmaster hslaves

theorem slaves_ne_nil_of_adds {f' : FeedState} {p q : Bytes} (h : Adds f f' p q)
    (hne : f.slaves ≠ []) :
    f'.slaves ≠ [] := by
  rw [h.slaves]
  simpa using hne

/-- The commands that go to the peers. -/
def peerCommandsOf : FeedState → List FeedOp → List Argv
  | _, [] => []
  | f, op :: ops =>
    (if op.isAll then op.select f ++ [op.argv] else []) ++ peerCommandsOf (op.apply f) ops

theorem applyAll_adds (ops : List FeedOp) (hmaster : f.proxying = false) (hslaves : f.slaves ≠ []) :
    Adds f (applyAll f ops) (encoded (commandsOf f ops)) (encoded (peerCommandsOf f ops)) := by
  induction ops generalizing f with
  | nil => exact .refl f
  | cons op ops ih =>
    have hop := (op.apply_adds hmaster hslaves).1
    have hrest := ih (f := op.apply f) (by rw [hop.proxying]; exact hmaster)
      (slaves_ne_nil_of_adds hop hslaves)
    have hall := hop.trans hrest
    have hcmds : commandsOf f (op :: ops) =
        (op.select f ++ [op.argv]) ++ commandsOf (op.apply f) ops := by
      simp [commandsOf]
    have hpeers : encoded (peerCommandsOf f (op :: ops)) =
        (if op.isAll then encoded (op.select f ++ [op.argv]) else []) ++
          encoded (peerCommandsOf (op.apply f) ops) := by
      rw [peerCommandsOf, encoded_append]
      split <;> rfl
    rw [hcmds, encoded_append, hpeers]
    exact hall

end Feeds

/-! ## Commands of the server -/

section Roles

variable {P : Procs σ}

/-- The role of a command of the table that is not about transactions. -/
theorem role_table {name : Bytes} {args : List Bytes} {cmd : Command}
    (h : tableCommand name = some cmd) (harity : wrongArity cmd (args.length + 1) = false)
    (hquit : strcaseeq name (ascii "quit") = false)
    (hproc : cmd.proc = .other ∨ cmd.proc = .pingCommand ∨ cmd.proc = .replconfCommand) :
    role P (name :: args) = some .plain := by
  have hlook : lookupCommand P ((name :: args).headD []) = some cmd := lookupCommand_table h
  have hstop : ¬ (wrongArity cmd (name :: args).length = true ∨
      strcaseeq ((name :: args).headD []) (ascii "quit") = true) := by
    rw [length_cons, harity, headD_cons, hquit]
    simp
  rw [role, hlook, bind_some, if_neg hstop]
  rcases hproc with hp | hp | hp
  · simp [hp]
  · simp [hp]
  · simp [hp]

/-- The entries for the commands that the server feeds itself. -/
theorem tableCommand_entries :
    tableCommand (ascii "SELECT") = some (tableEntry "select" .other 2 "lF") ∧
      tableCommand (ascii "CRDT.EVICTIONTOMBSTONE") =
        some (tableEntry "crdt.evictiontombstone" .other 4 "rF") ∧
      tableCommand (ascii "PING") = some (tableEntry "ping" .pingCommand (-1) "tF") ∧
      tableCommand (ascii "REPLCONF") = some (tableEntry "replconf" .replconfCommand (-1) "aslt") ∧
      tableCommand (ascii "CRDT.MULTI") = some (tableEntry "crdt.multi" .multiCommand 2 "sF") ∧
      tableCommand (ascii "CRDT.EXEC") =
        some (tableEntry "crdt.exec" .crdtExecCommand 2 "sM") := by decide +kernel

theorem tableCommand_select :
    tableCommand (ascii "SELECT") = some (tableEntry "select" .other 2 "lF") :=
  tableCommand_entries.1

theorem role_selectArgv (d : Int) : role P (selectArgv d) = some .plain :=
  role_table tableCommand_select rfl (by decide) (.inl rfl)

theorem role_multiArgv (gid : Int) : role P (multiArgv gid) = some .opens := by
  have hlook : lookupCommand P ((multiArgv gid).headD []) =
      some (tableEntry "crdt.multi" .multiCommand 2 "sF") :=
    lookupCommand_table tableCommand_entries.2.2.2.2.1
  have hstop : ¬ (false = true ∨ strcaseeq (ascii "CRDT.MULTI") (ascii "quit") = true) := by decide
  rw [role, hlook, bind_some]
  exact if_neg hstop

theorem isLongLong_of_checkGid {g : Int} (h : checkGid g = true) : IsLongLong g := by
  simp only [checkGid, decide_eq_true_eq] at h
  constructor
  · simp only [llongMax]
    omega
  · simp only [llongMax]
    omega

theorem role_execArgv {gid : Int} (h : checkGid gid = true) :
    role P (execArgv gid) = some (.closes gid) := by
  have hlook : lookupCommand P ((execArgv gid).headD []) =
      some (tableEntry "crdt.exec" .crdtExecCommand 2 "sM") :=
    lookupCommand_table tableCommand_entries.2.2.2.2.2
  have hstop : ¬ (false = true ∨ strcaseeq (ascii "CRDT.EXEC") (ascii "quit") = true) := by decide
  rw [role, hlook, bind_some]
  refine (if_neg hstop).trans ?_
  show (execGid (execArgv gid)).map Role.closes = _
  rw [execGid_execArgv h]
  rfl

/-- A stream may carry every command that has a role. -/
theorem linkCommand_of_role {argv : Argv} (h : (role P argv).isSome) :
    LinkCommand P none argv := by
  obtain ⟨ρ, hρ⟩ := isSome_iff_exists.mp h
  obtain ⟨cmd, hwf⟩ := (role_spec hρ).wellFormed
  refine ⟨hwf.not_quit, ?_, fun _ _ _ _ hpeer => absurd hpeer (by simp)⟩
  intro e he hend
  have hsome : (role P argv).isSome := h
  rw [role, he, bind_some] at hsome
  split at hsome
  · exact absurd hsome (by simp)
  · rw [hend] at hsome
    exact absurd hsome (by simp)

end Roles

section Wf

variable {cfg : PairConfig σ}

/-- A short command of the server is well-formed. -/
theorem wfCommand_of_short {argv : Argv} (hne : argv ≠ []) (hargc : argv.length ≤ 3)
    (hlen : ∀ a ∈ argv, a.length ≤ 64) : WfCommand cfg.maxBulk argv where
  ne_nil := hne
  argc_le := Nat.le_trans hargc (by decide)
  bulk_le := fun a ha => Nat.le_trans (hlen a ha) cfg.maxBulk_ge

/-- A name and a number. -/
theorem wfCommand_number {name : Bytes} {d : Int} (hname : name.length ≤ 64) (h : IsLongLong d) :
    WfCommand cfg.maxBulk [name, ll2string d] := by
  refine wfCommand_of_short (by simp) (by simp) ?_
  intro a ha
  simp only [mem_cons, not_mem_nil, or_false] at ha
  rcases ha with rfl | rfl
  · exact hname
  · exact h.length_le

theorem wfCommand_selectArgv {d : Int} (h : IsLongLong d) :
    WfCommand cfg.maxBulk (selectArgv d) :=
  wfCommand_number (by decide) h

theorem wfCommand_multiArgv : WfCommand cfg.maxBulk (multiArgv cfg.gid) :=
  wfCommand_number (by decide) (isLongLong_of_checkGid cfg.gid_ok)

theorem wfCommand_execArgv : WfCommand cfg.maxBulk (execArgv cfg.gid) :=
  wfCommand_number (by decide) (isLongLong_of_checkGid cfg.gid_ok)

end Wf

end XredisCrdt.Net
