import XredisCrdt.Net.PairAccounts

/-!
# A slave executes commands in the database of its master

A slave executes the stream of its master with one client, so that the database of a
command is the one that was selected last. The master knows which that is from
`server.slaveseldb`, as long as nothing but its own feeding functions selects: what it
passes on from a peer may select other databases.

In `PairConfig.logged` the data set is the list of the executed commands with their
databases.
-/

namespace XredisCrdt.Net

open Proto Repl List Option FeedOp

variable {σ : Type}

/-! ## Executed commands -/

/-- Executed commands with their databases. -/
abbrev Log := List (Int × Argv)

/-- The commands of the module, and `SELECT` and `CRDT.SELECT` as they select. -/
def loggingProcs (cfg : PairConfig σ) : Procs Log where
  moduleCommands := cfg.procs.moduleCommands
  run log db argv := (log ++ [(db, argv)], nextDb cfg.toStreamConfig db argv, cfg.gidOf argv)

/-- The same nodes and streams, with a log of what is executed. -/
def PairConfig.logged (cfg : PairConfig σ) : PairConfig Log where
  toStreamConfig := cfg.toStreamConfig
  procs := loggingProcs cfg
  gidOf := cfg.gidOf
  wrote log db argv := log ++ [(db, argv)]
  gid := cfg.gid
  peers := cfg.peers
  stream := cfg.stream
  start := cfg.start
  gid_ok := cfg.gid_ok
  gidLaw := ⟨fun _ _ _ => rfl, cfg.gidLaw.valid⟩
  run_db := fun _ _ argv h => nextDb_valid h argv
  table_gid := cfg.table_gid
  select_role := cfg.select_role
  select_gid := cfg.select_gid
  ovc_role := cfg.ovc_role
  ovc_gid := cfg.ovc_gid
  peers_ok := cfg.peers_ok
  carries := fun g hg =>
    ⟨(cfg.carries g hg).maxBulk_le, (cfg.carries g hg).wf, fun argv hargv =>
      ⟨((cfg.carries g hg).link argv hargv).not_quit,
        ((cfg.carries g hg).link argv hargv).not_mergeEnd,
        ((cfg.carries g hg).link argv hargv).exec_gid⟩⟩
  roles := cfg.roles
  nested := cfg.nested
  carry := cfg.carry

section Logs

variable (cfg : StreamConfig)

/-- The database after some commands. -/
def dbAfter (db : Int) (cmds : List Argv) : Int := cmds.foldl (nextDb cfg) db

/-- The log of some commands that begin in a database. -/
def logFrom : Int → List Argv → Log
  | _, [] => []
  | db, argv :: cmds => (db, argv) :: logFrom (nextDb cfg db argv) cmds

theorem dbAfter_append (db : Int) (cmds cmds' : List Argv) :
    dbAfter cfg db (cmds ++ cmds') = dbAfter cfg (dbAfter cfg db cmds) cmds' :=
  foldl_append

theorem logFrom_append (db : Int) (cmds cmds' : List Argv) :
    logFrom cfg db (cmds ++ cmds') =
      logFrom cfg db cmds ++ logFrom cfg (dbAfter cfg db cmds) cmds' := by
  induction cmds generalizing db with
  | nil => rfl
  | cons argv cmds ih => exact congrArg _ (ih _)

end Logs

theorem runAll_loggingProcs (cfg : PairConfig σ) (log : Log) (db : Int) (cmds : List Argv) :
    runAll (loggingProcs cfg) (log, db) cmds =
      (log ++ logFrom cfg.toStreamConfig db cmds, dbAfter cfg.toStreamConfig db cmds) := by
  induction cmds generalizing log db with
  | nil => rw [logFrom, append_nil]; rfl
  | cons argv cmds ih =>
    refine (ih (log ++ [(db, argv)]) (nextDb cfg.toStreamConfig db argv)).trans ?_
    rw [append_assoc]
    rfl

/-- The commands that work on no database: selections, and what the server sends without
having executed it. -/
def noDataNames : List Bytes :=
  [ascii "select", crdtSelectName, ascii "ping", ascii "replconf", ascii "crdt.ovc"]

def isDataCommand (argv : Argv) : Bool :=
  !noDataNames.any fun name => strcaseeq (argv.headD []) name

/-- The commands of a log that work on a database. -/
def dataLog (log : Log) : Log := log.filter fun e => isDataCommand e.2

theorem dataLog_append (log log' : Log) : dataLog (log ++ log') = dataLog log ++ dataLog log' :=
  filter_append ..

theorem dataLog_cons_other {db : Int} {argv : Argv} (h : isDataCommand argv = false)
    (log : Log) : dataLog ((db, argv) :: log) = dataLog log :=
  filter_cons_of_neg (by simp [h])

/-! ## Selections -/

section Select

variable {cfg : StreamConfig} {f : FeedState} {db d : Int}

theorem nextDb_of_select {argv : Argv} (h : selectArg argv = some d) :
    nextDb cfg db argv = if ValidDb cfg d then d else db := by
  rw [nextDb, h]
  by_cases hd : ValidDb cfg d
  · rw [if_pos hd, filter_some, if_pos (by simpa using hd)]
    rfl
  · rw [if_neg hd, filter_some, if_neg (by simpa using hd)]
    rfl

theorem nextDb_of_none {argv : Argv} (h : selectArg argv = none) :
    nextDb cfg db argv = db := by
  rw [nextDb, h]
  rfl

theorem selectArg_selectArgv (h : IsLongLong d) : selectArg (selectArgv d) = some d := by
  have hname : strcaseeq ((selectArgv d).headD []) (ascii "select") = true :=
    show strcaseeq (ascii "SELECT") (ascii "select") = true by decide
  rw [selectArg, if_pos hname]
  exact h.string2ll

theorem selectArg_crdtSelectArgv {g : Int} (h : IsLongLong d) :
    selectArg (crdtSelectArgv g d) = some d := by
  have hname : ¬ strcaseeq ((crdtSelectArgv g d).headD []) (ascii "select") = true :=
    show ¬ strcaseeq crdtSelectName (ascii "select") = true by decide
  rw [selectArg, if_neg hname, if_pos (isCrdtSelect_crdtSelectArgv g d)]
  exact h.string2ll

/-- `SELECT` and `CRDT.SELECT` are no data commands. -/
theorem isDataCommand_select : isDataCommand [ascii "SELECT"] = false ∧
    isDataCommand [crdtSelectName] = false := by decide

/-- If `server.slaveseldb` is a database, the stream of the slaves is in it. -/
def Selected (cfg : StreamConfig) (f : FeedState) (db : Int) : Prop :=
  ValidDb cfg f.serverSeldb → db = f.serverSeldb

/-- Before a command its database is selected, or `server.slaveseldb` is that already. -/
theorem FeedOp.select_cases (op : FeedOp) (h : IsLongLong op.dictid) :
    (op.select f = [] ∧ f.serverSeldb = op.dictid) ∨
      ∃ argv, op.select f = [argv] ∧ selectArg argv = some op.dictid ∧
        isDataCommand argv = false := by
  cases op with
  | all v d argv =>
    by_cases hsel : f.serverSeldb ≠ d ∨ f.crdtSeldb ≠ d
    · exact .inr ⟨_, if_pos hsel, selectArg_crdtSelectArgv h, isDataCommand_select.2⟩
    · exact .inl ⟨if_neg hsel, not_not.1 fun hne => hsel (.inl hne)⟩
  | slaves d argv =>
    by_cases hsel : f.serverSeldb ≠ d
    · exact .inr ⟨_, if_pos hsel, selectArg_selectArgv h, isDataCommand_select.1⟩
    · exact .inl ⟨if_neg hsel, not_not.1 hsel⟩

/-- The stream is in the database of a command before it. -/
theorem dbAfter_select (op : FeedOp) (hop : ValidDb cfg op.dictid) (hsel : Selected cfg f db) :
    dbAfter cfg db (op.select f) = op.dictid ∧ dataLog (logFrom cfg db (op.select f)) = [] := by
  rcases op.select_cases (f := f) hop.isLongLong with ⟨hnil, hd⟩ | ⟨argv, hone, harg, hdata⟩
  · rw [hnil]
    refine ⟨?_, rfl⟩
    rw [← hd] at hop ⊢
    exact hsel hop
  · rw [hone]
    refine ⟨?_, dataLog_cons_other hdata _⟩
    show nextDb cfg db argv = _
    rw [nextDb_of_select harg, if_pos hop]

end Select

/-! ## Calls of the feeding functions -/

section Feeds

variable {cfg : PairConfig σ} {f : FeedState} {db : Int}

theorem plainOf_append (P : Procs σ) (cmds cmds' : List Argv) :
    plainOf P (cmds ++ cmds') = plainOf P cmds ++ plainOf P cmds' :=
  filter_append ..

theorem plainOf_select (op : FeedOp) : plainOf cfg.procs (op.select f) = op.select f := by
  refine filter_eq_self.2 fun argv hargv => ?_
  rw [decide_eq_true_iff]
  cases op with
  | all v d a =>
    simp only [select, mem_ite_nil_right, mem_singleton] at hargv
    rw [hargv.2]
    exact cfg.select_role _ _
  | slaves d a =>
    simp only [select, mem_ite_nil_right, mem_singleton] at hargv
    rw [hargv.2]
    exact role_selectArgv d

/-- What a call notes, if its command is one that is run. -/
def FeedOp.noted (cfg : PairConfig σ) (op : FeedOp) : Log :=
  if role cfg.procs op.argv = some .plain then [(op.dictid, op.argv)] else []

/-- The command of a call, in the database of the call. -/
theorem log_argv (op : FeedOp)
    (h : role cfg.procs op.argv = some .plain → selectArg op.argv = none) :
    logFrom cfg.toStreamConfig op.dictid (plainOf cfg.procs [op.argv]) = op.noted cfg ∧
      dbAfter cfg.toStreamConfig op.dictid (plainOf cfg.procs [op.argv]) = op.dictid := by
  by_cases hplain : role cfg.procs op.argv = some .plain
  · rw [noted, if_pos hplain, plainOf, filter_cons_of_pos (by simpa using hplain)]
    exact ⟨rfl, nextDb_of_none (h hplain)⟩
  · rw [noted, if_neg hplain, plainOf, filter_cons_of_neg (by simpa using hplain)]
    exact ⟨rfl, rfl⟩

/-- What the slaves log of some calls is what the calls note, and the stream is in the
database of the last one. -/
theorem log_commandsOf {ops : List FeedOp} (hf : Feeding cfg f)
    (hdb : ∀ op ∈ ops, ValidDb cfg.toStreamConfig op.dictid)
    (hselect : ∀ op ∈ ops, role cfg.procs op.argv = some .plain → selectArg op.argv = none)
    (hsel : Selected cfg.toStreamConfig f db) :
    dataLog (logFrom cfg.toStreamConfig db (plainOf cfg.procs (commandsOf f ops))) =
        dataLog (ops.flatMap (noted cfg)) ∧
      Selected cfg.toStreamConfig (applyAll f ops)
        (dbAfter cfg.toStreamConfig db (plainOf cfg.procs (commandsOf f ops))) := by
  induction ops generalizing f db with
  | nil => exact ⟨rfl, hsel⟩
  | cons op ops ih =>
    obtain ⟨hat, hquiet⟩ := dbAfter_select op (hdb op mem_cons_self) hsel
    obtain ⟨hlog, hstays⟩ := log_argv op (hselect op mem_cons_self)
    have hseldb := (op.apply_adds hf.topLevel hf.slaves).2.1
    have hnext : Selected cfg.toStreamConfig (op.apply f) op.dictid := fun _ => hseldb.symm
    obtain ⟨hrest, hlast⟩ := ih (hf.applyAll [op]) (fun o ho => hdb o (mem_cons_of_mem _ ho))
      (fun o ho => hselect o (mem_cons_of_mem _ ho)) hnext
    have hcmds : plainOf cfg.procs (commandsOf f (op :: ops)) =
        op.select f ++ (plainOf cfg.procs [op.argv] ++
          plainOf cfg.procs (commandsOf (op.apply f) ops)) := by
      rw [commandsOf, plainOf_append, plainOf_select, ← singleton_append, plainOf_append]
    rw [hcmds, logFrom_append, logFrom_append, dbAfter_append, dbAfter_append, hat, hlog, hstays,
      dataLog_append, dataLog_append, hquiet, nil_append, flatMap_cons, dataLog_append]
    exact ⟨congrArg _ hrest, hlast⟩

end Feeds

/-! ## Runs -/

/-- The units that the next `k` bytes of a peer complete. -/
def dueUnits (cfg : PairConfig σ) (m : Master Log) (g : Int) (k : Nat) :
    List (List Argv) :=
  (txnOf cfg.procs ((cfg.stream g).take
    (completeCommands (cfg.stream g) ((m.view g).received + k)))).done.drop
      (m.consumed cfg.logged g).length

/-- What is passed on from a peer ends in the database in which it began. No client has
`SELECT` sent to the slaves, and every command is let through where it is read. -/
def KeepsDb (cfg : PairConfig σ) (p : Pair Log) : PairAct → Prop
  | .exec _ body _ => ∀ op ∈ body, selectArg op.argv = none
  | .feedSlaves _ argv => selectArg argv = none
  | .peerRead g k =>
    OpenFor cfg.logged.procs (p.master.view g).node (dueCommands (cfg.stream g)
      (p.master.view g).node.trace.length ((p.master.view g).received + k)) ∧
    dbAfter cfg.toStreamConfig (p.master.view g).node.c.db
      (plainOf cfg.procs (dueUnits cfg p.master g k).flatten) = (p.master.view g).node.c.db
  | .slaveRead k => OpenFor cfg.logged.procs p.slave.node
      (dueCommands (p.sent cfg.logged) p.slave.node.trace.length (p.slave.received + k))
  | _ => True

/-- The slave was in `db₀` when it was sent the units `us`. -/
structure DbInv (cfg : PairConfig σ) (start db₀ : Int) (us : List (List Argv))
    (p : Pair Log) : Prop where
  wire : WireInv cfg.logged start us p
  seldb : IsLongLong p.master.feed.serverSeldb
  selected : Selected cfg.toStreamConfig p.master.feed
    (dbAfter cfg.toStreamConfig db₀ (plainOf cfg.procs us.flatten))
  master : dataLog p.master.world =
    dataLog (logFrom cfg.toStreamConfig db₀ (plainOf cfg.procs us.flatten))
  slave : (p.slave.node.world, p.slave.node.c.db) =
    runAll cfg.logged.procs ([], db₀) (plainOf cfg.procs (p.consumed cfg.logged).flatten)

section Steps

variable {cfg : PairConfig σ} {p : Pair Log} {start db₀ : Int} {us : List (List Argv)}

theorem plainOf_flatten_append (us vs : List (List Argv)) :
    plainOf cfg.procs (us ++ vs).flatten =
      plainOf cfg.procs us.flatten ++ plainOf cfg.procs vs.flatten := by
  rw [flatten_append, plainOf_append]

theorem foldl_noted (noted : List FeedOp) (log : Log) :
    noted.foldl (fun log op => log ++ [(op.dictid, op.argv)]) log =
      log ++ noted.map fun op => (op.dictid, op.argv) := by
  induction noted generalizing log with
  | nil => simp
  | cons op noted ih => rw [foldl_cons, ih, append_assoc]; rfl

/-- Calls of feeding functions that log for the slave what they note. -/
theorem DbInv.feed (h : DbInv cfg start db₀ us p) {ops noted : List FeedOp}
    {vs : List (List Argv)} (hvs : Sendable cfg.logged vs)
    (hflatten : vs.flatten = commandsOf p.master.feed ops)
    (hlong : IsLongLong (applyAll p.master.feed ops).serverSeldb)
    (hlog : ∀ db, Selected cfg.toStreamConfig p.master.feed db →
      dataLog (logFrom cfg.toStreamConfig db (plainOf cfg.procs (commandsOf p.master.feed ops))) =
      dataLog (noted.map fun op => (op.dictid, op.argv)) ∧
      Selected cfg.toStreamConfig (applyAll p.master.feed ops) (dbAfter cfg.toStreamConfig db
      (plainOf cfg.procs (commandsOf p.master.feed ops)))) :
    DbInv cfg start db₀ (us ++ vs) (p.feedOps cfg.logged ops noted) := by
  have hf := h.wire.feeding
  have hadds := applyAll_adds ops hf.topLevel hf.slaves
  rw [← hflatten] at hadds
  obtain ⟨hdata, hselected⟩ := hlog _ h.selected
  rw [← hflatten] at hdata hselected
  have hworld : (p.feedOps cfg.logged ops noted).master.world =
      p.master.world ++ noted.map fun op => (op.dictid, op.argv) := foldl_noted _ _
  refine ⟨h.wire.feed hvs hadds _, hlong, ?_, ?_, h.slave⟩
  · rw [plainOf_flatten_append, dbAfter_append]
    exact hselected
  · rw [hworld, dataLog_append, h.master, plainOf_flatten_append, logFrom_append, dataLog_append,
      hdata]

/-- The selected database after calls with databases. -/
theorem applyAll_seldb {f : FeedState} (hf : Feeding cfg.logged f) {ops : List FeedOp}
    (hdb : ∀ op ∈ ops, ValidDb cfg.toStreamConfig op.dictid) (hlong : IsLongLong f.serverSeldb) :
    IsLongLong (applyAll f ops).serverSeldb := by
  induction ops generalizing f with
  | nil => exact hlong
  | cons op ops ih =>
    have hseldb := (op.apply_adds hf.topLevel hf.slaves).2.1
    refine ih (hf.applyAll [op]) (fun o ho => hdb o (mem_cons_of_mem _ ho)) ?_
    show IsLongLong (op.apply f).serverSeldb
    rw [hseldb]
    exact (hdb op mem_cons_self).isLongLong

/-- The calls of some commands, which are the ones that are run. -/
theorem DbInv.feedNoted (h : DbInv cfg start db₀ us p) {ops noted : List FeedOp}
    {vs : List (List Argv)} (hvs : Sendable cfg.logged vs)
    (hflatten : vs.flatten = commandsOf p.master.feed ops)
    (hdb : ∀ op ∈ ops, ValidDb cfg.toStreamConfig op.dictid)
    (hselect : ∀ op ∈ ops, role cfg.procs op.argv = some .plain → selectArg op.argv = none)
    (hnoted : ops.flatMap (FeedOp.noted cfg) = noted.map fun op => (op.dictid, op.argv)) :
    ∃ us, DbInv cfg start db₀ us (p.feedOps cfg.logged ops noted) := by
  have hf := h.wire.feeding
  refine ⟨_, h.feed hvs hflatten (applyAll_seldb hf hdb h.seldb) fun db hsel => ?_⟩
  rw [← hnoted]
  exact log_commandsOf ⟨hf.topLevel, hf.slaves, hf.gid⟩ hdb hselect hsel

/-- One command. -/
theorem DbInv.write (h : DbInv cfg start db₀ us p) {op : FeedOp}
    (hdb : ValidDb cfg.toStreamConfig op.dictid) (hwf : WfCommand cfg.maxBulk op.argv)
    (hplain : role cfg.procs op.argv = some .plain) (hselect : selectArg op.argv = none) :
    ∃ us, DbInv cfg start db₀ us (p.feedOps cfg.logged [op] [op]) := by
  refine h.feedNoted (sendable_units h.wire.feeding (.inr hdb) hwf hplain) op.units_flatten
    (forall_mem_singleton.2 hdb) (forall_mem_singleton.2 fun _ => hselect) ?_
  rw [flatMap_singleton, FeedOp.noted, if_pos hplain]
  rfl

/-- A transaction: its commands are run, `CRDT.MULTI` and `CRDT.EXEC` are not. -/
theorem DbInv.exec (h : DbInv cfg start db₀ us p) {d d' : Int} {body : List FeedOp}
    (hd : ValidDb cfg.toStreamConfig d) (hbody : ∀ op ∈ body, cfg.logged.OpOk op)
    (hd' : ValidDb cfg.toStreamConfig d') (hselect : ∀ op ∈ body, selectArg op.argv = none) :
    ∃ us, DbInv cfg start db₀ us (p.feedOps cfg.logged (cfg.logged.execOps d body d') body) := by
  have hmulti : role cfg.procs (multiArgv cfg.gid) ≠ some .plain := by
    rw [role_multiArgv]
    simp
  have hexec : role cfg.procs (execArgv cfg.gid) ≠ some .plain := by
    rw [role_execArgv cfg.gid_ok]
    simp
  have hmem : ∀ op ∈ cfg.logged.execOps d body d', op = .all .argv d (multiArgv cfg.gid) ∨
      op ∈ body ∨ op = .all .argv d' (execArgv cfg.gid) := by
    intro op hop
    rw [PairConfig.execOps, mem_append, mem_cons, mem_singleton] at hop
    rcases hop with (h | h) | h
    · exact .inl h
    · exact .inr (.inl h)
    · exact .inr (.inr h)
  refine h.feedNoted (sendable_execUnits h.wire.feeding hd hbody hd') (execUnits_flatten d body d')
    ?_ ?_ ?_
  · intro op hop
    rcases hmem op hop with rfl | hin | rfl
    · exact hd
    · exact (hbody op hin).dictid
    · exact hd'
  · intro op hop hplain
    rcases hmem op hop with rfl | hin | rfl
    · exact absurd hplain hmulti
    · exact hselect op hin
    · exact absurd hplain hexec
  · have hrun : body.flatMap (noted cfg) = body.map fun op => (op.dictid, op.argv) := by
      rw [map_eq_flatMap]
      exact flatMap_congr fun op hop => if_pos (hbody op hop).plain
    rw [PairConfig.execOps, flatMap_append, flatMap_cons, flatMap_singleton, hrun]
    have hfirst : noted cfg (.all .argv d (multiArgv cfg.gid)) = [] := if_neg hmulti
    have hlast : noted cfg (.all .argv d' (execArgv cfg.gid)) = [] := if_neg hexec
    show noted cfg (.all .argv d (multiArgv cfg.gid)) ++ _ ++
      noted cfg (.all .argv d' (execArgv cfg.gid)) = _
    rw [hfirst, hlast, nil_append, append_nil]

/-- The units that a read completes are the ones that are due. -/
theorem dueUnits_eq {g : Int} (hg : g ∈ cfg.peers) {k : Nat} {vs : List (List Argv)}
    {s : LinkState Log}
    (heff : ReadEffect (cfg.logged.link hg) cfg.gidOf vs (p.master.view g).node s.node)
    (hlink : ReplayLink (cfg.logged.link hg) s)
    (hrecv : s.received = (p.master.view g).received + k) :
    dueUnits cfg p.master g k = vs := by
  have hdone : (s.node.txn cfg.logged.procs).done = p.master.consumed cfg.logged g ++ vs :=
    heff.done
  have hargvs : s.node.trace.map (·.argv) =
      (cfg.stream g).take (completeCommands (cfg.stream g) s.received) :=
    (hlink.inv.ok.accounted hlink.quiet).processed
  rw [Node.txn, hargvs, hrecv] at hdone
  rw [dueUnits]
  refine (congrArg (List.drop _) hdone).trans ?_
  exact drop_left

/-- What the slave logs of a chunk that is passed on is what the master has logged. -/
theorem log_chunk {f : FeedState} {db d : Int} (hd : ValidDb cfg.toStreamConfig d)
    (hsel : Selected cfg.toStreamConfig f db) (vs : List (List Argv)) :
    dataLog (logFrom cfg.toStreamConfig db (plainOf cfg.procs (chunkUnits f d vs).flatten)) =
        dataLog (logFrom cfg.toStreamConfig d (plainOf cfg.procs vs.flatten)) ∧
      dbAfter cfg.toStreamConfig db (plainOf cfg.procs (chunkUnits f d vs).flatten) =
        if vs = [] then db else dbAfter cfg.toStreamConfig d (plainOf cfg.procs vs.flatten) := by
  by_cases hnil : vs = []
  · subst hnil
    exact ⟨rfl, rfl⟩
  · -- The selection before a chunk is the one before a command for the slaves.
    obtain ⟨hat, hquiet⟩ := dbAfter_select (.slaves d []) hd hsel
    have hunits : (chunkUnits f d vs).flatten = select f (.slaves d []) ++ vs.flatten := by
      rw [chunkUnits, if_neg hnil, flatten_append, select]
      split
      · rfl
      · rfl
    have hdict : dictid (.slaves d []) = d := rfl
    rw [hunits, plainOf_append, plainOf_select, logFrom_append, dbAfter_append, hat,
      dataLog_append, hquiet, hdict, nil_append, if_neg hnil]
    exact ⟨rfl, rfl⟩

theorem DbInv.peerRead (h : DbInv cfg start db₀ us p) {g : Int} (hg : g ∈ cfg.peers) {k : Nat}
    (hread : CanRead (p.master.view g) (encoded (cfg.logged.stream g)).length k)
    (hok : KeepsDb cfg p (.peerRead g k)) :
    ∃ us, DbInv cfg start db₀ us ⟨p.master.read cfg.logged.procs g
      (((encoded (cfg.logged.stream g)).drop (p.master.links g).received).take k), p.slave⟩ := by
  obtain ⟨vs, s, hstore, heff, hlink, hrecv⟩ := h.wire.peerRead hg hread hok.1
  have hvalid : ValidDb cfg.toStreamConfig (p.master.view g).node.c.db := h.wire.dbs g hg
  have hkeeps := hok.2
  rw [dueUnits_eq hg heff hlink hrecv] at hkeeps
  have hfeed : s.node.feed = forwardFeed p.master.feed (some (p.master.view g).node.c.db) true
      (encoded vs.flatten) := heff.feed
  have hseldb := (forwardFeed_adds p.master.feed (p.master.view g).node.c.db heff.units).2
  rw [← hfeed] at hseldb
  have hworld : s.node.world = p.master.world ++
      logFrom cfg.toStreamConfig (p.master.view g).node.c.db (plainOf cfg.procs vs.flatten) :=
    (congrArg Prod.fst heff.data).trans
      (congrArg Prod.fst (runAll_loggingProcs cfg p.master.world _ _))
  obtain ⟨hlog, hdb⟩ := log_chunk hvalid h.selected vs
  rw [hstore]
  refine ⟨_, h.wire.store hg heff hlink, ?_, ?_, ?_, h.slave⟩
  · show IsLongLong s.node.feed.serverSeldb
    rw [hseldb]
    split
    · exact h.seldb
    · exact hvalid.isLongLong
  · show ValidDb _ s.node.feed.serverSeldb → _ = s.node.feed.serverSeldb
    rw [plainOf_flatten_append, dbAfter_append, hdb, hseldb]
    split
    · exact h.selected
    · exact fun _ => hkeeps
  · show dataLog s.node.world = _
    rw [hworld, dataLog_append, h.master, plainOf_flatten_append, logFrom_append, dataLog_append,
      hlog]

theorem DbInv.slaveRead (h : DbInv cfg start db₀ us p) {k : Nat}
    (hread : CanRead p.slave p.out.length k) (hok : KeepsDb cfg p (.slaveRead k)) :
    DbInv cfg start db₀ us { p with slave :=
      ⟨readQueryFromClient cfg.logged.procs p.slave.node ((p.out.drop p.slave.received).take k),
        p.slave.received + k⟩ } := by
  obtain ⟨vs, heff, hwire⟩ := h.wire.slaveRead hread hok
  generalize readQueryFromClient cfg.logged.procs p.slave.node _ = n at heff hwire ⊢
  have hdone : (n.txn cfg.logged.procs).done = p.consumed cfg.logged ++ vs := heff.done
  refine ⟨hwire, h.seldb, h.selected, h.master, ?_⟩
  show (n.world, n.c.db) = runAll cfg.logged.procs ([], db₀)
    (plainOf cfg.procs (n.txn cfg.logged.procs).done.flatten)
  rw [hdone, plainOf_flatten_append, runAll_append, ← h.slave]
  exact heff.data

end Steps

section Register

end Register

end XredisCrdt.Net
