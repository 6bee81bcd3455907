import XredisCrdt.Net.PeerWrites

/-!
# Replaying a stream

A link that takes every command of its stream is described without its buffers:
the commands fall into units, a single command or a transaction from the command
that opens it to the one that closes it, and each unit takes effect as a whole
when its last command is processed.

`Txn` splits a stream into units, `Closes` and `Stays` say what a processed
command does to data set, database and accounts.
-/

namespace XredisCrdt.Net

open Proto Repl List Option

variable {σ : Type}

/-! ## Units of a stream -/

/-- What a command means for the transaction of a link. -/
inductive Role
  | opens
  | closes (gid : Int)
  | plain
  deriving DecidableEq, Repr

theorem string2gid_ll2string {gid : Int} (h : checkGid gid = true) :
    string2gid (ll2string gid) = some gid := by
  simp only [checkGid, decide_eq_true_eq] at h
  have hmax : (llongMax : Int) = 9223372036854775807 := by decide
  rw [string2gid, string2ll_ll2string (by omega) (by omega), map_some,
    toInt_of_small (by omega) h.2]

theorem execGid_execArgv {gid : Int} (h : checkGid gid = true) :
    execGid (execArgv gid) = some gid := by
  simp [execGid, execArgv, string2gid_ll2string h, Option.filter, h]

/-- The role of a command, if a replication stream can contain it. -/
def role (P : Procs σ) (argv : Argv) : Option Role :=
  (lookupCommand P (argv.headD [])).bind fun cmd =>
    if wrongArity cmd argv.length ∨ strcaseeq (argv.headD []) (ascii "quit") then none
    else match cmd.proc with
      | .multiCommand => some .opens
      | .crdtExecCommand => (execGid argv).map .closes
      | .execCommand | .discardCommand | .watchCommand | .crdtMergeEndCommand => none
      | _ => some .plain

/-- The units that are complete, and the commands of the transaction that is open. -/
structure Txn where
  done : List (List Argv)
  cur : List Argv
  deriving DecidableEq, Repr

/-- The stream goes on with a command. -/
def Txn.step (P : Procs σ) (t : Txn) (argv : Argv) : Txn :=
  match role P argv with
  | some .opens => { t with cur := t.cur ++ [argv] }
  | some (.closes _) => ⟨t.done ++ [t.cur ++ [argv]], []⟩
  | _ =>
    if t.cur = [] then { t with done := t.done ++ [[argv]] } else { t with cur := t.cur ++ [argv] }

/-- The units of a stream. -/
def txnOf (P : Procs σ) (cmds : List Argv) : Txn := cmds.foldl (Txn.step P) ⟨[], []⟩

/-- The commands of a unit that are run. -/
def plainOf (P : Procs σ) (cmds : List Argv) : List Argv :=
  cmds.filter fun argv => role P argv = some .plain

/-- The data set and the database after some commands, one after the other. -/
def runAll (P : Procs σ) (s : σ × Int) (cmds : List Argv) : σ × Int :=
  cmds.foldl (fun s argv => ((P.run s.1 s.2 argv).1, (P.run s.1 s.2 argv).2.1)) s

variable {argv : Argv} (P : Procs σ) (cmds : List Argv)

theorem Txn.step_commands (t : Txn) (argv : Argv) :
    (t.step P argv).done.flatten ++ (t.step P argv).cur = t.done.flatten ++ t.cur ++ [argv] := by
  unfold Txn.step
  split
  · simp
  · simp
  · split
    · rename_i hcur
      simp [hcur]
    · simp

/-- Nothing of a stream is lost in its units. -/
theorem txnOf_commands : (txnOf P cmds).done.flatten ++ (txnOf P cmds).cur = cmds := by
  induction cmds using List.reverseRecOn with
  | nil => rfl
  | append_singleton cmds argv ih =>
    rw [txnOf, foldl_append]
    show (Txn.step P (txnOf P cmds) argv).done.flatten ++ (Txn.step P (txnOf P cmds) argv).cur = _
    rw [Txn.step_commands, ih]

theorem txnOf_append (cmds' : List Argv) :
    txnOf P (cmds ++ cmds') = cmds'.foldl (Txn.step P) (txnOf P cmds) :=
  foldl_append

theorem txnOf_snoc (argv : Argv) : txnOf P (cmds ++ [argv]) = (txnOf P cmds).step P argv := by
  rw [txnOf_append]
  rfl

theorem runAll_append (s : σ × Int) (cmds cmds' : List Argv) :
    runAll P s (cmds ++ cmds') = runAll P (runAll P s cmds) cmds' :=
  foldl_append

/-! ## Roles -/

/-- What is behind the role of a command. -/
inductive RoleOf (P : Procs σ) (argv : Argv) : Role → Prop
  | opens {cmd : Command} (wf : WellFormed P argv cmd) (proc : cmd.proc = .multiCommand) :
      RoleOf P argv .opens
  | closes {cmd : Command} {g : Int} (wf : WellFormed P argv cmd)
      (proc : cmd.proc = .crdtExecCommand) (gid : execGid argv = some g) : RoleOf P argv (.closes g)
  | plain {cmd : Command} (wf : WellFormed P argv cmd) (queued : runsInMulti cmd = false)
      (noEnd : NoMergeEnd cmd) : RoleOf P argv .plain

theorem role_spec {P : Procs σ} {ρ : Role} (h : role P argv = some ρ) : RoleOf P argv ρ := by
  unfold role at h
  obtain ⟨cmd, hlook, hrole⟩ := bind_eq_some_iff.mp h
  split at hrole
  · exact absurd hrole (by simp)
  rename_i hok
  have hwf : WellFormed P argv cmd :=
    ⟨by simpa using fun hquit => hok (.inr hquit), hlook, by simpa using fun har => hok (.inl har)⟩
  cases hproc : cmd.proc with
  | multiCommand =>
    simp only [hproc, some.injEq] at hrole
    subst hrole
    exact .opens hwf hproc
  | crdtExecCommand =>
    simp only [hproc] at hrole
    obtain ⟨g, hg, rfl⟩ := map_eq_some_iff.mp hrole
    exact .closes hwf hproc hg
  | execCommand | discardCommand | watchCommand | crdtMergeEndCommand =>
    simp [hproc] at hrole
  | pingCommand | authCommand | replconfCommand | shutdownCommand | scriptCommand | subscribe
  | other =>
    simp only [hproc, some.injEq] at hrole
    subst hrole
    exact .plain hwf (by simp [runsInMulti, hproc]) (by simp [NoMergeEnd, hproc])

theorem RoleOf.wellFormed {P : Procs σ} {ρ : Role} (h : RoleOf P argv ρ) :
    ∃ cmd, WellFormed P argv cmd := by
  cases h with
  | opens wf _ => exact ⟨_, wf⟩
  | closes wf _ _ => exact ⟨_, wf⟩
  | plain wf _ _ => exact ⟨_, wf⟩

/-! ## Accounts -/

/-- The gid that the last command of a unit leaves in the client of a slave. A
`CRDT.EXEC` that closes nothing leaves none. -/
def Role.gid : Role → Option Int
  | .closes g => some g
  | _ => none

/-- The history that a slave counts a unit for, where `gidOf` has the gid that a
procedure passes to `RM_CrdtReplicateVerbatim`. -/
def unitGid (P : Procs σ) (gidOf : Argv → Option Int) (u : List Argv) : Option Int :=
  match u with
  | [argv] => if role P argv = some .plain then gidOf argv else none
  | _ => (u.getLast?.bind (role P)).bind Role.gid

/-- Count bytes for the history of a gid. -/
def countFor (n : Node σ) (gid : Option Int) (bytes : Bytes) : Node σ :=
  if gid = some n.feed.crdtGid then { n with feed := n.feed.feedCrdt bytes }
  else gid.elim n fun g => n.updatePeer g fun p =>
    { p with masterReploff := p.masterReploff.map (· + (bytes.length : Int)) }

/-- A procedure takes the gid from its arguments. -/
structure GidLaw (P : Procs σ) (gidOf : Argv → Option Int) : Prop where
  run : ∀ w db argv, (P.run w db argv).2.2 = gidOf argv
  valid : ∀ argv g, gidOf argv = some g → checkGid g = true

theorem accountGid_peer {n : Node σ} (h : n.onMasterLink = false) : accountGid n = n := by
  simp [accountGid, h]

/-- On the link of the master a command is counted for the gid it leaves. -/
theorem accountGid_master {n : Node σ} {gid : Option Int} {bytes : Bytes}
    (hm : n.onMasterLink = true) (hown : n.feed.crdtGid ≠ -1) (hgid : n.c.gid = gid.getD (-1))
    (hvalid : gid ≠ some (-1)) (hadv : n.advance = bytes.length)
    (hslice : (n.c.pendingQuerybuf.drop n.c.pendingUsedOffset.toNat).take n.advance.toNat = bytes) :
    accountGid n = countFor n gid bytes := by
  unfold accountGid countFor
  rw [if_pos hm, hslice]
  cases gid with
  | none =>
    rw [hgid, getD_none, if_neg (fun h => hown h.symm), if_neg (by simp), if_neg (by simp)]
    rfl
  | some g =>
    rw [hgid, getD_some]
    by_cases hg : g = n.feed.crdtGid
    · rw [if_pos hg, if_pos (by rw [hg])]
    · rw [if_neg hg, if_pos (by simpa using hvalid), if_neg (by simpa using hg), hadv]
      rfl

/-! ## One command -/

/-- The units of the commands that a link has processed. -/
def Node.txn (P : Procs σ) (n : Node σ) : Txn := txnOf P (n.trace.map (·.argv))

/-- The transaction of the client is the one that is open in its stream. -/
structure TxnInv (P : Procs σ) (n : Node σ) : Prop where
  multi : n.c.multi = !(n.txn P).cur.isEmpty
  queue : n.c.mstate.map Prod.snd = plainOf P (n.txn P).cur
  clean : n.c.dirtyCas = false ∧ n.c.dirtyExec = false
  closed : closedPrefix n.trace = (n.txn P).done.flatten.length

/-- What is accounted for: the feeds, and the peers with their offsets. -/
def Node.accounts (n : Node σ) : FeedState × (Int → Option Peer) := (n.feed, n.peers)

/-- `countFor` on the link of a master. -/
def counted (peer : Option Int) (n : Node σ) (gid : Option Int) (bytes : Bytes) : Node σ :=
  if peer.isNone then countFor n gid bytes else n

/-- A processed command leaves everything as it is, or completes a unit, which is
run and on the link of a master counted. -/
inductive Replays (P : Procs σ) (gidOf : Argv → Option Int) (peer : Option Int)
    (n n' : Node σ) : Prop
  | stays (done : (n'.txn P).done = (n.txn P).done) (world : n'.world = n.world)
      (db : n'.c.db = n.c.db) (accounts : n'.accounts = n.accounts)
  | closes (u : List Argv) (done : (n'.txn P).done = (n.txn P).done ++ [u])
      (data : (n'.world, n'.c.db) = runAll P (n.world, n.c.db) (plainOf P u))
      (accounts : n'.accounts = (counted peer n (unitGid P gidOf u) (encoded u)).accounts)

section Step

variable {P : Procs σ} {gidOf : Argv → Option Int} {peer : Option Int}

variable {argv : Argv} {n r : Node σ}

theorem processCommand_admitted {cmd : Command} (hwf : WellFormed P n.c.input.argv cmd)
    (hadm : Admits n.server n.moment n.c cmd n.c.input.argv) :
    (processCommand P n).1 = if n.c.multi ∧ ¬ runsInMulti cmd then
        { n with c := { n.c with mstate := n.c.mstate ++ [(cmd, n.c.input.argv)] } }
      else call P n cmd n.c.input.argv := by
  unfold processCommand
  simp only [hwf.not_quit, hwf.known, Bool.false_eq_true, if_false,
    (closedGate_eq_none_iff hwf.arity).mpr hadm]
  split
  · rfl
  · rfl

/-- Another data set, and another database of the client. -/
def Node.withData (n : Node σ) (s : σ × Int) : Node σ :=
  { n with world := s.1, c := { n.c with db := s.2 } }

/-- The queue of a client that has a gid, run to its end. -/
theorem foldl_callPlain_eq {queue : List (Command × Argv)}
    (h : ∀ q ∈ queue, NoMergeEnd q.1) (n : Node σ) (hgid : n.c.gid ≠ -1) :
    queue.foldl (fun n q => callPlain P n q.1 q.2) n =
      n.withData (runAll P (n.world, n.c.db) (queue.map Prod.snd)) := by
  induction queue generalizing n with
  | nil => rfl
  | cons q queue ih =>
    have hcall : callPlain P n q.1 q.2 =
        n.withData ((P.run n.world n.c.db q.2).1, (P.run n.world n.c.db q.2).2.1) := by
      rw [callPlain_eq n q.2 (h q (by simp))]
      simp only [verbatimGid, if_neg hgid]
      rfl
    rw [foldl_cons, hcall]
    exact ih (fun q' hq' => h q' (by simp [hq'])) (n.withData _) hgid

/-- A transaction that is not spoilt. -/
theorem execTransaction_eq (hqueue : QueueOk n.c) (hgid : n.c.gid ≠ -1)
    (hclean : n.c.dirtyCas = false ∧ n.c.dirtyExec = false) :
    execTransaction P n = { n with
      world := (runAll P (n.world, n.c.db) (n.c.mstate.map Prod.snd)).1
      c := { n.c with
        db := (runAll P (n.world, n.c.db) (n.c.mstate.map Prod.snd)).2
        multi := false, dirtyCas := false, dirtyExec := false, mstate := [] } } := by
  unfold execTransaction
  rw [if_neg (by simp [hclean]), foldl_callPlain_eq hqueue n hgid]
  rfl

/-- The client of the master has no gid before a command, a peer keeps its own. -/
theorem forgetGid_eq (hl : Link peer n) :
    forgetGid n = { n with c := { n.c with gid := if peer.isNone then -1 else n.c.gid } } := by
  unfold forgetGid
  rw [hl.onMasterLink]
  cases peer with
  | none => rfl
  | some g => rfl

/-- The end of a parsed command does not touch what the command has done. -/
theorem processParsed_fields (hr : (processCommand P (forgetGid n)).1 = r)
    (hquit : (processCommand P (forgetGid n)).2 ≠ .quit) (hfreed : r.freed = false) :
    (processParsed P n).world = r.world ∧ (processParsed P n).c.db = r.c.db ∧
      (processParsed P n).c.multi = r.c.multi ∧ (processParsed P n).c.mstate = r.c.mstate ∧
      (processParsed P n).c.dirtyCas = r.c.dirtyCas ∧
      (processParsed P n).c.dirtyExec = r.c.dirtyExec ∧
      (processParsed P n).accounts = (accountGid r).accounts := by
  obtain ⟨feed, peers, hacc, -⟩ := accountGid_eq r
  unfold processParsed
  simp only
  rw [if_neg (by simp [hquit, hr, hfreed]), hr, hacc]
  unfold finishParsed moveReploff
  simp only
  split
  · exact ⟨rfl, rfl, rfl, rfl, rfl, rfl, rfl⟩
  · exact ⟨rfl, rfl, rfl, rfl, rfl, rfl, rfl⟩

/-- What the command has done when `processCommand` returns, and the gid that it
has left in the client of a master. -/
inductive Ran (P : Procs σ) (gidOf : Argv → Option Int) (n r : Node σ)
    (argv : Argv) : Prop
  | opened (role : role P argv = some .opens) (eq : r = { n with c := { n.c with multi := true } })
  | queued {cmd : Command} (role : role P argv = some .plain) (multi : n.c.multi = true)
      (eq : r = { n with c := { n.c with mstate := n.c.mstate ++ [(cmd, argv)] } })
  | ran (role : role P argv = some .plain) (multi : n.c.multi = false)
      (eq : r = { n with
        world := (runAll P (n.world, n.c.db) [argv]).1
        c := { n.c with
          db := (runAll P (n.world, n.c.db) [argv]).2
          gid := verbatimGid n.c.gid (gidOf argv) } })
  | idle {g : Int} (role : role P argv = some (.closes g)) (multi : n.c.multi = false) (eq : r = n)
  | executed {g : Int} (role : role P argv = some (.closes g)) (multi : n.c.multi = true)
      (eq : r = { n with
        world := (runAll P (n.world, n.c.db) (n.c.mstate.map Prod.snd)).1
        c := { n.c with
          db := (runAll P (n.world, n.c.db) (n.c.mstate.map Prod.snd)).2
          gid := g, multi := false, dirtyCas := false, dirtyExec := false, mstate := [] } })

theorem call_plain {cmd : Command} (argv : Argv) (hrun : runsInMulti cmd = false) :
    call P n cmd argv = callPlain P n cmd argv := by
  unfold call
  cases hproc : cmd.proc with
  | multiCommand | execCommand | crdtExecCommand | discardCommand =>
    simp [runsInMulti, hproc] at hrun
  | _ => rfl

theorem processCommand_ran {ρ : Role} (hlaw : GidLaw P gidOf)
    (hrole : role P n.c.input.argv = some ρ)
    (hadm : ∀ cmd, WellFormed P n.c.input.argv cmd →
      Admits n.server n.moment n.c cmd n.c.input.argv)
    (hqueue : QueueOk n.c) (hclean : n.c.dirtyCas = false ∧ n.c.dirtyExec = false) :
    Ran P gidOf n (processCommand P n).1 n.c.input.argv := by
  cases role_spec hrole with
  | opens wf proc =>
    refine .opened hrole ?_
    rw [processCommand_admitted wf (hadm _ wf), if_neg (by simp [runsInMulti, proc])]
    simp only [call, proc]
  | plain wf queued noEnd =>
    rw [processCommand_admitted wf (hadm _ wf)]
    cases hm : n.c.multi with
    | true =>
      rw [if_pos (by simp [queued])]
      exact .queued hrole hm rfl
    | false =>
      refine .ran hrole hm ?_
      rw [if_neg (by simp), call_plain _ queued, callPlain_eq n _ noEnd, hlaw.run]
      rfl
  | closes wf proc gid =>
    rename_i cmd g
    obtain ⟨name, a, -, -, hok⟩ := execGid_eq_some gid
    rw [processCommand_admitted wf (hadm _ wf), if_neg (by simp [runsInMulti, proc])]
    have hcall : call P n cmd n.c.input.argv = crdtExecCommand P n n.c.input.argv := by
      simp only [call, proc]
    rw [hcall]
    cases hm : n.c.multi with
    | false =>
      refine .idle hrole hm ?_
      simp [crdtExecCommand, hm]
    | true =>
      refine .executed hrole hm ?_
      have hexec : crdtExecCommand P n n.c.input.argv =
          execTransaction P { n with c := { n.c with gid := g } } := by
        simp only [crdtExecCommand, hm, gid, not_true_eq_false, if_false]
      rw [hexec]
      exact execTransaction_eq (n := { n with c := { n.c with gid := g } }) hqueue
        (ne_neg_one_of_checkGid hok) hclean

/-- Only backlogs and peers matter for what is counted. -/
theorem countFor_congr (h : r.accounts = n.accounts) (gid : Option Int) (bytes : Bytes) :
    (countFor r gid bytes).accounts = (countFor n gid bytes).accounts := by
  obtain ⟨hf, hp⟩ := Prod.mk.inj h
  unfold countFor
  rw [hf]
  split
  · exact Prod.ext rfl hp
  · cases gid with
    | none => exact h
    | some g =>
      refine Prod.ext hf ?_
      show Function.update r.peers g _ = Function.update n.peers g _
      rw [hp]

theorem plainOf_snoc_plain {cmds : List Argv} (h : role P argv = some .plain) :
    plainOf P (cmds ++ [argv]) = plainOf P cmds ++ [argv] := by
  simp [plainOf, filter_append, h]

theorem plainOf_snoc_other {cmds : List Argv} (h : role P argv ≠ some .plain) :
    plainOf P (cmds ++ [argv]) = plainOf P cmds := by
  simp [plainOf, filter_append, h]

/-- A transaction is counted for the gid of its `CRDT.EXEC`. -/
theorem unitGid_closes {cur : List Argv} {g : Int} (hne : cur ≠ [])
    (h : role P argv = some (.closes g)) : unitGid P gidOf (cur ++ [argv]) = some g := by
  cases cur with
  | nil => exact absurd rfl hne
  | cons a cur =>
    have hlast : (a :: cur ++ [argv]).getLast? = some argv := getLast?_concat ..
    cases cur with
    | nil => simp [unitGid, h, Role.gid]
    | cons b cur =>
      show ((a :: b :: cur ++ [argv]).getLast?.bind (role P)).bind Role.gid = some g
      rw [hlast, bind_some, h]
      rfl

/-- The bytes that `accountGid` takes are those of the unit that ends here. -/
structure UnitBytes (P : Procs σ) (n : Node σ) (cmd : Argv) : Prop where
  slice : (n.c.pendingQuerybuf.drop n.c.pendingUsedOffset.toNat).take n.advance.toNat =
    encoded ((n.txn P).cur ++ [cmd])
  advance : n.advance = (encoded ((n.txn P).cur ++ [cmd])).length

/-- What `accountGid` does after a command that left the gid `gid`. -/
theorem accountGid_unit {cmd : Argv} {gid : Option Int} (hl : Link peer r)
    (hown : n.feed.crdtGid ≠ -1) (hu : UnitBytes P n cmd) (hacc : r.accounts = n.accounts)
    (hadv : r.advance = n.advance) (hpend : r.c.pendingQuerybuf = n.c.pendingQuerybuf)
    (hused : r.c.pendingUsedOffset = n.c.pendingUsedOffset)
    (hgid : peer = none → r.c.gid = gid.getD (-1)) (hvalid : gid ≠ some (-1)) :
    (accountGid r).accounts =
      (counted peer n gid (encoded ((n.txn P).cur ++ [cmd]))).accounts := by
  cases peer with
  | none =>
    have heq : accountGid r = countFor r gid (encoded ((n.txn P).cur ++ [cmd])) := by
      refine accountGid_master hl.onMasterLink ?_ (hgid rfl) hvalid ?_ ?_
      · rw [(Prod.mk.inj hacc).1]
        exact hown
      · rw [hadv, hu.advance]
      · rw [hpend, hused, hadv, hu.slice]
    rw [heq]
    exact countFor_congr hacc gid _
  | some g =>
    rw [accountGid_peer hl.onMasterLink]
    exact hacc

theorem processParsed_replays {cmd : Argv} {ρ : Role} (hlaw : GidLaw P gidOf)
    (hargv : n.c.input.argv = cmd) (hl : Link peer n) (hc : LinkCommand P peer cmd)
    (hq : QueueOk n.c) (hfreed : n.freed = false) (hrole : role P cmd = some ρ)
    (hadm : ∀ e, WellFormed P cmd e → Admits n.server n.moment n.c e cmd)
    (hown : n.feed.crdtGid ≠ -1) (hu : UnitBytes P n cmd) (h : TxnInv P n) :
    TxnInv P (processParsed P n) ∧ Replays P gidOf peer n (processParsed P n) := by
  subst hargv
  have hstep := processParsed_step (P := P) hl hc hq hfreed
  have hforget := forgetGid_eq hl
  have hl' : Link peer (forgetGid n) := hl.of_frame (forgetGid_frame hl).1
  have hq' : QueueOk (forgetGid n).c := by
    rw [hforget]
    exact hq
  obtain ⟨hquit, hframe, -⟩ := processCommand_frame (P := P) hl' (by rw [hforget]; exact hc) hq'
  have hran : Ran P gidOf (forgetGid n) (processCommand P (forgetGid n)).1 n.c.input.argv := by
    have hinput : (forgetGid n).c.input = n.c.input := by rw [hforget]
    rw [← hinput]
    have hrole' : role P (forgetGid n).c.input.argv = some ρ := by
      rw [hinput]
      exact hrole
    refine processCommand_ran hlaw hrole' ?_ hq' ?_
    · intro e hwf
      rw [hinput] at hwf ⊢
      rw [hforget]
      exact (hadm e hwf).congr rfl
    · rw [hforget]
      exact h.clean
  have hlr := hl'.of_frame hframe
  generalize hr : (processCommand P (forgetGid n)).1 = r at *
  -- a command touches the data and the transaction alone
  obtain ⟨hfr, hacc, hadv, hpend, hused⟩ : r.freed = n.freed ∧ r.accounts = n.accounts ∧
      r.advance = n.advance ∧ r.c.pendingQuerybuf = n.c.pendingQuerybuf ∧
      r.c.pendingUsedOffset = n.c.pendingUsedOffset := by
    obtain ⟨w, db, gid, m, dc, de, ms, heq⟩ := hframe.eq
    rw [heq, hforget]
    exact ⟨rfl, rfl, rfl, rfl, rfl⟩
  obtain ⟨hworld, hdb, hmulti, hmstate, hcas, hexec, haccounts⟩ :=
    processParsed_fields (P := P) hr hquit (hfr.trans hfreed)
  obtain ⟨o, htrace⟩ := hstep.trace
  generalize hn' : processParsed P n = n' at *
  have htxn : n'.txn P = (n.txn P).step P n.c.input.argv := by
    rw [Node.txn, htrace, map_append, map_cons, map_nil, txnOf_snoc]
    rfl
  have hclosed : closedPrefix n'.trace =
      if n'.c.multi then closedPrefix n.trace else n.trace.length + 1 := by
    rw [htrace, closedPrefix_append]
  rw [hforget] at hran
  have hcur : n.c.multi = false → (n.txn P).cur = [] := by
    intro hm
    simpa [h.multi] using hm
  have hopen : n.c.multi = true → (n.txn P).cur ≠ [] := by
    intro hm
    simpa [h.multi] using hm
  have hnoqueue : n.c.multi = false → n.c.mstate.map Prod.snd = [] := by
    intro hm
    rw [h.queue, hcur hm]
    rfl
  -- what is counted if the command leaves the gid `gid`
  have hcounts : ∀ gid : Option Int, (peer = none → r.c.gid = gid.getD (-1)) → gid ≠ some (-1) →
      n'.accounts =
        (counted peer n gid (encoded ((n.txn P).cur ++ [n.c.input.argv]))).accounts := by
    rw [haccounts]
    exact fun gid => accountGid_unit hlr hown hu hacc hadv hpend hused
  -- inside a transaction nothing is
  have hstays : n'.txn P = ⟨(n.txn P).done, (n.txn P).cur ++ [n.c.input.argv]⟩ →
      n'.c.multi = true →
      n'.c.mstate.map Prod.snd = plainOf P ((n.txn P).cur ++ [n.c.input.argv]) →
      (n'.c.dirtyCas = false ∧ n'.c.dirtyExec = false) → n'.world = n.world → n'.c.db = n.c.db →
      (peer = none → r.c.gid = -1) → TxnInv P n' ∧ Replays P gidOf peer n n' := by
    intro ht hm hms hdirty hw hd hgid
    have hnone := hcounts none hgid (by simp)
    refine ⟨⟨?_, ?_, hdirty, ?_⟩, .stays (by rw [ht]) hw hd ?_⟩
    · rw [hm, ht]
      simp
    · rw [hms, ht]
    · rw [hclosed, hm, ht, if_pos rfl]
      exact h.closed
    · simpa [counted, countFor] using hnone
  -- a unit that ends here
  have hends : ∀ gid : Option Int,
      n'.txn P = ⟨(n.txn P).done ++ [(n.txn P).cur ++ [n.c.input.argv]], []⟩ →
      n'.c.multi = false → n'.c.mstate.map Prod.snd = [] →
      (n'.c.dirtyCas = false ∧ n'.c.dirtyExec = false) →
      (n'.world, n'.c.db) =
        runAll P (n.world, n.c.db) (plainOf P ((n.txn P).cur ++ [n.c.input.argv])) →
      unitGid P gidOf ((n.txn P).cur ++ [n.c.input.argv]) = gid →
      (peer = none → r.c.gid = gid.getD (-1)) → gid ≠ some (-1) →
      TxnInv P n' ∧ Replays P gidOf peer n n' := by
    intro gid ht hm hms hdirty hdata hunit hgid hvalid
    have hgids := hcounts gid hgid hvalid
    rw [← hunit] at hgids
    refine ⟨⟨?_, ?_, hdirty, ?_⟩, .closes _ (by rw [ht]) hdata hgids⟩
    · rw [hm, ht]
      rfl
    · rw [hms, ht]
      rfl
    · have hlen := congrArg List.length (txnOf_commands P (n.trace.map (·.argv)))
      rw [length_append, length_map] at hlen
      rw [hclosed, hm, ht, ← hlen]
      simp [Node.txn]
      omega
  cases hran with
  | opened hopens eq =>
    subst eq
    refine hstays ?_ hmulti ?_ ⟨hcas.trans h.clean.1, hexec.trans h.clean.2⟩ hworld hdb
      fun hp => by simp [hp]
    · rw [htxn]
      simp only [Txn.step, hopens]
    · rw [hmstate, plainOf_snoc_other (by rw [hopens]; simp)]
      exact h.queue
  | queued hplain hm eq =>
    subst eq
    refine hstays ?_ (hmulti.trans hm) ?_ ⟨hcas.trans h.clean.1, hexec.trans h.clean.2⟩ hworld hdb
      fun hp => by simp [hp]
    · rw [htxn]
      simp only [Txn.step, hplain, if_neg (hopen hm)]
    · rw [hmstate, plainOf_snoc_plain hplain, map_append]
      exact congrArg (· ++ [n.c.input.argv]) h.queue
  | ran hplain hm eq =>
    subst eq
    refine hends (gidOf n.c.input.argv) ?_ (hmulti.trans hm) ?_
      ⟨hcas.trans h.clean.1, hexec.trans h.clean.2⟩ ?_ ?_ (fun hp => by simp [hp, verbatimGid])
      fun hg => ne_neg_one_of_checkGid (hlaw.valid _ _ hg) rfl
    · rw [htxn, hcur hm]
      simp only [Txn.step, hplain, hcur hm, if_true, nil_append]
    · rw [hmstate]
      exact hnoqueue hm
    · rw [hworld, hdb, hcur hm, nil_append, plainOf, filter_cons_of_pos (by simp [hplain])]
      rfl
    · rw [hcur hm]
      simp [unitGid, hplain]
  | idle hcloses hm eq =>
    subst eq
    refine hends none ?_ (hmulti.trans hm) ?_ ⟨hcas.trans h.clean.1, hexec.trans h.clean.2⟩ ?_ ?_
      (fun hp => by simp [hp]) (by simp)
    · rw [htxn]
      simp only [Txn.step, hcloses]
    · rw [hmstate]
      exact hnoqueue hm
    · rw [hworld, hdb, plainOf_snoc_other (by rw [hcloses]; simp), hcur hm]
      rfl
    · rw [hcur hm]
      simp [unitGid, hcloses]
  | executed hcloses hm eq =>
    rename_i g
    subst eq
    refine hends (some g) ?_ hmulti (by rw [hmstate]; rfl) ⟨hcas, hexec⟩ ?_
      (unitGid_closes (hopen hm) hcloses) (fun _ => rfl) ?_
    · rw [htxn]
      simp only [Txn.step, hcloses]
    · rw [hworld, hdb, plainOf_snoc_other (by rw [hcloses]; simp), ← h.queue]
    · cases role_spec hcloses with
      | closes _ _ gid =>
        obtain ⟨-, -, -, -, hok⟩ := execGid_eq_some gid
        simpa using ne_neg_one_of_checkGid hok

end Step

/-! ## A whole buffer -/

/-- Count units one after the other. -/
def countAll (P : Procs σ) (gidOf : Argv → Option Int) (n : Node σ)
    (us : List (List Argv)) : Node σ :=
  us.foldl (fun n u => countFor n (unitGid P gidOf u) (encoded u)) n

/-- From `n` to `n'` the units `us` have been completed and run, and on the link of
a master counted. -/
structure Replayed (P : Procs σ) (gidOf : Argv → Option Int) (peer : Option Int)
    (us : List (List Argv)) (n n' : Node σ) : Prop where
  done : (n'.txn P).done = (n.txn P).done ++ us
  data : (n'.world, n'.c.db) = runAll P (n.world, n.c.db) (plainOf P us.flatten)
  accounts : n'.accounts = (if peer.isNone then countAll P gidOf n us else n).accounts

section Buffer

variable {P : Procs σ} {gidOf : Argv → Option Int} {peer : Option Int}
  {us : List (List Argv)} {n n' : Node σ}

variable {cmd : Argv} {k : Nat}

theorem countAll_congr (P : Procs σ) (gidOf : Argv → Option Int) (h : n'.accounts = n.accounts)
    (us : List (List Argv)) :
    (countAll P gidOf n' us).accounts = (countAll P gidOf n us).accounts := by
  induction us generalizing n n' with
  | nil => exact h
  | cons u us ih => exact ih (countFor_congr h (unitGid P gidOf u) (encoded u))

theorem Replayed.refl (P : Procs σ) (gidOf : Argv → Option Int) (peer : Option Int)
    (n : Node σ) : Replayed P gidOf peer [] n n where
  done := (append_nil _).symm
  data := rfl
  accounts := by cases peer <;> rfl

/-- The relation reads the trace, the data and the accounts only. -/
theorem Replayed.congr (h : Replayed P gidOf peer us n n') {m : Node σ}
    (htrace : m.trace = n'.trace) (hworld : m.world = n'.world) (hdb : m.c.db = n'.c.db)
    (hacc : m.accounts = n'.accounts) : Replayed P gidOf peer us n m where
  done := by rw [Node.txn, htrace]; exact h.done
  data := by rw [hworld, hdb]; exact h.data
  accounts := hacc.trans h.accounts

theorem Replayed.step (h : Replayed P gidOf peer us n n') {m : Node σ}
    (hm : Replays P gidOf peer n' m) : ∃ us', Replayed P gidOf peer us' n m := by
  cases hm with
  | stays done world db accounts =>
    exact ⟨us, done.trans h.done, by rw [world, db]; exact h.data, accounts.trans h.accounts⟩
  | closes u done data accounts =>
    refine ⟨us ++ [u], ?_, ?_, accounts.trans ?_⟩
    · rw [done, h.done, append_assoc]
    · rw [data, h.data, ← runAll_append]
      simp [plainOf, filter_append]
    · have hacc := h.accounts
      cases peer with
      | some g => exact hacc
      | none =>
        rw [countAll, foldl_append]
        exact countFor_congr hacc _ _

/-- The bytes between two commands of a stream. -/
theorem encoded_slice (stream : List Argv) {j : Nat} (hjk : j ≤ k) :
    ((encoded stream).drop (prefixLen stream j)).take (prefixLen stream k - prefixLen stream j) =
      encoded ((stream.take k).drop j) := by
  have hmono := prefixLen_mono stream hjk
  rw [← drop_take, encoded_take, encoded_split (stream.take k) j, take_take,
    Nat.min_eq_left hjk, prefixLen, drop_left]

variable {stream : List Argv} {start base : Int} {received k₀ : Nat}

theorem CommandAt.unitBytes (h : CommandAt peer stream start base received n cmd) (ht : TxnInv P n)
    (hpend : n.c.pendingQuerybuf = ((encoded stream).take received).drop (prefixLen stream k₀))
    (hbase : base = start + prefixLen stream k₀) (hk₀ : k₀ ≤ closedPrefix n.trace) :
    UnitBytes P n cmd := by
  have hle := closedPrefix_le n.trace
  have hmono := prefixLen_mono stream hk₀
  have hmono' := prefixLen_mono stream (show closedPrefix n.trace ≤ n.trace.length + 1 by omega)
  have hcomplete := h.complete
  have hcmds := txnOf_commands P (n.trace.map (·.argv))
  have hunit : (stream.take (n.trace.length + 1)).drop (closedPrefix n.trace) =
      (n.txn P).cur ++ [cmd] := by
    rw [take_add_one, h.next, ← h.argvs, ← hcmds, ht.closed, append_assoc]
    exact drop_left
  have hslice := encoded_slice stream (show closedPrefix n.trace ≤ n.trace.length + 1 by omega)
  rw [hunit] at hslice
  have hadv : n.advance.toNat =
      prefixLen stream (n.trace.length + 1) - prefixLen stream (closedPrefix n.trace) := by
    rw [h.advance]
    omega
  have hused : n.c.pendingUsedOffset.toNat =
      prefixLen stream (closedPrefix n.trace) - prefixLen stream k₀ := by
    rw [h.used, hbase]
    omega
  have hbytes : (n.c.pendingQuerybuf.drop n.c.pendingUsedOffset.toNat).take n.advance.toNat =
      encoded ((n.txn P).cur ++ [cmd]) := by
    have hdrop : prefixLen stream k₀ +
        (prefixLen stream (closedPrefix n.trace) - prefixLen stream k₀) =
        prefixLen stream (closedPrefix n.trace) := by omega
    have hcut :
        min (prefixLen stream (n.trace.length + 1) - prefixLen stream (closedPrefix n.trace))
        (received - prefixLen stream (closedPrefix n.trace)) =
        prefixLen stream (n.trace.length + 1) - prefixLen stream (closedPrefix n.trace) := by omega
    rw [hpend, hused, hadv, drop_drop, hdrop, drop_take, take_take, hcut, hslice]
  refine ⟨hbytes, ?_⟩
  have hlen := congrArg List.length hslice
  have htotal := encoded_length stream (n.trace.length + 1)
  rw [length_take, length_drop] at hlen
  rw [h.advance, ← hlen]
  omega

/-- The commands that the bytes of a stream complete after the first `k` ones. -/
def dueCommands (stream : List Argv) (k received : Nat) : List Argv :=
  (stream.take (completeCommands stream received)).drop k

theorem lt_completeCommands {cmds : List Argv} {len : Nat} (hk : k < cmds.length)
    (h : prefixLen cmds (k + 1) ≤ len) : k < completeCommands cmds len := by
  induction cmds generalizing k len with
  | nil => exact absurd hk (Nat.not_lt_zero k)
  | cons cmd cmds ih =>
    rw [prefixLen_cons] at h
    rw [completeCommands, if_pos (by omega)]
    cases k with
    | zero => omega
    | succ k =>
      rw [length_cons] at hk
      have hrest : prefixLen cmds (k + 1) ≤ len - (encodeCommand cmd).length := by omega
      have := ih (Nat.lt_of_succ_lt_succ hk) hrest
      omega

theorem dueCommands_getElem? {j : Nat} (hj : stream[j]? = some cmd) (hk : k ≤ j)
    (h : prefixLen stream (j + 1) ≤ received) :
    (dueCommands stream k received)[j - k]? = some cmd := by
  obtain ⟨hlt, -⟩ := List.getElem?_eq_some_iff.mp hj
  have hcount := lt_completeCommands hlt h
  rw [dueCommands, getElem?_drop, getElem?_take, if_pos (by omega),
    show k + (j - k) = j by omega, hj]

/-- What `processInputBuffer` keeps while it replays a stream. -/
structure ReplayInv (P : Procs σ) (gidOf : Argv → Option Int) (peer : Option Int)
    (stream : List Argv) (received k₀ : Nat) (n₀ n : Node σ) : Prop where
  txn : TxnInv P n
  replayed : ∃ us, Replayed P gidOf peer us n₀ n
  quiet : Quiescent n
  pending : n.c.pendingQuerybuf = ((encoded stream).take received).drop (prefixLen stream k₀)
  closed_le : k₀ ≤ closedPrefix n.trace
  trace_le : n₀.trace.length ≤ n.trace.length
  gates : n.gates = n₀.gates
  openFor : OpenFor P n₀ (dueCommands stream n₀.trace.length received)
  own : n.feed.crdtGid ≠ -1

theorem countFor_crdtGid (n : Node σ) (gid : Option Int) (bytes : Bytes) :
    (countFor n gid bytes).feed.crdtGid = n.feed.crdtGid := by
  unfold countFor
  split
  · rfl
  · cases gid with
    | none => rfl
    | some g => rfl

theorem Replays.crdtGid (h : Replays P gidOf peer n n') : n'.feed.crdtGid = n.feed.crdtGid := by
  cases h with
  | stays _ _ _ accounts => rw [(Prod.mk.inj accounts).1]
  | closes u _ _ accounts =>
    rw [(Prod.mk.inj accounts).1, counted]
    split
    · exact countFor_crdtGid n _ _
    · rfl

theorem ReplayInv.command {n₀ : Node σ} {maxBulk : Nat} (hs : LinkStream P peer maxBulk stream)
    (hlaw : GidLaw P gidOf) (hroles : ∀ argv ∈ stream, (role P argv).isSome)
    (hbase : base = start + prefixLen stream k₀)
    (hat : CommandAt peer stream start base received n cmd)
    (h : ReplayInv P gidOf peer stream received k₀ n₀ n) :
    ReplayInv P gidOf peer stream received k₀ n₀ (processParsed P n) := by
  have hmem := mem_of_getElem? hat.next
  have hlink := hs.link cmd hmem
  obtain ⟨ρ, hρ⟩ := isSome_iff_exists.mp (hroles cmd hmem)
  -- the position of the command in the stream is its number for the client
  have hadm : ∀ e, WellFormed P cmd e → Admits n.server n.moment n.c e cmd := by
    intro e hwf
    have hfirst := h.openFor _ cmd (dueCommands_getElem? hat.next h.trace_le hat.complete) e hwf
    rw [Nat.add_sub_cancel' h.trace_le] at hfirst
    exact hfirst.of_gates h.gates
  obtain ⟨htxn, hreplays⟩ := processParsed_replays hlaw hat.argv hat.link hlink hat.queue
    hat.notFreed hρ hadm h.own
    (hat.unitBytes h.txn h.pending hbase h.closed_le) h.txn
  have hstep := processParsed_step (P := P) hat.link (by rw [hat.argv]; exact hlink) hat.queue
    hat.notFreed
  obtain ⟨o, htrace⟩ := hstep.trace
  obtain ⟨us, hus⟩ := h.replayed
  have hgid := hreplays.crdtGid
  have hprefix : n.trace <+: (processParsed P n).trace := by
    rw [htrace]
    exact prefix_append _ _
  refine ⟨htxn, hus.step hreplays, ?_, ?_, ?_, ?_, ?_, h.openFor, ?_⟩
  · exact ⟨hstep.clientsPaused.trans h.quiet.1, hstep.unblocked.trans h.quiet.2⟩
  · rw [hstep.steady.pendingQuerybuf]
    exact h.pending
  · exact Nat.le_trans h.closed_le (closedPrefix_mono hprefix)
  · exact Nat.le_trans h.trace_le hprefix.length_le
  · exact (processParsed_traced n).gates.trans h.gates
  · rw [hgid]
    exact h.own

/-- A stream whose gates are open is replayed unit by unit. -/
theorem processInputBuffer_replayed {maxBulk : Nat} (hs : LinkStream P peer maxBulk stream)
    (hlaw : GidLaw P gidOf) (hroles : ∀ argv ∈ stream, (role P argv).isSome)
    (hbase : base = start + prefixLen stream k₀)
    (hinv : StreamInv peer maxBulk stream start base received n)
    (h : ReplayInv P gidOf peer stream received k₀ n n) :
    ReplayInv P gidOf peer stream received k₀ n (processInputBuffer P n) := by
  refine (inputLoop_rule hs ?_ ?_ ?_ _ n (Nat.le_refl _) hinv h).2
  · intro m i hm
    obtain ⟨us, hus⟩ := hm.replayed
    exact ⟨⟨hm.txn.multi, hm.txn.queue, hm.txn.clean, hm.txn.closed⟩,
      ⟨us, hus.congr rfl rfl rfl rfl⟩, hm.quiet, hm.pending, hm.closed_le, hm.trace_le,
      hm.gates, hm.openFor, hm.own⟩
  · intro m hm
    have hsame : clientsArePaused m = m := by simp [clientsArePaused, hm.quiet.1]
    rw [hsame]
    exact hm
  · intro m cmd hat hm
    exact hm.command hs hlaw hroles hbase hat

end Buffer

end XredisCrdt.Net
