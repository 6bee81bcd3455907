import XredisCrdt.Lib.System
import XredisCrdt.Net.StreamRuns

/-!
# Acknowledged commands of a peer

`processCommand` answers a command that it refuses with an error and returns
`C_OK`, and `processInputBuffer` moves the replication offset of the peer behind
the command all the same. So an update is lost for good when one of the gates is
closed for it.
-/

namespace XredisCrdt.Net

open Proto Repl List Option

variable {σ : Type} {P : Procs σ}

/-! ## Open gates -/

/-- No gate is closed for a command with the right number of arguments. -/
structure Admits (s : Server) (m : Moment) (c : Client) (cmd : Command) (argv : Argv) :
    Prop where
  auth : m.requirepass = false ∨ m.authenticated = true ∨ cmd.proc = .authCommand
  cluster : m.clusterEnabled = false ∨ c.isMaster = true ∨ m.clusterRedirect argv = none ∨
    (cmd.getkeysProc = false ∧ cmd.firstkey = 0 ∧ cmd.proc ≠ .execCommand)
  memory : m.maxmemory = false ∨ cmd.denyoom = false ∨ m.freeMemoryFails = false
  persistence : persistenceError m = none ∨ s.iAmMaster = false ∨
    (cmd.write = false ∧ cmd.proc ≠ .pingCommand)
  goodSlaves : s.iAmMaster = false ∨ m.replMinSlavesToWrite = 0 ∨ m.replMinSlavesMaxLag = 0 ∨
    cmd.write = false ∨ m.replMinSlavesToWrite ≤ m.replGoodSlavesCount
  writable : s.iAmMaster = true ∨ m.replSlaveRo = false ∨ c.isMaster = true ∨ cmd.write = false
  pubsub : m.pubsub = false ∨ allowedInPubsub cmd = true
  fresh : s.iAmMaster = true ∨ m.replConnected = true ∨ m.replServeStaleData = true ∨
    cmd.stale = true
  loaded : (m.loading = false ∧ m.crdtLoading = false) ∨ cmd.loading = true
  script : m.luaTimedout = false ∨ allowedDuringScript cmd argv = true

/-- One gate of the chain. -/
theorem gate_eq_none_iff {c : Prop} [Decidable c] {r : Refusal} {rest : Option Refusal} :
    (if c then some r else rest) = none ↔ ¬ c ∧ rest = none := by
  by_cases hc : c
  · simp [hc]
  · simp [hc]

/-- One gate whose refusal is not known to be there. -/
theorem gate_option_eq_none_iff {c : Prop} [Decidable c] {r rest : Option Refusal}
    (h : c → r.isSome) : (if c then r else rest) = none ↔ ¬ c ∧ rest = none := by
  by_cases hc : c
  · have hsome := h hc
    cases r with
    | none => exact absurd hsome (by simp)
    | some r => simp [hc]
  · simp [hc]

theorem closedGate_eq_none_iff {s : Server} {m : Moment} {c : Client} {cmd : Command}
    {argv : Argv} (harity : wrongArity cmd argv.length = false) :
    closedGate s m c cmd argv = none ↔ Admits s m c cmd argv := by
  unfold closedGate
  rw [gate_eq_none_iff, gate_eq_none_iff, gate_option_eq_none_iff, gate_eq_none_iff,
    gate_option_eq_none_iff, gate_eq_none_iff, gate_eq_none_iff, gate_eq_none_iff,
    gate_eq_none_iff, gate_eq_none_iff, gate_eq_none_iff]
  · simp only [isSome_iff_ne_none]
    constructor
    · rintro ⟨-, hauth, hcluster, hmem, hpers, hgood, hro, hpub, hstale, hload, hlua, -⟩
      exact ⟨by grind, by grind, by grind, by grind, by grind, by grind, by grind, by grind,
        by grind, by grind⟩
    · rintro ⟨hauth, hcluster, hmem, hpers, hgood, hro, hpub, hstale, hload, hlua⟩
      refine ⟨by simp [harity], ?_, ?_, ?_, ?_, ?_, ?_, ?_, ?_, ?_, ?_, trivial⟩ <;> grind
  · intro h
    exact h.1
  · intro h
    simpa using h.2.2.1

/-- A command that the server knows, with the right number of arguments. -/
structure WellFormed (P : Procs σ) (argv : Argv) (cmd : Command) : Prop where
  not_quit : strcaseeq (argv.headD []) (ascii "quit") = false
  known : lookupCommand P (argv.headD []) = some cmd
  arity : wrongArity cmd argv.length = false

/-- The command was run, or queued in a transaction. -/
def Handled (o : Outcome) : Prop := o = .ran ∨ o = .queued

/-- A command is handled if and only if no gate is closed for it. -/
theorem processCommand_handled_iff {n : Node σ} {cmd : Command}
    (h : WellFormed P n.c.input.argv cmd) :
    Handled (processCommand P n).2 ↔ Admits n.server n.moment n.c cmd n.c.input.argv := by
  rw [← closedGate_eq_none_iff h.arity]
  unfold processCommand
  simp only [h.not_quit, h.known, Bool.false_eq_true, if_false]
  cases hgate : closedGate n.server n.moment n.c cmd n.c.input.argv with
  | some r => simp [Handled]
  | none =>
    simp only [iff_true]
    split
    · exact .inr rfl
    · exact .inl rfl

/-! ## What the gates read stays -/

/-- What the gates and the parser read of the server and the client. -/
def Node.gates (n : Node σ) : Server × (Nat → Moment) × Nat × Bool :=
  (n.server, n.moments, n.protoMaxBulkLen, n.c.isMaster)

structure GateSame (n n' : Node σ) : Prop where
  gates : n'.gates = n.gates
  input : n'.c.input = n.c.input
  trace : n'.trace = n.trace

theorem GateSame.refl (n : Node σ) : GateSame n n := ⟨rfl, rfl, rfl⟩

theorem GateSame.trans {n₁ n₂ n₃ : Node σ} (h : GateSame n₁ n₂) (h' : GateSame n₂ n₃) :
    GateSame n₁ n₃ :=
  ⟨h'.gates.trans h.gates, h'.input.trans h.input, h'.trace.trans h.trace⟩

theorem Frame.gateSame {n n' : Node σ} (h : Frame n n') : GateSame n n' := by
  obtain ⟨w, db, gid, m, dc, de, ms, rfl⟩ := h.eq
  exact ⟨rfl, rfl, rfl⟩

theorem setPeerOffset_gateSame (n : Node σ) (gid off : Int) :
    GateSame n (setPeerOffset n gid off) := by
  unfold setPeerOffset
  split
  · exact ⟨rfl, rfl, rfl⟩
  · exact ⟨rfl, rfl, rfl⟩

theorem connectPeer_gateSame (n : Node σ) (gid : Int) : GateSame n (connectPeer n gid) := by
  unfold connectPeer
  split
  · exact ⟨rfl, rfl, rfl⟩
  · exact .refl n

theorem crdtMergeEndCommand_gateSame (n : Node σ) (argv : Argv) :
    GateSame n (crdtMergeEndCommand n argv) := by
  have hend : ∀ g off, GateSame n (connectPeer (setPeerOffset n g off) g) := fun g off =>
    (setPeerOffset_gateSame n g off).trans (connectPeer_gateSame _ g)
  unfold crdtMergeEndCommand
  repeat' split
  all_goals first
    | exact hend _ _
    | exact ⟨rfl, rfl, rfl⟩

theorem callPlain_gateSame (n : Node σ) (cmd : Command) (argv : Argv) :
    GateSame n (callPlain P n cmd argv) := by
  by_cases hend : cmd.proc = .crdtMergeEndCommand
  · simp only [callPlain, if_pos hend]
    refine GateSame.trans ?_ (crdtMergeEndCommand_gateSame _ argv)
    exact ⟨rfl, rfl, rfl⟩
  · exact (callPlain_frame n argv hend).1.gateSame

theorem execTransaction_gateSame (n : Node σ) : GateSame n (execTransaction P n) := by
  have hqueue : GateSame n (n.c.mstate.foldl (fun n q => callPlain P n q.1 q.2) n) :=
    foldlRecOn (motive := GateSame n) _ _ (.refl n) fun m h q _ =>
      h.trans (callPlain_gateSame m q.1 q.2)
  unfold execTransaction
  split
  · exact ⟨rfl, rfl, rfl⟩
  · exact hqueue.trans ⟨rfl, rfl, rfl⟩

theorem call_gateSame (n : Node σ) (cmd : Command) (argv : Argv) :
    GateSame n (call P n cmd argv) := by
  unfold call
  cases cmd.proc with
  | multiCommand => exact ⟨rfl, rfl, rfl⟩
  | discardCommand =>
    simp only
    split
    · exact ⟨rfl, rfl, rfl⟩
    · exact .refl n
  | execCommand =>
    simp only [execCommand]
    split
    · exact .refl n
    · exact execTransaction_gateSame n
  | crdtExecCommand =>
    simp only [crdtExecCommand]
    split
    · exact .refl n
    split
    · exact .refl n
    · refine GateSame.trans ?_ (execTransaction_gateSame _)
      exact ⟨rfl, rfl, rfl⟩
  | _ => exact callPlain_gateSame n cmd argv

theorem afterRefusal_gateSame (n : Node σ) (cmd : Option Command) (r : Refusal) :
    GateSame n { n with c := afterRefusal n.c cmd r } := by
  unfold afterRefusal flagTransaction
  repeat' split
  all_goals exact ⟨rfl, rfl, rfl⟩

theorem processCommand_gateSame (n : Node σ) : GateSame n (processCommand P n).1 := by
  unfold processCommand
  simp only
  split
  · exact ⟨rfl, rfl, rfl⟩
  split
  · exact afterRefusal_gateSame n none _
  · split
    · exact afterRefusal_gateSame n _ _
    · split
      · exact ⟨rfl, rfl, rfl⟩
      · exact call_gateSame n _ _

/-! ## The commands of a buffer -/

/-- The commands that the parser finds in its buffer in at most `fuel` rounds. An
empty request is none. -/
def parsedCommands (maxBulk : Nat) : Nat → Input → List Argv
  | 0, _ => []
  | fuel + 1, i =>
    if i.querybuf = [] then []
    else match parseRequest maxBulk (determineReqtype i) with
      | (i', .ok) =>
        let rest := parsedCommands maxBulk fuel (resetInput i')
        if i'.argv = [] then rest else i'.argv :: rest
      | _ => []

theorem Admits.congr {s : Server} {m : Moment} {c c' : Client} {cmd : Command}
    {argv : Argv} (h : Admits s m c cmd argv) (hmaster : c'.isMaster = c.isMaster) :
    Admits s m c' cmd argv where
  auth := h.auth
  cluster := by rw [hmaster]; exact h.cluster
  memory := h.memory
  persistence := h.persistence
  goodSlaves := h.goodSlaves
  writable := by rw [hmaster]; exact h.writable
  pubsub := h.pubsub
  fresh := h.fresh
  loaded := h.loaded
  script := h.script

theorem Admits.of_gates {n n' : Node σ} {k : Nat} {cmd : Command} {argv : Argv}
    (h : Admits n.server (n.moments k) n.c cmd argv) (hg : n'.gates = n.gates) :
    Admits n'.server (n'.moments k) n'.c cmd argv := by
  simp only [Node.gates, Prod.mk.injEq] at hg
  rw [hg.1, hg.2.1]
  exact h.congr hg.2.2.2

/-- The gates are open for the commands that come next, for each of them at the moment
at which it comes. -/
def OpenFor (P : Procs σ) (n : Node σ) (cmds : List Argv) : Prop :=
  ∀ (k : Nat) (argv : Argv), cmds[k]? = some argv → ∀ cmd, WellFormed P argv cmd →
    Admits n.server (n.moments (n.trace.length + k)) n.c cmd argv

theorem OpenFor.congr {n n' : Node σ} {cmds : List Argv} (h : OpenFor P n cmds)
    (hg : n'.gates = n.gates) (ht : n'.trace = n.trace) : OpenFor P n' cmds := by
  intro k argv hk cmd hwf
  rw [ht]
  exact (h k argv hk cmd hwf).of_gates hg

/-- The entry `p` of the trace is right for the command number `k`. -/
def EntryOk (P : Procs σ) (n : Node σ) (k : Nat) (p : Processed) : Prop :=
  ∀ cmd, WellFormed P p.argv cmd → Admits n.server (n.moments k) n.c cmd p.argv →
    Handled p.outcome

theorem EntryOk.of_gates {n n' : Node σ} {k : Nat} {p : Processed} (h : EntryOk P n' k p)
    (hg : n'.gates = n.gates) : EntryOk P n k p :=
  fun cmd hwf hadm => h cmd hwf (hadm.of_gates hg)

/-- The trace grows by right entries for the first of the commands. -/
def Traces (P : Procs σ) (cmds : List Argv) (n n' : Node σ) : Prop :=
  ∃ new, n'.trace = n.trace ++ new ∧ new.map Processed.argv <+: cmds ∧
    ∀ (k : Nat) (p : Processed), new[k]? = some p → EntryOk P n (n.trace.length + k) p

theorem Traces.of_eq {cmds : List Argv} {n n' : Node σ} (h : n'.trace = n.trace) :
    Traces P cmds n n' := ⟨[], by simp [h], nil_prefix, by simp⟩

theorem Traces.congr {cmds : List Argv} {n m n' : Node σ} (h : Traces P cmds m n')
    (hg : m.gates = n.gates) (ht : m.trace = n.trace) : Traces P cmds n n' := by
  obtain ⟨new, htrace, hpre, hnew⟩ := h
  rw [ht] at htrace hnew
  exact ⟨new, htrace, hpre, fun k p hk => (hnew k p hk).of_gates hg⟩

/-- One command, and what follows it. -/
theorem Traces.cons {cmds : List Argv} {n m n' : Node σ} {p : Processed}
    (hg : m.gates = n.gates) (ht : m.trace = n.trace ++ [p]) (hp : EntryOk P n n.trace.length p)
    (h : Traces P cmds m n') : Traces P (p.argv :: cmds) n n' := by
  obtain ⟨new, htrace, hpre, hnew⟩ := h
  refine ⟨p :: new, by rw [htrace, ht, append_assoc, singleton_append], ?_, ?_⟩
  · rw [map_cons]
    exact (prefix_cons_inj _).mpr hpre
  · intro k q hk
    cases k with
    | zero =>
      obtain rfl := Option.some.inj hk
      exact hp
    | succ k =>
      have hq := (hnew k q hk).of_gates hg
      rwa [ht, length_append, length_singleton, Nat.add_assoc, Nat.add_comm 1] at hq

theorem forgetGid_gateSame (n : Node σ) : GateSame n (forgetGid n) := by
  unfold forgetGid
  split
  · exact ⟨rfl, rfl, rfl⟩
  · exact .refl n

theorem accountGid_gateSame (n : Node σ) : GateSame n (accountGid n) := by
  obtain ⟨feed, peers, heq, -⟩ := accountGid_eq n
  rw [heq]
  exact ⟨rfl, rfl, rfl⟩

theorem moveReploff_gateSame (n : Node σ) : GateSame n (moveReploff n) := by
  unfold moveReploff
  split
  · exact ⟨rfl, rfl, rfl⟩
  · exact .refl n

/-- What one parsed command does to the trace and to what the gates read. -/
structure TracedStep (P : Procs σ) (n n' : Node σ) : Prop where
  gates : n'.gates = n.gates
  next : n'.c.input = resetInput n.c.input ∨ n'.freed = true ∨ n'.c.closeAfterReply = true
  trace : ∃ p, p.argv = n.c.input.argv ∧ n'.trace = n.trace ++ [p] ∧
    EntryOk P n n.trace.length p

theorem processCommand_quit {n : Node σ} (h : (processCommand P n).2 = .quit) :
    (processCommand P n).1.c.closeAfterReply = true := by
  unfold processCommand at h ⊢
  simp only at h ⊢
  split
  · rfl
  · rename_i hname
    rw [if_neg hname] at h
    split at h
    · exact absurd h (by simp)
    · split at h
      · exact absurd h (by simp)
      · split at h
        · exact absurd h (by simp)
        · exact absurd h (by simp)

theorem processParsed_traced (n : Node σ) : TracedStep P n (processParsed P n) := by
  have hforget := forgetGid_gateSame n
  have hsame := hforget.trans (processCommand_gateSame (P := P) (forgetGid n))
  have hentry : ∀ multi acked, EntryOk P n n.trace.length
      ⟨n.c.input.argv, (processCommand P (forgetGid n)).2, multi, acked⟩ := by
    intro multi acked
    refine EntryOk.of_gates (fun cmd hwf hadm => ?_) hforget.gates
    refine (processCommand_handled_iff (by rw [hforget.input]; exact hwf)).mpr ?_
    rw [hforget.input, Node.moment, hforget.trace]
    exact hadm
  have hquit := processCommand_quit (P := P) (n := forgetGid n)
  unfold processParsed
  simp only
  generalize processCommand P (forgetGid n) = r at hsame hentry hquit ⊢
  obtain ⟨n₁, o⟩ := r
  simp only at hsame hentry hquit ⊢
  split
  · rename_i hstop
    refine ⟨hsame.gates, .inr ?_, _, rfl, by rw [hsame.trace], hentry _ _⟩
    rcases hstop with h | h
    · exact .inr (hquit h)
    · exact .inl h
  · have hend := (hsame.trans (accountGid_gateSame n₁)).trans (moveReploff_gateSame _)
    exact ⟨hend.gates, .inl (congrArg resetInput hend.input), _, rfl,
      congrArg (· ++ [_]) hend.trace, hentry _ _⟩

/-- A client that is closing processes nothing. -/
theorem inputLoop_closing {n : Node σ} (h : n.freed = true ∨ n.c.closeAfterReply = true)
    (fuel : Nat) : (inputLoop P fuel n).trace = n.trace := by
  have hpause : (if n.c.isSlave then n else clientsArePaused n).trace = n.trace ∧
      (if n.c.isSlave then n else clientsArePaused n).c = n.c := by
    unfold clientsArePaused
    repeat' split
    all_goals exact ⟨rfl, rfl⟩
  cases fuel with
  | zero => rfl
  | succ fuel =>
    rw [inputLoop]
    split
    · rfl
    · rename_i hbuf
      have hclose : n.c.closeAfterReply = true := h.resolve_left fun hf => hbuf (.inl hf)
      simp only
      generalize (if n.c.isSlave then n else clientsArePaused n) = m at hpause ⊢
      rw [hpause.2, hclose]
      simp only [true_or, if_true]
      split
      · exact hpause.1
      · split
        · exact hpause.1
        · exact hpause.1

/-- The loop adds entries for commands of the buffer, each as it should be. -/
theorem inputLoop_traced (fuel : Nat) (n : Node σ) :
    Traces P (parsedCommands n.protoMaxBulkLen fuel n.c.input) n (inputLoop P fuel n) := by
  induction fuel generalizing n with
  | zero => exact .of_eq rfl
  | succ fuel ih =>
    have hpause : GateSame n (if n.c.isSlave then n else clientsArePaused n) := by
      unfold clientsArePaused
      repeat' split
      all_goals exact ⟨rfl, rfl, rfl⟩
    rw [inputLoop]
    split
    · exact .of_eq rfl
    rename_i hopen
    have hbuf : n.c.input.querybuf ≠ [] := fun h => hopen (.inr h)
    simp only
    generalize (if n.c.isSlave then n else clientsArePaused n) = m at hpause ⊢
    have hmax : m.protoMaxBulkLen = n.protoMaxBulkLen := congrArg (·.2.2.1) hpause.gates
    split
    · exact .of_eq hpause.trace
    split
    · exact .of_eq hpause.trace
    split
    · exact .of_eq hpause.trace
    rw [hmax, hpause.input]
    cases hparse : parseRequest n.protoMaxBulkLen (determineReqtype n.c.input) with
    | mk i res =>
      cases res with
      | again => exact .of_eq hpause.trace
      | protocolError text => exact .of_eq hpause.trace
      | ok =>
        simp only [parsedCommands, if_neg hbuf, hparse]
        split
        · -- nothing in the request
          rw [← hmax]
          exact (ih { m.withInput i with c := resetClient (m.withInput i).c }).congr hpause.gates
            hpause.trace
        · have hstep := processParsed_traced (P := P) (m.withInput i)
          generalize processParsed P (m.withInput i) = n' at hstep ⊢
          have hgates : n'.gates = n.gates := hstep.gates.trans hpause.gates
          obtain ⟨p, hargv, htrace, hok⟩ := hstep.trace
          rw [← show p.argv = i.argv from hargv]
          refine Traces.congr (Traces.cons hstep.gates htrace hok ?_) hpause.gates hpause.trace
          rcases hstep.next with hnext | hclosing
          · have hrest := ih n'
            rwa [show n'.protoMaxBulkLen = _ from congrArg (·.2.2.1) hgates, hnext] at hrest
          · exact .of_eq (inputLoop_closing hclosing fuel)

/-! ## Runs -/

/-- What can happen to the link of a peer: bytes arrive, clients are paused and
resumed, and the server changes. -/
inductive PeerAct (σ : Type)
  | read (bytes : Bytes)
  | pause (stop : Nat)
  | tick (now : Nat)
  | cron
  | resume
  | env (server : Server) (peers : Int → Option Peer) (feed : FeedState) (world : σ)

variable (P)

def peerNext (n : Node σ) : PeerAct σ → Option (Node σ)
  | .read bytes =>
    if n.freed ∨ bytes = [] ∨ (bytes.length : Int) > readlen n.c.input then none
    else some (readQueryFromClient P n bytes)
  | .pause stop => some (pauseClients n stop)
  | .tick now => some { n with mstime := now }
  | .cron => some (clientsArePaused n)
  | .resume => if n.freed ∨ n.unblocked = 0 then none else some (processUnblockedClient P n)
  | .env server peers feed world =>
    some { n with server := server, peers := peers, feed := feed, world := world }

/-- The client of a peer, connected or in a full synchronization, that has not
sent anything yet. -/
def peerSystem : Lib.System (Node σ) (PeerAct σ) where
  init n := n.c.isCrdtMaster = true ∧ n.c.isMaster = false ∧ n.trace = []
  next := peerNext P

/-- Some offset behind the `i`-th command has been reached. -/
def AcknowledgedAt (entries : List Processed) (i : Nat) : Prop :=
  ∃ (j : Nat) (p : Processed), i ≤ j ∧ entries[j]? = some p ∧ p.acked = true

/-- Every command that is acknowledged was run or queued. -/
def NothingLost (n : Node σ) : Prop :=
  ∀ (i : Nat) (p : Processed) (cmd : Command), n.trace[i]? = some p → WellFormed P p.argv cmd →
    AcknowledgedAt n.trace i → Handled p.outcome

/-- The gates are open for the commands in the buffer of the parser. -/
def GatesOpenFor (n : Node σ) (i : Input) : Prop :=
  OpenFor P n (parsedCommands n.protoMaxBulkLen i.querybuf.length i)

/-- When bytes are processed, the gates are open for the commands among them, for each
when its turn comes. -/
def GatesOpen (n : Node σ) : PeerAct σ → Prop
  | .read bytes => GatesOpenFor P n (appendRead n bytes).c.input
  | .resume => GatesOpenFor P n n.c.input
  | _ => True

variable {P}

/-- No entry of the trace is a refusal of a well-formed command. -/
def TraceHandled (P : Procs σ) (n : Node σ) : Prop :=
  ∀ p ∈ n.trace, ∀ cmd, WellFormed P p.argv cmd → Handled p.outcome

theorem processInputBuffer_handled {n : Node σ} (h : TraceHandled P n)
    (hopen : GatesOpenFor P n n.c.input) : TraceHandled P (processInputBuffer P n) := by
  obtain ⟨new, htrace, ⟨rest, hcmds⟩, hnew⟩ :=
    inputLoop_traced (P := P) n.c.input.querybuf.length n
  intro p hp cmd hwf
  rw [processInputBuffer, htrace] at hp
  rcases mem_append.mp hp with hold | hadd
  · exact h p hold cmd hwf
  · obtain ⟨k, hk⟩ := getElem?_of_mem hadd
    refine hnew k p hk cmd hwf (hopen k p.argv ?_ cmd hwf)
    have hget : (new.map Processed.argv)[k]? = some p.argv := by rw [getElem?_map, hk, map_some]
    rw [← hcmds, getElem?_append_left (List.getElem?_eq_some_iff.mp hget).1, hget]

theorem forwardApplied_trace (n : Node σ) (base : Int) (select : Option Int) (forward : Bool) :
    (forwardApplied n base select forward).trace = n.trace := by
  unfold forwardApplied
  simp only
  split
  · rfl
  · split
    · rfl
    · rfl

theorem readQueryFromClient_handled {n : Node σ} {bytes : Bytes} (h : TraceHandled P n)
    (hopen : GatesOpenFor P n (appendRead n bytes).c.input) :
    TraceHandled P (readQueryFromClient P n bytes) := by
  have hloop : TraceHandled P (processInputBuffer P (appendRead n bytes)) := by
    exact processInputBuffer_handled h (hopen.congr rfl rfl)
  have hforward : ∀ base select forward, TraceHandled P
      (forwardApplied (processInputBuffer P (appendRead n bytes)) base select forward) := by
    intro base select forward p hp
    rw [forwardApplied_trace] at hp
    exact hloop p hp
  unfold readQueryFromClient
  split
  · exact h
  · simp only
    split
    · exact h
    · split
      · exact hforward _ _ _
      · split
        · exact hforward _ _ _
        · exact hloop

theorem peerNext_read {n : Node σ} {bytes : Bytes}
    (h : ¬ (n.freed = true ∨ bytes = [] ∨ (bytes.length : Int) > readlen n.c.input)) :
    (peerSystem P).next n (.read bytes) = some (readQueryFromClient P n bytes) :=
  if_neg h

theorem peerNext_handled {n n' : Node σ} {a : PeerAct σ} (h : TraceHandled P n)
    (hok : GatesOpen P n a) (hnext : peerNext P n a = some n') : TraceHandled P n' := by
  cases a with
  | read bytes =>
    obtain ⟨-, ⟨⟩⟩ := ite_none_left_eq_some.1 hnext
    exact readQueryFromClient_handled h hok
  | resume =>
    obtain ⟨-, ⟨⟩⟩ := ite_none_left_eq_some.1 hnext
    unfold processUnblockedClient
    simp only
    split
    · exact processInputBuffer_handled h hok
    · exact h
  | cron =>
    obtain rfl := some.inj hnext
    unfold clientsArePaused
    split
    · exact h
    · exact h
  | pause stop =>
    obtain rfl := some.inj hnext
    exact h
  | tick now =>
    obtain rfl := some.inj hnext
    exact h
  | env server peers feed world =>
    obtain rfl := some.inj hnext
    exact h

/-- Every update of a peer behind which the offset was moved has been run or queued, if no
gate was closed for it when its turn came. `refused_merge_acknowledged` is a run in which
the memory limit is reached between two commands of one read. -/
theorem acknowledged_commands_handled {n : Node σ}
    (h : (peerSystem P).Reachable (GatesOpen P) n) : NothingLost P n := by
  have hinv : TraceHandled P n := by
    refine h.invariant ?_ fun n a n' hn hok hnext => peerNext_handled hn hok hnext
    rintro n ⟨-, -, htrace⟩ p hp
    rw [htrace] at hp
    exact absurd hp (by simp)
  intro i p cmd hp hwf _
  exact hinv p (mem_of_getElem? hp) cmd hwf

/-- A node that synchronizes fully with the peer 2. -/
def syncingNode (moments : Nat → Moment) : Node Unit :=
  { connectedNode with
    moments := moments
    peers := fun gid => if gid = 2 then some ⟨false, none⟩ else none }

/-- Two keys and the end of a full synchronization. -/
def mergeCommands : List Argv :=
  [[ascii "CRDT.MERGE", ascii "2", ascii "big", ascii "v"],
    [ascii "CRDT.MERGE", ascii "2", ascii "k", ascii "v"],
    [ascii "CRDT.MERGE_END", ascii "2", ascii "2:1", ascii "id", ascii "500"]]

theorem syncingNode_reads (moments : Nat → Moment) :
    (peerSystem noModule).next (syncingNode moments) (.read (encoded mergeCommands)) =
      some (readQueryFromClient noModule (syncingNode moments) (encoded mergeCommands)) := by
  refine peerNext_read ?_
  show ¬ (connectedNode.freed = true ∨ encoded mergeCommands = [] ∨
    ((encoded mergeCommands).length : Int) > readlen connectedNode.c.input)
  decide +kernel

/-- An offset behind a later command is one behind every command before it. -/
theorem acknowledged_of_outcomes {entries : List Processed} {outs : List (Argv × Outcome × Bool)}
    (h : entries.map (fun p => (p.argv, p.outcome, p.acked)) = outs) {i j : Nat}
    {x y : Argv × Outcome × Bool} (hij : i ≤ j) (hi : outs[i]? = some x) (hj : outs[j]? = some y)
    (hy : y.2.2 = true) :
    AcknowledgedAt entries i ∧ ∃ p, entries[i]? = some p ∧ (p.argv, p.outcome, p.acked) = x := by
  rw [← h, getElem?_map] at hi hj
  obtain ⟨q, hq, rfl⟩ := map_eq_some_iff.mp hj
  exact ⟨⟨j, q, hij, hq, hy⟩, map_eq_some_iff.mp hi⟩

theorem acknowledged_commands_handled_merge :
    ∃ n, (peerSystem noModule).next (syncingNode healthyMoments) (.read (encoded mergeCommands)) =
        some n ∧
      AcknowledgedAt n.trace 0 ∧ NothingLost noModule n := by
  have hinit : (peerSystem noModule).init (syncingNode healthyMoments) := ⟨rfl, rfl, rfl⟩
  have hopen : GatesOpen noModule (syncingNode healthyMoments) (.read (encoded mergeCommands)) := by
    intro k argv _ cmd _
    exact ⟨.inl rfl, .inl rfl, .inl rfl, .inl rfl, .inr (.inl rfl), .inl rfl, .inl rfl, .inl rfl,
      .inl ⟨rfl, rfl⟩, .inl rfl⟩
  have hnext := syncingNode_reads healthyMoments
  have htrace : (readQueryFromClient noModule (syncingNode healthyMoments)
      (encoded mergeCommands)).trace.map (fun p => (p.argv, p.outcome, p.acked)) =
        mergeCommands.zip [(.ran, false), (.ran, false), (.ran, true)] := by decide +kernel
  exact ⟨_, hnext, (acknowledged_of_outcomes htrace (Nat.zero_le 2) rfl rfl rfl).1,
    acknowledged_commands_handled (.step (.init hinit) hopen hnext)⟩

/-- There is a memory limit, and the first command of the client takes what is left. -/
def fullAfterFirst (k : Nat) : Moment :=
  { healthyMoments k with maxmemory := true, freeMemoryFails := k ≠ 0 }

/-- The first of two keys is merged and reaches the memory limit. The second is refused, and
the synchronization ends well. -/
theorem refused_merge_acknowledged :
    ¬ ∀ n, (peerSystem noModule).Reachable Lib.System.anyStep n → NothingLost noModule n := by
  intro hall
  have hinit : (peerSystem noModule).init (syncingNode fullAfterFirst) := ⟨rfl, rfl, rfl⟩
  have hnext := syncingNode_reads fullAfterFirst
  have htrace : (readQueryFromClient noModule (syncingNode fullAfterFirst)
      (encoded mergeCommands)).trace.map (fun p => (p.argv, p.outcome, p.acked)) =
        mergeCommands.zip [(.ran, false), (.refused .oom, false), (.ran, true)] := by
    decide +kernel
  have hlost := hall _ (.step (.init hinit) trivial hnext)
  obtain ⟨hack, p, hp, hx⟩ :=
    acknowledged_of_outcomes htrace (i := 1) (j := 2) (by decide) rfl rfl rfl
  obtain ⟨hargv, houtcome⟩ := Prod.mk.inj hx
  have hwf : WellFormed noModule p.argv (tableEntry "crdt.merge" .other (-1) "lwm") := by
    rw [hargv]
    exact ⟨by decide, by decide +kernel, by decide⟩
  have hhandled := hlost 1 p _ hp hwf hack
  rw [(Prod.mk.inj houtcome).1] at hhandled
  rcases hhandled with h | h
  · exact absurd h (by simp)
  · exact absurd h (by simp)

end XredisCrdt.Net
