import Mathlib.Data.List.Basic
import XredisCrdt.Util

/-!
# The brackets of a transaction in the two histories

`EXEC` runs the queue of a client. Before the first command that is neither read-only
nor administrative it gives `CRDT.MULTI` to `propagate`, and in the end it gets itself
propagated as `CRDT.EXEC`: by `call`, because `dirty` was increased or the client has
`CLIENT_FORCE_REPL_CRDT`, and once more directly if the node was a master before and
is a slave now. Each of these looks at the role the node has at that moment, which the
commands of the queue may have changed.

A history is the list of the commands that its backlog was fed; without a backlog
nothing is recorded. Selections of a database are left out of it, and so is the AOF.
`brackets_balanced_iff` says for every queue exactly when the brackets in both
histories match.
-/

namespace XredisCrdt.Txn

open List

/-! ## Roles -/

/-- What decides about propagation: `masterhost`, `master_is_crdt`, the configuration,
whether the two backlogs exist, and whether the current client is a connected peer
whose bytes are passed on as they are. -/
structure Role where
  crdtEnabled : Bool
  masterhost : Bool
  masterIsCrdt : Bool
  replSlaveReplAll : Bool
  fromPeer : Bool
  serverBacklog : Bool
  crdtBacklog : Bool
  deriving DecidableEq, Repr

namespace Role

/-- `iAmMaster() == C_OK`. -/
def iAmMaster (r : Role) : Bool :=
  (r.crdtEnabled && !r.masterIsCrdt && r.masterhost) || !r.masterhost

/-- `isSameTypeWithMaster() == C_OK`. -/
def isSameTypeWithMaster (r : Role) : Bool := r.crdtEnabled == r.masterIsCrdt

/-- The node passes on the stream of its master and feeds nothing by itself. -/
def proxying (r : Role) : Bool := r.masterhost && !r.replSlaveReplAll && r.isSameTypeWithMaster

theorem not_proxying_of_iAmMaster {r : Role} (h : r.iAmMaster = true) : r.proxying = false := by
  unfold iAmMaster at h
  unfold proxying isSameTypeWithMaster
  revert h
  cases r.crdtEnabled <;> cases r.masterIsCrdt <;> cases r.masterhost <;> simp

end Role

/-! ## Propagation -/

/-- The two histories and the role. -/
structure Streams where
  role : Role
  own : List Argv
  peer : List Argv

/-- `feedReplicationBacklog(&server, …)` for a whole command. -/
def feedServer (s : Streams) (argv : Argv) : Streams :=
  { s with own := if s.role.serverBacklog then s.own ++ [argv] else s.own }

def feedCrdtServer (s : Streams) (argv : Argv) : Streams :=
  { s with peer := if s.role.crdtBacklog then s.peer ++ [argv] else s.peer }

def replicationFeedAllSlaves (s : Streams) (argv : Argv) : Streams :=
  if s.role.proxying then s else feedCrdtServer (feedServer s argv) argv

def replicationFeedSlaves (s : Streams) (argv : Argv) : Streams :=
  if s.role.proxying ∨ s.role.fromPeer then s else feedServer s argv

/-- `PROPAGATE_CRDT_REPL` and `PROPAGATE_REPL`. -/
structure Target where
  crdtRepl : Bool
  repl : Bool
  deriving DecidableEq, Repr

def propagate (s : Streams) (target : Target) (argv : Argv) : Streams :=
  if target.crdtRepl ∧ s.role.iAmMaster then replicationFeedAllSlaves s argv
  else if target.repl then replicationFeedSlaves s argv
  else s

/-! ## The queue -/

/-- `CRDT.MULTI` or `CRDT.EXEC`. -/
def isBracket (argv : Argv) : Bool :=
  argv.head? == some (ascii "CRDT.MULTI") || argv.head? == some (ascii "CRDT.EXEC")

/-- What the procedure of a queued command, and `call` after it, do one after the
other: the role changes, or a command is propagated, by `propagate` or by one of the
two functions below it. -/
inductive Effect
  | become (role : Role → Role)
  | propagate (target : Target) (argv : Argv)
  | feedAllSlaves (argv : Argv)
  | feedSlaves (argv : Argv)

/-- What is fed, if anything. -/
def Effect.argv : Effect → Option Argv
  | become _ => none
  | propagate _ argv | feedAllSlaves argv | feedSlaves argv => some argv

/-- A queued command: `flagged` says that it is `CMD_READONLY` or `CMD_ADMIN`, and
`dirty` what it adds to `server.dirty`. Brackets come from `EXEC` alone: in a
transaction neither scripts nor module commands open another one. -/
structure Queued where
  flagged : Bool
  effects : List Effect
  dirty : Int
  noBracket : ∀ e ∈ effects, ∀ argv ∈ e.argv, isBracket argv = false

def Effect.run (s : Streams) : Effect → Streams
  | become role => { s with role := role s.role }
  | propagate target argv => Txn.propagate s target argv
  | feedAllSlaves argv => replicationFeedAllSlaves s argv
  | feedSlaves argv => replicationFeedSlaves s argv

/-- `call` of a queued command. -/
def callQueued (s : Streams) (q : Queued) : Streams := q.effects.foldl Effect.run s

/-! ## EXEC -/

/-- The loop over the queue, with `must_propagate`. `opens` says that `CRDT.MULTI` is
propagated: `crdtExecCommand` has this commented out. -/
def execLoop (opens : Bool) (gid : Int) : Streams × Bool → List Queued → Streams × Bool
  | r, [] => r
  | (s, mustPropagate), q :: queue =>
    let first := !mustPropagate && !q.flagged
    let s := if first && opens then propagate s ⟨true, false⟩ (multiArgv gid) else s
    execLoop opens gid (callQueued s q, mustPropagate || first) queue

/-- The end of `EXEC`: a node that has become a slave puts `CRDT.EXEC` into both
backlogs. The second one is taken to exist if the first does. -/
def closeDemoted (gid : Int) (wasMaster : Bool) (s : Streams) : Streams :=
  if s.role.serverBacklog ∧ wasMaster ∧ s.role.masterhost then
    feedCrdtServer (feedServer s (execArgv gid)) (execArgv gid)
  else s

/-- `EXEC` with the `call` around it. -/
def runTransaction (opens : Bool) (gid : Int) (s : Streams) (queue : List Queued) : Streams :=
  let wasMaster := !s.role.masterhost
  let (s, mustPropagate) := execLoop opens gid (s, false) queue
  let s := if mustPropagate then closeDemoted gid wasMaster s else s
  let dirty := (queue.map Queued.dirty).sum + if mustPropagate then 1 else 0
  propagate s ⟨opens && mustPropagate, 0 < dirty⟩ (execArgv gid)

/-- `execCommand`, with the own gid. -/
def execCommand (crdtGid : Int) : Streams → List Queued → Streams := runTransaction true crdtGid

/-- `crdtExecCommand`, with the gid of its argument. -/
def crdtExecCommand (gid : Int) : Streams → List Queued → Streams := runTransaction false gid

/-! ## What each part adds -/

/-- The history of the own slaves, or that of the peers. -/
inductive Kind
  | own
  | peer
  deriving DecidableEq, Repr

def Streams.get (s : Streams) : Kind → List Argv
  | .own => s.own
  | .peer => s.peer

def Role.backlog (r : Role) : Kind → Bool
  | .own => r.serverBacklog
  | .peer => r.crdtBacklog

/-- A command that is propagated with these flags is recorded in the history. -/
def reaches (target : Target) (r : Role) : Kind → Bool
  | .own =>
    if target.crdtRepl && r.iAmMaster then r.serverBacklog
    else target.repl && !r.proxying && !r.fromPeer && r.serverBacklog
  | .peer => target.crdtRepl && r.iAmMaster && r.crdtBacklog

/-- The commands that are there only if the test is true. -/
def only (b : Bool) (argv : Argv) : List Argv := if b then [argv] else []

variable {k : Kind} {l : List Argv} {r : Role} (opens : Bool) (gid : Int) (target : Target)
  (wasMaster : Bool) (s : Streams) (queue : List Queued)

theorem mem_only {b : Bool} {argv a : Argv} : a ∈ only b argv ↔ b = true ∧ a = argv := by
  cases b <;> simp [only]

theorem only_eq_nil {b : Bool} {argv : Argv} : only b argv = [] ↔ b = false := by
  cases b <;> simp [only]

theorem replicationFeedAllSlaves_get (argv : Argv) (k : Kind) :
    (replicationFeedAllSlaves s argv).get k =
      s.get k ++ only (!s.role.proxying && s.role.backlog k) argv := by
  unfold replicationFeedAllSlaves feedCrdtServer feedServer
  cases k <;> cases hp : s.role.proxying <;> cases hb : s.role.serverBacklog <;>
    cases hc : s.role.crdtBacklog <;> simp [Streams.get, only, Role.backlog, hb, hc]

theorem propagate_get (target : Target) (argv : Argv) (k : Kind) :
    (propagate s target argv).get k = s.get k ++ only (reaches target s.role k) argv := by
  unfold propagate
  by_cases hall : target.crdtRepl = true ∧ s.role.iAmMaster = true
  · have hfeeds := Role.not_proxying_of_iAmMaster hall.2
    rw [if_pos hall, replicationFeedAllSlaves_get, hfeeds]
    cases k <;> simp [reaches, hall.1, hall.2, Role.backlog]
  · have hnot : (target.crdtRepl && s.role.iAmMaster) = false := by
      rw [Bool.eq_false_iff]
      simpa using hall
    rw [if_neg hall]
    cases k with
    | own =>
      simp only [reaches, hnot, Bool.false_eq_true, if_false]
      unfold replicationFeedSlaves feedServer
      cases target.repl <;> cases s.role.proxying <;> cases s.role.fromPeer <;>
        cases s.role.serverBacklog <;> simp [Streams.get, only]
    | peer =>
      simp only [reaches, hnot, Bool.false_and]
      unfold replicationFeedSlaves feedServer
      repeat' split
      all_goals simp [Streams.get, only]

theorem propagate_role (target : Target) (argv : Argv) :
    (propagate s target argv).role = s.role := by
  unfold propagate replicationFeedAllSlaves replicationFeedSlaves
  repeat' split
  all_goals rfl

/-- The role after a queued command. -/
def Effect.role (r : Role) : Effect → Role
  | become role => role r
  | _ => r

def Role.after (r : Role) (q : Queued) : Role := q.effects.foldl Effect.role r

/-- The commands that the queued commands get recorded, from the role `r` on. -/
def recorded (r : Role) (queue : List Queued) (k : Kind) : List Argv :=
  (queue.foldl callQueued ⟨r, [], []⟩).get k

/-- What a function does to the streams: the role changes as `f` says, and each history
grows by commands that depend on the role alone. -/
structure Grows (F : Streams → Streams) (f : Role → Role) : Prop where
  role : ∀ s, (F s).role = f s.role
  get : ∀ s k, (F s).get k = s.get k ++ (F ⟨s.role, [], []⟩).get k

namespace Grows

variable {F G : Streams → Streams} {f g : Role → Role}

theorem comp (hF : Grows F f) (hG : Grows G g) : Grows (fun s => G (F s)) (fun r => g (f r)) := by
  refine ⟨fun s => ?_, fun s k => ?_⟩
  · rw [hG.role, hF.role]
  · rw [hG.get, hF.get, hG.get (F ⟨s.role, [], []⟩), hF.role, hF.role, append_assoc]

theorem foldl {α : Type} {F : Streams → α → Streams} {f : Role → α → Role} (l : List α)
    (h : ∀ a ∈ l, Grows (fun s => F s a) (fun r => f r a)) :
    Grows (fun s => l.foldl F s) (fun r => l.foldl f r) := by
  induction l with
  | nil =>
    refine ⟨fun s => rfl, fun s k => ?_⟩
    cases k <;> simp [Streams.get]
  | cons a l ih =>
    exact (h a (by simp)).comp (ih fun a' ha' => h a' (by simp [ha']))

end Grows

theorem grows_propagate (argv : Argv) : Grows (fun s => propagate s target argv) id := by
  refine ⟨fun s => propagate_role s target argv, fun s k => ?_⟩
  rw [propagate_get, propagate_get]
  cases k <;> rfl

theorem grows_feedAllSlaves (argv : Argv) :
    Grows (fun s => replicationFeedAllSlaves s argv) id := by
  refine ⟨fun s => ?_, fun s k => ?_⟩
  · unfold replicationFeedAllSlaves
    split <;> rfl
  · rw [replicationFeedAllSlaves_get, replicationFeedAllSlaves_get]
    cases k <;> rfl

/-- To feed the slaves is to propagate with `PROPAGATE_REPL` alone. -/
theorem replicationFeedSlaves_eq (argv : Argv) :
    replicationFeedSlaves s argv = propagate s ⟨false, true⟩ argv := by
  rw [propagate, if_neg (by simp), if_pos rfl]

open Effect

theorem grows_effect (e : Effect) : Grows (fun s => e.run s) (fun r => e.role r) := by
  cases e with
  | become role =>
    refine ⟨fun s => rfl, fun s k => ?_⟩
    cases k <;> simp [run, Streams.get]
  | propagate target argv => exact grows_propagate target argv
  | feedAllSlaves argv => exact grows_feedAllSlaves argv
  | feedSlaves argv =>
    have h := grows_propagate ⟨false, true⟩ argv
    simp only [← replicationFeedSlaves_eq] at h
    exact h

theorem grows_callQueued (q : Queued) : Grows (fun s => callQueued s q) (fun r => r.after q) :=
  Grows.foldl (F := run) (f := role) q.effects fun e _ => grows_effect e

theorem grows_queue :
    Grows (fun s => queue.foldl callQueued s) (fun r => queue.foldl Role.after r) :=
  Grows.foldl queue fun q _ => grows_callQueued q

/-- No command of the list is a bracket. -/
def Free (l : List Argv) : Prop := ∀ argv ∈ l, isBracket argv = false

theorem free_append {l' : List Argv} : Free (l ++ l') ↔ Free l ∧ Free l' :=
  forall_mem_append

/-- The command that an effect can put into a history. -/
def Effect.argvFor (e : Effect) : Kind → Option Argv
  | .own => e.argv
  | .peer =>
    match e with
    | become _ | feedSlaves _ => none
    | propagate target argv => if target.crdtRepl then some argv else none
    | feedAllSlaves argv => some argv

theorem Effect.argv_of_argvFor {e : Effect} {argv : Argv} (h : argv ∈ e.argvFor k) :
    argv ∈ e.argv := by
  cases k with
  | own => exact h
  | peer =>
    cases e with
    | become role => cases h
    | feedSlaves a => cases h
    | feedAllSlaves a => exact h
    | propagate target a => exact (Option.ite_none_right_eq_some.1 h).2

/-- The effect puts its command into the history. -/
def Effect.isRecorded (r : Role) (k : Kind) : Effect → Bool
  | become _ => false
  | propagate target _ => reaches target r k
  | feedAllSlaves _ => !r.proxying && r.backlog k
  | feedSlaves _ => reaches ⟨false, true⟩ r k

/-- None of the effects, from the role on, puts a command into the history. -/
def silent (r : Role) (k : Kind) : List Effect → Bool
  | [] => true
  | e :: es => !e.isRecorded r k && silent (e.role r) k es

/-- An effect adds the command that it is about, or nothing. -/
theorem effect_get (e : Effect) (s : Streams) (k : Kind) :
    ∃ l, (e.run s).get k = s.get k ++ l ∧ (∀ argv ∈ l, argv ∈ e.argvFor k) ∧
      (l = [] ↔ e.isRecorded s.role k = false) := by
  cases e with
  | become role =>
    refine ⟨[], ?_, forall_mem_nil _, iff_of_true rfl rfl⟩
    cases k <;> simp [run, Streams.get]
  | propagate target argv =>
    refine ⟨_, propagate_get s target argv k, fun a ha => ?_, only_eq_nil⟩
    obtain ⟨hreach, rfl⟩ := mem_only.1 ha
    cases k with
    | own => rfl
    | peer =>
      have hcrdt : target.crdtRepl = true := by
        simp only [reaches, Bool.and_eq_true] at hreach
        exact hreach.1.1
      simp [argvFor, hcrdt]
  | feedSlaves argv =>
    refine ⟨only (reaches ⟨false, true⟩ s.role k) argv, ?_, fun a ha => ?_, only_eq_nil⟩
    · show (replicationFeedSlaves s argv).get k = _
      rw [replicationFeedSlaves_eq, propagate_get]
    · obtain ⟨hreach, rfl⟩ := mem_only.1 ha
      cases k with
      | own => rfl
      | peer => simp [reaches] at hreach
  | feedAllSlaves argv =>
    refine ⟨_, replicationFeedAllSlaves_get s argv k, fun a ha => ?_, only_eq_nil⟩
    obtain ⟨-, rfl⟩ := mem_only.1 ha
    cases k <;> rfl

theorem foldl_effects_eq_nil_iff {es : List Effect} :
    (es.foldl run s).get k = [] ↔ s.get k = [] ∧ silent s.role k es = true := by
  induction es generalizing s with
  | nil => simp [silent]
  | cons e es ih =>
    rw [foldl_cons, ih, (grows_effect e).role]
    obtain ⟨l, hget, -, hnil⟩ := effect_get e s k
    simp [silent, hget, hnil, and_assoc]

theorem recorded_eq_nil_iff :
    recorded r queue k = [] ↔ silent r k (queue.flatMap Queued.effects) = true := by
  have hrun : recorded r queue k =
      ((queue.flatMap Queued.effects).foldl run ⟨r, [], []⟩).get k := by
    rw [foldl_flatMap]
    rfl
  rw [hrun, foldl_effects_eq_nil_iff]
  exact and_iff_right (by cases k <;> rfl)

/-- What holds of all commands of the effects holds of all commands recorded. -/
theorem forall_callQueued {p : Argv → Prop} {q : Queued}
    (hq : ∀ e ∈ q.effects, ∀ argv ∈ e.argvFor k, p argv) {s : Streams}
    (hs : ∀ argv ∈ s.get k, p argv) : ∀ argv ∈ (callQueued s q).get k, p argv := by
  -- each of the effects adds only commands with `p`
  refine foldlRecOn (motive := fun s => ∀ argv ∈ s.get k, p argv) _ run hs fun s hs e he => ?_
  obtain ⟨l, hget, hl, -⟩ := effect_get e s k
  rw [hget]
  exact forall_mem_append.2 ⟨hs, fun a ha => hq e he a (hl a ha)⟩

@[inherit_doc forall_callQueued]
theorem forall_recorded {p : Argv → Prop} (r : Role)
    {queue : List Queued} (h : ∀ q ∈ queue, ∀ e ∈ q.effects, ∀ argv ∈ e.argvFor k, p argv) :
    ∀ argv ∈ recorded r queue k, p argv := by
  refine foldlRecOn (motive := fun s => ∀ argv ∈ s.get k, p argv) queue callQueued ?_
    fun s hs q hq => forall_callQueued (h q hq) hs
  cases k <;> exact forall_mem_nil _

theorem free_recorded (r : Role) (queue : List Queued) (k : Kind) : Free (recorded r queue k) :=
  forall_recorded r fun q _ e he argv hargv => q.noBracket e he argv (argv_of_argvFor hargv)

/-! ## The loop -/

/-- The commands before the first one that is not flagged. -/
def early (queue : List Queued) : List Queued := queue.takeWhile Queued.flagged

/-- The others; there are some exactly if `must_propagate` gets set. -/
def late (queue : List Queued) : List Queued := queue.dropWhile Queued.flagged

theorem execLoop_opened :
    execLoop opens gid (s, true) queue = (queue.foldl callQueued s, true) := by
  induction queue generalizing s with
  | nil => rfl
  | cons q queue ih =>
    rw [execLoop]
    simpa using ih (callQueued s q)

theorem execLoop_eq : execLoop opens gid (s, false) queue =
      if late queue = [] then ((early queue).foldl callQueued s, false)
      else
        ((late queue).foldl callQueued
          (if opens then propagate ((early queue).foldl callQueued s) ⟨true, false⟩ (multiArgv gid)
            else (early queue).foldl callQueued s), true) := by
  induction queue generalizing s with
  | nil => rfl
  | cons q queue ih =>
    rw [execLoop]
    cases hq : q.flagged with
    | true =>
      have hearly : early (q :: queue) = q :: early queue := by simp [early, hq]
      have hlate : late (q :: queue) = late queue := by simp [late, hq]
      rw [hearly, hlate]
      simpa using ih (callQueued s q)
    | false =>
      have hearly : early (q :: queue) = [] := by simp [early, hq]
      have hlate : late (q :: queue) = q :: queue := by simp [late, hq]
      rw [hearly, hlate, if_neg (cons_ne_nil q queue)]
      simp only [Bool.not_false, Bool.and_self, Bool.true_and, Bool.or_true]
      rw [execLoop_opened]
      rfl

/-- The role before the first command that is not flagged, and in the end. -/
def roleEarly (r : Role) (queue : List Queued) : Role := (early queue).foldl Role.after r

def roleEnd (r : Role) (queue : List Queued) : Role :=
  (late queue).foldl Role.after (roleEarly r queue)

def isWrite (queue : List Queued) : Bool := !(late queue).isEmpty

/-- `CRDT.MULTI` is recorded. -/
def opened (opens : Bool) (r : Role) (queue : List Queued) (k : Kind) : Bool :=
  opens && isWrite queue && reaches ⟨true, false⟩ (roleEarly r queue) k

/-- `CRDT.EXEC` is recorded for a node that has become a slave. -/
def closedDemoted (r : Role) (queue : List Queued) (k : Kind) : Bool :=
  isWrite queue && (roleEnd r queue).serverBacklog && !r.masterhost &&
    (roleEnd r queue).masterhost && (roleEnd r queue).backlog k

/-- The sum of what the commands add to `server.dirty`, and one for the brackets. -/
def dirtyOf (queue : List Queued) : Int :=
  (queue.map Queued.dirty).sum + if isWrite queue then 1 else 0

/-- `CRDT.EXEC` is recorded as `call` propagates it. -/
def closed (opens : Bool) (r : Role) (queue : List Queued) (k : Kind) : Bool :=
  reaches ⟨opens && isWrite queue, 0 < dirtyOf queue⟩ (roleEnd r queue) k

theorem closeDemoted_get (k : Kind) : (closeDemoted gid wasMaster s).get k = s.get k ++
      only (s.role.serverBacklog && wasMaster && s.role.masterhost && s.role.backlog k)
        (execArgv gid) := by
  unfold closeDemoted feedCrdtServer feedServer
  cases k <;> cases hb : s.role.serverBacklog <;> cases wasMaster <;>
    cases hm : s.role.masterhost <;> cases hc : s.role.crdtBacklog <;>
    simp [Streams.get, only, Role.backlog, hb, hc]

theorem closeDemoted_role : (closeDemoted gid wasMaster s).role = s.role := by
  unfold closeDemoted
  split <;> rfl

/-- What `EXEC` adds to a history. -/
theorem runTransaction_get (r : Role) (queue : List Queued) (k : Kind) :
    (runTransaction opens gid ⟨r, [], []⟩ queue).get k =
      recorded r (early queue) k ++ only (opened opens r queue k) (multiArgv gid) ++
        recorded (roleEarly r queue) (late queue) k ++
        only (closedDemoted r queue k) (execArgv gid) ++
        only (closed opens r queue k) (execArgv gid) := by
  have hearly : ((early queue).foldl callQueued ⟨r, [], []⟩).role = roleEarly r queue :=
    (grows_queue (early queue)).role ⟨r, [], []⟩
  unfold runTransaction
  rw [execLoop_eq]
  by_cases hw : late queue = []
  · -- there is nothing but flagged commands
    have hno : isWrite queue = false := by simp [isWrite, hw]
    have hend : roleEnd r queue = roleEarly r queue := by simp [roleEnd, hw]
    have hnone : recorded (roleEarly r queue) (late queue) k = [] := by
      rw [hw]
      cases k <;> rfl
    simp only [if_pos hw, Bool.false_eq_true, if_false]
    rw [propagate_get, hearly, hnone]
    simp [opened, closedDemoted, closed, dirtyOf, hno, hend, recorded, only]
  · have hyes : isWrite queue = true := by simp [isWrite, hw]
    simp only [if_neg hw, if_true]
    -- the streams after the opening bracket
    generalize hs₂ : (if opens then
      propagate ((early queue).foldl callQueued ⟨r, [], []⟩) ⟨true, false⟩ (multiArgv gid)
      else (early queue).foldl callQueued ⟨r, [], []⟩) = s₂
    have hrole₂ : s₂.role = roleEarly r queue := by
      rw [← hs₂]
      split
      · rw [propagate_role, hearly]
      · exact hearly
    have hget₂ : s₂.get k = recorded r (early queue) k ++
        only (opened opens r queue k) (multiArgv gid) := by
      rw [← hs₂, opened, hyes]
      cases opens with
      | true =>
        rw [if_pos rfl, propagate_get, hearly]
        rfl
      | false => simp [recorded, only]
    have hlate := grows_queue (late queue)
    have hrole₃ : ((late queue).foldl callQueued s₂).role = roleEnd r queue := by
      rw [hlate.role, hrole₂, roleEnd]
    rw [propagate_get, closeDemoted_role, closeDemoted_get, hlate.get, hrole₂, hrole₃, hget₂]
    simp only [closedDemoted, closed, dirtyOf, hyes, Bool.and_true, Bool.true_and, if_true]
    rfl

theorem grows_closeDemoted : Grows (fun s => closeDemoted gid wasMaster s) id := by
  refine ⟨fun s => closeDemoted_role gid wasMaster s, fun s k => ?_⟩
  rw [closeDemoted_get, closeDemoted_get]
  cases k <;> rfl

/-- `EXEC` adds the same whatever the histories already have. -/
theorem runTransaction_append (k : Kind) : (runTransaction opens gid s queue).get k =
      s.get k ++ (runTransaction opens gid ⟨s.role, [], []⟩ queue).get k := by
  unfold runTransaction
  simp only [execLoop_eq]
  by_cases hlate : late queue = []
  · simp only [if_pos hlate, Bool.false_eq_true, if_false]
    exact ((grows_queue (early queue)).comp (grows_propagate _ _)).get s k
  · simp only [if_neg hlate, if_true]
    have hend := (grows_queue (late queue)).comp ((grows_closeDemoted gid (!s.role.masterhost)).comp
        (grows_propagate ⟨opens && true, decide (0 < (queue.map Queued.dirty).sum + 1)⟩
          (execArgv gid)))
    cases opens with
    | false => exact ((grows_queue (early queue)).comp hend).get s k
    | true =>
      exact ((grows_queue (early queue)).comp
        ((grows_propagate ⟨true, false⟩ (multiArgv gid)).comp hend)).get s k

/-- A role that no queued command changes stays. -/
theorem runTransaction_role {opens : Bool} {gid : Int} {s : Streams} {queue : List Queued}
    (h : ∀ q ∈ queue, ∀ r : Role, r.after q = r) :
    (runTransaction opens gid s queue).role = s.role := by
  have hqueue : ∀ l ⊆ queue, ∀ s : Streams, (l.foldl callQueued s).role = s.role := fun l hl s =>
    foldlRecOn (motive := fun s' => s'.role = s.role) l callQueued rfl fun s' hs q hq => by
      rw [(grows_callQueued q).role, hs, h q (hl hq)]
  have hearly := hqueue (early queue) (takeWhile_sublist _).subset
  have hlate := hqueue (late queue) (dropWhile_sublist _).subset
  unfold runTransaction
  simp only [execLoop_eq, propagate_role]
  split
  · simpa using hearly s
  · simp only [if_true, closeDemoted_role]
    rw [hlate]
    split
    · rw [propagate_role, hearly]
    · exact hearly s

/-! ## Balance -/

/-- No bracket at all, or one `CRDT.MULTI` before and one `CRDT.EXEC` after all other
commands. -/
def Balanced (gid : Int) (l : List Argv) : Prop :=
  Free l ∨ ∃ body, l = multiArgv gid :: body ++ [execArgv gid] ∧ Free body

theorem isBracket_multiArgv : isBracket (multiArgv gid) = true := by
  simp [isBracket, multiArgv]

theorem isBracket_execArgv : isBracket (execArgv gid) = true := by
  simp [isBracket, execArgv]

theorem multiArgv_ne_execArgv (gid' : Int) : multiArgv gid ≠ execArgv gid' := by
  intro h
  have hname : ascii "CRDT.MULTI" = ascii "CRDT.EXEC" := (List.cons.inj h).1
  exact absurd hname (by decide)

theorem filter_free (h : Free l) : l.filter isBracket = [] :=
  filter_eq_nil_iff.2 fun a ha => by simp [h a ha]

theorem filter_only {b : Bool} {argv : Argv} (h : isBracket argv = true) :
    (only b argv).filter isBracket = only b argv := by
  cases b <;> simp [only, h]

/-- The brackets of a balanced list. -/
theorem Balanced.filter {gid : Int} (h : Balanced gid l) :
    l.filter isBracket = [] ∨ l.filter isBracket = [multiArgv gid, execArgv gid] := by
  rcases h with hfree | ⟨body, rfl, hfree⟩
  · exact .inl (filter_free hfree)
  · right
    simp [isBracket_multiArgv, isBracket_execArgv, filter_free hfree]

/-- When a history with these parts is balanced. -/
theorem balanced_iff {gid : Int} {before body : List Argv} (hbefore : Free before)
    (hbody : Free body) (o d c : Bool) :
    Balanced gid (before ++ only o (multiArgv gid) ++ body ++ only d (execArgv gid) ++
        only c (execArgv gid)) ↔
      if o then (d ^^ c) = true ∧ before = [] else d = false ∧ c = false := by
  constructor
  · intro h
    have hfilter := h.filter
    simp only [filter_append, filter_free hbefore, filter_free hbody,
      filter_only (isBracket_multiArgv gid), filter_only (isBracket_execArgv gid),
      nil_append, append_nil] at hfilter
    have hne := multiArgv_ne_execArgv gid gid
    cases o with
    | false =>
      cases d <;> cases c <;> simp_all [only, Ne.symm hne]
    | true =>
      have hnum : (d ^^ c) = true := by
        cases d <;> cases c <;> simp_all [only]
      refine ⟨hnum, ?_⟩
      -- the first command is the opening bracket
      rcases h with hfree | ⟨body', heq, -⟩
      · have hm := hfree (multiArgv gid) (by simp [only])
        rw [isBracket_multiArgv] at hm
        cases hm
      · cases before with
        | nil => rfl
        | cons a before =>
          have ha : a = multiArgv gid := by simpa using congrArg List.head? heq
          have hfree := hbefore a (by simp)
          rw [ha, isBracket_multiArgv] at hfree
          cases hfree
  · intro h
    cases o with
    | false =>
      obtain ⟨rfl, rfl⟩ : d = false ∧ c = false := by simpa using h
      left
      simpa [only] using free_append.2 ⟨hbefore, hbody⟩
    | true =>
      obtain ⟨hnum, rfl⟩ : (d ^^ c) = true ∧ before = [] := by simpa using h
      refine .inr ⟨body, ?_, hbody⟩
      cases d <;> cases c <;> simp_all [only]

/-- The brackets of a transaction match in a history: if it is opened then nothing was
recorded before and it is closed in one of the two ways, and otherwise in none. -/
def BracketsMatch (opens : Bool) (r : Role) (queue : List Queued) (k : Kind) : Prop :=
  if opened opens r queue k then
    (closedDemoted r queue k ^^ closed opens r queue k) = true ∧
      silent r k ((early queue).flatMap Queued.effects) = true
  else closedDemoted r queue k = false ∧ closed opens r queue k = false

/-- `EXEC` and `CRDT.EXEC`, for every queue and from every role: the brackets in both
histories are balanced exactly if the roles at the first write, at the start and in the
end fit together. -/
theorem brackets_balanced_iff (opens : Bool) (gid : Int) (r : Role) (queue : List Queued) :
    (Balanced gid (runTransaction opens gid ⟨r, [], []⟩ queue).own ∧
      Balanced gid (runTransaction opens gid ⟨r, [], []⟩ queue).peer) ↔
      BracketsMatch opens r queue .own ∧ BracketsMatch opens r queue .peer := by
  have hkind : ∀ k, Balanced gid ((runTransaction opens gid ⟨r, [], []⟩ queue).get k) ↔
      BracketsMatch opens r queue k := by
    intro k
    rw [runTransaction_get, balanced_iff (free_recorded r (early queue) k)
      (free_recorded (roleEarly r queue) (late queue) k), recorded_eq_nil_iff]
    rfl
  exact and_congr (hkind .own) (hkind .peer)

theorem roleEnd_of_steady {queue : List Queued} (h : ∀ q ∈ queue, r.after q = r) :
    roleEarly r queue = r ∧ roleEnd r queue = r := by
  have hfold : ∀ l ⊆ queue, l.foldl Role.after r = r := fun l hl =>
    foldlRecOn (motive := (· = r)) l Role.after rfl fun r' hr q hq => by rw [hr, h q (hl hq)]
  have hearly : roleEarly r queue = r := hfold _ (takeWhile_sublist _).subset
  refine ⟨hearly, ?_⟩
  rw [roleEnd, hearly]
  exact hfold _ (dropWhile_sublist _).subset

theorem closedDemoted_of_steady {queue : List Queued} (h : ∀ q ∈ queue, r.after q = r) (k : Kind) :
    closedDemoted r queue k = false := by
  rw [closedDemoted, (roleEnd_of_steady h).2]
  cases r.masterhost <;> simp

/-- A master with both backlogs. -/
def masterRole : Role := ⟨true, false, true, false, false, true, true⟩

/-- `PEEROF 3 10.0.0.3 6379`, an administrative command that is propagated to slaves. -/
def queuedPeerof : Queued where
  flagged := true
  effects := [.propagate ⟨false, true⟩ [ascii "PEEROF", ascii "3", ascii "10.0.0.3", ascii "6379"]]
  dirty := 1
  noBracket := by decide

/-- `MULTI`, `PEEROF 3 10.0.0.3 6379`, `EXEC` on a master: the own slaves get a
`CRDT.EXEC` without `CRDT.MULTI`. -/
theorem exec_without_multi : ¬ ∀ gid r queue, Balanced gid (execCommand gid ⟨r, [], []⟩ queue).own ∧
      Balanced gid (execCommand gid ⟨r, [], []⟩ queue).peer := by
  intro h
  have hbalanced := (h 1 masterRole [queuedPeerof]).1
  have hbrackets : (execCommand 1 ⟨masterRole, [], []⟩ [queuedPeerof]).own.filter isBracket =
      [execArgv 1] := by decide
  have hshape := hbalanced.filter
  rw [hbrackets] at hshape
  simp at hshape

end XredisCrdt.Txn
