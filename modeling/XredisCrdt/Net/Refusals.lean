import XredisCrdt.Lib.System
import XredisCrdt.Net.StreamRuns

/-!
# Transactions with a refused command

A command that is answered with an error while a transaction is open is to spoil it:
`flagTransaction` sets `CLIENT_DIRTY_EXEC`, and `EXEC` runs nothing then. Most gates of
`processCommand` call it; those for read-only slaves, for Pub/Sub and for loading do
not, nor do `MULTI` and `WATCH` inside of a transaction and `CRDT.EXEC` with a gid that
is none.

The system is a dialogue of one client with the server, which changes in any way
between the commands. `failed` records that a command of the open transaction was
answered with an error. `refused_transaction_runs_nothing` is about the runs that do
not meet these refusals.
-/

namespace XredisCrdt.Net

variable {σ : Type} (P : Procs σ)

/-! ## The dialogue -/

/-- The gid that `CRDT.EXEC` takes from its argument. -/
def execGidOk (argv : Argv) : Bool := (argv[1]?.bind string2gid).any checkGid

/-- The procedures that are run in an open transaction and answer with an error. -/
def repliesError (c : Client) (cmd : Command) (argv : Argv) : Bool :=
  match cmd.proc with
  | .multiCommand | .watchCommand => c.multi
  | .crdtExecCommand => c.multi && !execGidOk argv
  | _ => false

/-- The answer to the command in the client's buffer is an error. -/
def answersError (n : Node σ) : Bool :=
  match (processCommand P n).2 with
  | .refused _ => true
  | .ran => (lookupCommand P (n.c.input.argv.headD [])).any fun cmd =>
      repliesError n.c cmd n.c.input.argv
  | _ => false

/-- A client that talks to the server. -/
structure Dialogue (σ : Type) where
  node : Node σ
  failed : Bool

inductive DialogueAct (σ : Type)
  | command (argv : Argv)
  | meanwhile (server : Server) (moments : Nat → Moment) (world : σ) (dirtyCas : Bool)

/-- The client with the arguments of its next command. -/
def Node.withArgv (n : Node σ) (argv : Argv) : Node σ :=
  n.withInput { n.c.input with argv := argv }

def dialogueNext (d : Dialogue σ) : DialogueAct σ → Option (Dialogue σ)
  | .command argv =>
    let n := d.node.withArgv argv
    let n' := (processCommand P n).1
    some ⟨n', n'.c.multi && (d.failed || (n.c.multi && answersError P n))⟩
  | .meanwhile server moments world dirtyCas =>
    some { d with node := { d.node with
      server := server
      moments := moments
      world := world
      c := { d.node.c with dirtyCas := dirtyCas } } }

/-- At the start no transaction is open. -/
def dialogue : Lib.System (Dialogue σ) (DialogueAct σ) where
  init d := d.node.c.multi = false ∧ d.failed = false
  next := dialogueNext P

/-- None of the refusals that do not spoil a transaction applies to the command. -/
structure NoQuietRefusal (s : Server) (m : Moment) (c : Client) (cmd : Command)
    (argv : Argv) : Prop where
  readonly : cmd.write = true → s.iAmMaster = true ∨ m.replSlaveRo = false ∨ c.isMaster = true
  pubsub : m.pubsub = true → allowedInPubsub cmd = true
  loading : m.loading = true ∨ m.crdtLoading = true → cmd.loading = true
  multi : cmd.proc ≠ .multiCommand
  watch : cmd.proc ≠ .watchCommand
  exec : cmd.proc = .crdtExecCommand → execGidOk argv = true

/-- A command of an open transaction is refused aloud if at all. -/
def RefusedAloud (d : Dialogue σ) : DialogueAct σ → Prop
  | .command argv => d.node.c.multi = true →
      ∀ cmd, lookupCommand P (argv.headD []) = some cmd →
        NoQuietRefusal d.node.server d.node.moment d.node.c cmd argv
  | .meanwhile .. => True

variable {P}

/-! ## Refusals that spoil -/

/-- A refusal comes from the first gate or from one behind it. -/
theorem gate_cases {p : Prop} [Decidable p] {x y : Option Refusal} {r : Refusal}
    (h : (if p then x else y) = some r) : (p ∧ x = some r) ∨ y = some r := by
  by_cases hp : p
  · rw [if_pos hp] at h
    exact .inl ⟨hp, h⟩
  · rw [if_neg hp] at h
    exact .inr h

/-- The failure of a write to disk spoils. -/
theorem persistenceError_flags {m : Moment} {r : Refusal} (h : persistenceError m = some r) :
    r.flags = true := by
  unfold persistenceError at h
  split at h
  · cases h; rfl
  · split at h
    · cases h; rfl
    · cases h

/-- Which gates do not spoil a transaction, and what they look at. -/
theorem closedGate_flags {s : Server} {m : Moment} {c : Client} {cmd : Command}
    {argv : Argv} {r : Refusal} (h : closedGate s m c cmd argv = some r)
    (hok : NoQuietRefusal s m c cmd argv) : r.flags = true := by
  unfold closedGate at h
  rcases gate_cases h with ⟨-, h⟩ | h
  · cases h; rfl
  rcases gate_cases h with ⟨-, h⟩ | h
  · cases h; rfl
  rcases gate_cases h with ⟨-, h⟩ | h
  · obtain ⟨reply, -, rfl⟩ := Option.map_eq_some_iff.1 h
    rfl
  rcases gate_cases h with ⟨-, h⟩ | h
  · cases h; rfl
  rcases gate_cases h with ⟨-, h⟩ | h
  · exact persistenceError_flags h
  rcases gate_cases h with ⟨-, h⟩ | h
  · cases h; rfl
  rcases gate_cases h with ⟨⟨hslave, hreadonly, hclient, hwrite⟩, -⟩ | h
  · rcases hok.readonly hwrite with hm | hm | hm
    · exact absurd hm hslave
    · rw [hm] at hreadonly
      cases hreadonly
    · exact absurd hm hclient
  rcases gate_cases h with ⟨hclosed, -⟩ | h
  · exact absurd (hok.pubsub hclosed.1) hclosed.2
  rcases gate_cases h with ⟨-, h⟩ | h
  · cases h; rfl
  rcases gate_cases h with ⟨hclosed, -⟩ | h
  · exact absurd (hok.loading hclosed.1) hclosed.2
  rcases gate_cases h with ⟨-, h⟩ | h
  · cases h; rfl
  · cases h

/-- A refusal that spoils: the transaction is flagged, or it is over. -/
theorem afterRefusal_spoils {c : Client} {r : Refusal} (cmd : Option Command)
    (hflags : r.flags = true) (hmulti : c.multi = true) :
    (afterRefusal c cmd r).multi = false ∨ (afterRefusal c cmd r).dirtyExec = true := by
  unfold afterRefusal
  split
  · exact .inl rfl
  · right
    rw [if_pos hflags, flagTransaction, if_pos hmulti]

/-- The commands that are run in an open transaction, but for `MULTI` and `WATCH`: it is
over, or all is as before. -/
theorem call_in_multi {n : Node σ} {cmd : Command} (argv : Argv)
    (hruns : runsInMulti cmd = true) (hmulti : n.c.multi = true)
    (hm : cmd.proc ≠ .multiCommand) (hw : cmd.proc ≠ .watchCommand) :
    (call P n cmd argv).c.multi = false ∨ call P n cmd argv = n := by
  unfold runsInMulti at hruns
  unfold call
  cases hproc : cmd.proc with
  | multiCommand => exact absurd hproc hm
  | watchCommand => exact absurd hproc hw
  | execCommand =>
    left
    show (execCommand P n).c.multi = false
    rw [execCommand, if_neg (by simp [hmulti])]
    rfl
  | discardCommand =>
    left
    show (if n.c.multi then { n with c := discardTransaction n.c } else n).c.multi = false
    rw [if_pos hmulti]
    rfl
  | crdtExecCommand =>
    show (crdtExecCommand P n argv).c.multi = false ∨ crdtExecCommand P n argv = n
    unfold crdtExecCommand
    rw [if_neg (by simp [hmulti])]
    split
    · exact .inr rfl
    · exact .inl rfl
  | _ => rw [hproc] at hruns; cases hruns

/-- What `processCommand` does to the flags of a client with an open transaction: it is
over, or an error leaves it flagged. -/
theorem processCommand_spoils {n : Node σ} (hmulti : n.c.multi = true)
    (hok : ∀ cmd, lookupCommand P (n.c.input.argv.headD []) = some cmd →
      NoQuietRefusal n.server n.moment n.c cmd n.c.input.argv) :
    (processCommand P n).1.c.multi = false ∨ (processCommand P n).1.c.multi = true ∧
      ((n.c.dirtyExec || answersError P n) = true → (processCommand P n).1.c.dirtyExec = true) := by
  have hcases : ∀ b : Bool, b = false ∨ b = true := by decide
  unfold answersError
  generalize hr : processCommand P n = r
  unfold processCommand at hr
  dsimp only at hr
  split at hr
  · subst hr
    exact .inr ⟨hmulti, by simp⟩
  cases hlook : lookupCommand P (n.c.input.argv.headD []) with
  | none =>
    simp only [hlook] at hr
    subst hr
    refine .inr ⟨?_, fun _ => ?_⟩
    · show (flagTransaction n.c).multi = true
      rw [flagTransaction, if_pos hmulti]
      exact hmulti
    · show (flagTransaction n.c).dirtyExec = true
      rw [flagTransaction, if_pos hmulti]
  | some cmd =>
    have hquiet := hok cmd hlook
    simp only [hlook] at hr
    cases hgate : closedGate n.server n.moment n.c cmd n.c.input.argv with
    | some refusal =>
      simp only [hgate] at hr
      subst hr
      rcases hcases (afterRefusal n.c (some cmd) refusal).multi with hover | hopen
      · exact .inl hover
      · rcases afterRefusal_spoils (some cmd) (closedGate_flags hgate hquiet) hmulti with h | h
        · exact .inl h
        · exact .inr ⟨hopen, fun _ => h⟩
    | none =>
      simp only [hgate, hmulti, true_and] at hr
      split at hr
      · subst hr
        exact .inr ⟨rfl, by simp⟩
      · rename_i hruns
        have hruns : runsInMulti cmd = true := by simpa using hruns
        subst hr
        rcases call_in_multi n.c.input.argv hruns hmulti hquiet.multi hquiet.watch with
          hover | hsame
        · exact .inl hover
        · refine .inr ⟨?_, fun h => ?_⟩
          · rw [hsame]
            exact hmulti
          · -- no procedure that is run here answers with an error
            have hreply : repliesError n.c cmd n.c.input.argv = false := by
              unfold repliesError
              cases hproc : cmd.proc with
              | multiCommand => exact absurd hproc hquiet.multi
              | watchCommand => exact absurd hproc hquiet.watch
              | crdtExecCommand => simp [hquiet.exec hproc]
              | _ => rfl
            rw [hsame]
            simpa [hreply] using h

/-- Who has failed in an open transaction is flagged. -/
def Spoiled (d : Dialogue σ) : Prop :=
  d.failed = true → d.node.c.multi = true ∧ d.node.c.dirtyExec = true

theorem spoiled_dialogueNext {d d' : Dialogue σ} {a : DialogueAct σ} (hd : Spoiled d)
    (hok : RefusedAloud P d a) (h : dialogueNext P d a = some d') : Spoiled d' := by
  cases a with
  | meanwhile server moments world dirtyCas =>
    cases h
    exact hd
  | command argv =>
    cases h
    intro hfailed
    dsimp only at hfailed ⊢
    rw [Bool.and_eq_true] at hfailed
    obtain ⟨hopen, hfailed⟩ := hfailed
    refine ⟨hopen, ?_⟩
    cases hmulti : d.node.c.multi with
    | false =>
      -- nothing has failed yet, and this command begins the transaction
      have hnone : d.failed = false := by
        by_contra hne
        have hfailed' : d.failed = true := by simpa using hne
        rw [(hd hfailed').1] at hmulti
        cases hmulti
      have hno : (d.node.withArgv argv).c.multi = false := hmulti
      rw [hnone, hno] at hfailed
      cases hfailed
    | true =>
      have haloud : ∀ cmd, lookupCommand P (argv.headD []) = some cmd →
          NoQuietRefusal d.node.server d.node.moment (d.node.withArgv argv).c cmd argv := by
        intro cmd hlook
        obtain ⟨h₁, h₂, h₃, h₄, h₅, h₆⟩ := hok hmulti cmd hlook
        exact ⟨h₁, h₂, h₃, h₄, h₅, h₆⟩
      rcases processCommand_spoils (P := P) (n := d.node.withArgv argv) hmulti haloud with
        hover | ⟨-, hflag⟩
      · rw [hover] at hopen
        cases hopen
      · apply hflag
        rw [Bool.or_eq_true] at hfailed ⊢
        rcases hfailed with hold | hnew
        · exact .inl (hd hold).2
        · rw [Bool.and_eq_true] at hnew
          exact .inr hnew.2

/-! ## The end of a transaction -/

/-- A spoiled transaction is given up. -/
theorem execTransaction_of_dirtyExec {n : Node σ} (h : n.c.dirtyExec = true) :
    (execTransaction P n).world = n.world ∧ (execTransaction P n).c.db = n.c.db := by
  unfold execTransaction
  rw [if_pos (.inr h)]
  exact ⟨rfl, rfl⟩

theorem exec_runs_nothing {n : Node σ} {cmd : Command}
    (hlook : lookupCommand P (n.c.input.argv.headD []) = some cmd)
    (hexec : cmd.proc = .execCommand ∨ cmd.proc = .crdtExecCommand)
    (hdirty : n.c.dirtyExec = true) :
    (processCommand P n).1.world = n.world ∧ (processCommand P n).1.c.db = n.c.db := by
  have hrefused : ∀ r, (afterRefusal n.c (some cmd) r).db = n.c.db := by
    intro r
    unfold afterRefusal
    split
    · rfl
    · split
      · unfold flagTransaction
        split <;> rfl
      · rfl
  have hruns : runsInMulti cmd = true := by
    unfold runsInMulti
    rcases hexec with h | h <;> rw [h]
  have hcall : (call P n cmd n.c.input.argv).world = n.world ∧
      (call P n cmd n.c.input.argv).c.db = n.c.db := by
    unfold call
    rcases hexec with h | h
    · rw [h]
      show (execCommand P n).world = _ ∧ (execCommand P n).c.db = _
      unfold execCommand
      split
      · exact ⟨rfl, rfl⟩
      · exact execTransaction_of_dirtyExec hdirty
    · rw [h]
      show (crdtExecCommand P n _).world = _ ∧ (crdtExecCommand P n _).c.db = _
      unfold crdtExecCommand
      split
      · exact ⟨rfl, rfl⟩
      split
      · exact ⟨rfl, rfl⟩
      · exact execTransaction_of_dirtyExec (n := { n with c := { n.c with gid := _ } }) hdirty
  unfold processCommand
  dsimp only
  split
  · exact ⟨rfl, rfl⟩
  · simp only [hlook]
    cases closedGate n.server n.moment n.c cmd n.c.input.argv with
    | some r => exact ⟨rfl, hrefused r⟩
    | none =>
      simp only [hruns, not_true_eq_false, and_false, if_false]
      exact hcall

/-- In every run whose commands are refused aloud, an `EXEC` after a refused command of
its transaction runs none of the queued commands. -/
theorem refused_transaction_runs_nothing {d : Dialogue σ}
    (h : (dialogue P).Reachable (RefusedAloud P) d) (hfailed : d.failed = true)
    {argv : Argv} {cmd : Command} (hlook : lookupCommand P (argv.headD []) = some cmd)
    (hexec : cmd.proc = .execCommand ∨ cmd.proc = .crdtExecCommand) {d' : Dialogue σ}
    (hnext : (dialogue P).next d (.command argv) = some d') :
    d'.node.world = d.node.world ∧ d'.node.c.db = d.node.c.db := by
  have hspoiled : Spoiled d := by
    refine h.invariant (fun t ht hfailed => ?_) (fun t a t' ht hok hstep =>
      spoiled_dialogueNext ht hok hstep)
    rw [ht.2] at hfailed
    cases hfailed
  cases hnext
  exact exec_runs_nothing (n := d.node.withArgv argv) hlook hexec (hspoiled hfailed).2

/-- A module with `SET`, on data that count the commands that were run. -/
def countingModule : Procs Nat where
  moduleCommands := [tableEntry "set" .other 3 "wm"]
  run := fun w db _ => (w + 1, db, none)

/-- An ordinary client of a healthy master. -/
def clientDialogue : Dialogue Nat where
  node :=
    { connectedNode with
      world := 0
      c := { peerClient (-1) 0 with isCrdtMaster := false } }
  failed := false

/-- The dialogue after one command. -/
def saying (d : Dialogue Nat) (argv : Argv) : Dialogue Nat :=
  ((dialogueNext countingModule d (.command argv)).getD d)

theorem saying_step {ok : Dialogue Nat → DialogueAct Nat → Prop} {d : Dialogue Nat}
    (argv : Argv) (h : (dialogue countingModule).Reachable ok d)
    (hok : ok d (.command argv)) : (dialogue countingModule).Reachable ok (saying d argv) :=
  .step h hok rfl

/-- `MULTI`, `SET k`, `EXEC`: the second command has too few arguments. -/
theorem refused_transaction_wrong_arity : ∃ d d', d.failed = true ∧
      (dialogue countingModule).next d (.command [ascii "EXEC"]) = some d' ∧
      d'.node.world = d.node.world ∧ d'.node.c.db = d.node.c.db := by
  have hmulti : (dialogue countingModule).Reachable (RefusedAloud countingModule)
      (saying clientDialogue [ascii "MULTI"]) :=
    saying_step _ (.init ⟨rfl, rfl⟩) fun h => by cases h
  have hserver : (saying clientDialogue [ascii "MULTI"]).node.server = healthyServer := rfl
  have hset : (saying (saying clientDialogue [ascii "MULTI"]) [ascii "SET", ascii "k"]).failed =
      true := by decide +kernel
  have hlook : ∀ cmd, lookupCommand countingModule (ascii "SET") = some cmd →
      cmd = tableEntry "set" .other 3 "wm" := by
    intro cmd hcmd
    have hset : lookupCommand countingModule (ascii "SET") =
        some (tableEntry "set" .other 3 "wm") := by decide +kernel
    rw [hset] at hcmd
    exact (Option.some.inj hcmd).symm
  have hrefused := saying_step [ascii "SET", ascii "k"] hmulti <| by
    intro _ cmd hcmd
    obtain rfl := hlook cmd hcmd
    rw [hserver]
    refine ⟨fun _ => .inl rfl, fun h => ?_, fun h => ?_, by decide, by decide, fun h => ?_⟩
    · cases h
    · rcases h with h | h <;> cases h
    · cases h
  have hexec : lookupCommand countingModule ([ascii "EXEC"].headD []) =
      some (tableEntry "exec" .execCommand 1 "sM") := by decide +kernel
  have hnext : ∀ d, (dialogue countingModule).next d (.command [ascii "EXEC"]) =
      some (saying d [ascii "EXEC"]) := fun _ => rfl
  exact ⟨_, _, hset, hnext _,
    refused_transaction_runs_nothing hrefused hset hexec (.inl rfl) (hnext _)⟩

/-- `MULTI`, `SET k v`, then `SET k v` while data are loaded, and `EXEC` after that: the
second `SET` was answered with an error, and the first is run. -/
theorem transaction_runs_after_loading_error : ¬ ∀ (σ : Type) (P : Procs σ) (d : Dialogue σ),
      (dialogue P).Reachable Lib.System.anyStep d → d.failed = true →
      ∀ argv cmd, lookupCommand P (argv.headD []) = some cmd →
        cmd.proc = .execCommand ∨ cmd.proc = .crdtExecCommand →
        ∀ d', (dialogue P).next d (.command argv) = some d' →
          d'.node.world = d.node.world ∧ d'.node.c.db = d.node.c.db := by
  intro h
  let set : DialogueAct Nat := .command [ascii "SET", ascii "k", ascii "v"]
  let loading (b : Bool) : DialogueAct Nat :=
    .meanwhile healthyServer (fun k => { healthyMoments k with loading := b }) 0 false
  have hrun : (((dialogue countingModule).run clientDialogue
      [.command [ascii "MULTI"], set, loading true, set, loading false]).any fun d =>
      d.failed && d.node.world == 0 && (saying d [ascii "EXEC"]).node.world == 1) = true := by
    decide +kernel
  obtain ⟨d, hd, hshape⟩ := (Option.any_eq_true _ _).1 hrun
  rw [Bool.and_eq_true, Bool.and_eq_true, beq_iff_eq, beq_iff_eq] at hshape
  obtain ⟨⟨hfailed, hbefore⟩, hafter⟩ := hshape
  have hinit : (dialogue countingModule).init clientDialogue := ⟨rfl, rfl⟩
  have hreach := Lib.System.reachable_of_run (.init hinit) hd
  have hexec : lookupCommand countingModule (ascii "EXEC") =
      some (tableEntry "exec" .execCommand 1 "sM") := by decide +kernel
  have hsame := (h Nat countingModule d hreach hfailed [ascii "EXEC"] _ hexec (.inl rfl)
    (saying d [ascii "EXEC"]) rfl).1
  rw [hafter, hbefore] at hsame
  cases hsame

end XredisCrdt.Net
