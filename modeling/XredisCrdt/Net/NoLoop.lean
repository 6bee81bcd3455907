import XredisCrdt.Net.Sites

/-!
# No replication loop

The histories of the own slaves consist of whole units: single commands, and blocks from
`MULTI` to `EXEC` in which either every command carries the own gid or none would give it
to the client that executes the block (`Whole`). Every step appends whole units, and a
reader that starts at the end of a unit finds whole units; so what a slave copies into its
peer history carries the own gid. What a master reads from a peer carries the gid of the
peer, and leaves its histories as they are until it is passed on.
-/

namespace XredisCrdt.Sites

open Txn Function List Option

variable (C : Commands)

/-! ## Units -/

/-- A command that belongs into the peer history of the site. -/
def Own (own : Int) (argv : Argv) : Prop :=
  carriedGid C argv = some own ∧ procOf argv ≠ .merge

/-- The gid that a client has after the command, if the command gives it one. -/
def givenGid (argv : Argv) : Option Int :=
  match procOf argv with
  | .crdtExec => Net.execGid argv
  | .other => C.gidOf argv
  | _ => none

/-- A block is either our own or gives nobody our gid. -/
def UnitOk (own : Int) (block : List Argv) : Prop :=
  (∀ argv ∈ block, Own C own argv) ∨ ∀ argv ∈ block, givenGid C argv ≠ some own

/-- The commands are whole units; with `some block` the first one has begun. -/
def Whole (own : Int) : Option (List Argv) → List Argv → Prop
  | none, [] => True
  | some _, [] => False
  | none, argv :: l => if procOf argv = .multi then Whole own (some [argv]) l else Whole own none l
  | some block, argv :: l =>
    if closes argv then UnitOk C own (block ++ [argv]) ∧ Whole own none l
    else Whole own (some (block ++ [argv])) l

variable {C} {own : Int}

variable {applied : List Nat} {argv : Argv} {fate : Fate} {gid : Int}
  {l src : List Argv} {p : PeerLink} {queue : Option (List PlainArgv)} {s : Streams}

theorem own_of_givenGid (h : givenGid C argv = some own) : Own C own argv := by
  unfold givenGid at h
  unfold Own carriedGid
  cases hp : procOf argv <;> rw [hp] at h <;> simp_all

theorem not_closes_of_plain (h : (procOf argv).plain = true) : closes argv = false := by
  unfold closes
  cases hp : procOf argv <;> simp_all [Proc.plain]

theorem Whole.append {st : Option (List Argv)} {l' : List Argv}
    (h : Whole C own st l) (h' : Whole C own none l') : Whole C own st (l ++ l') := by
  induction l generalizing st with
  | nil =>
    cases st with
    | none => exact h'
    | some block => exact h.elim
  | cons argv l ih =>
    cases st with
    | none =>
      simp only [cons_append, Whole] at h ⊢
      split at h
      · next hm => rw [if_pos hm]; exact ih h
      · next hm => rw [if_neg hm]; exact ih h
    | some block =>
      simp only [cons_append, Whole] at h ⊢
      split at h
      · next hc => rw [if_pos hc]; exact ⟨h.1, ih h.2⟩
      · next hc => rw [if_neg hc]; exact ih h

/-- Commands that open no transaction are units by themselves. -/
theorem whole_singles (h : ∀ argv ∈ l, procOf argv ≠ .multi) : Whole C own none l := by
  induction l with
  | nil => trivial
  | cons argv l ih =>
    rw [Whole, if_neg (h argv (by simp))]
    exact ih fun a ha => h a (by simp [ha])

theorem Whole.inside {block : List Argv} {last : Argv}
    (hl : ∀ argv ∈ l, closes argv = false) (hlast : closes last = true)
    (hunit : UnitOk C own (block ++ l ++ [last])) : Whole C own (some block) (l ++ [last]) := by
  induction l generalizing block with
  | nil =>
    rw [nil_append, Whole, if_pos hlast]
    exact ⟨by simpa using hunit, trivial⟩
  | cons argv l ih =>
    rw [cons_append, Whole, if_neg (by simp [hl argv (by simp)])]
    exact ih (fun a ha => hl a (by simp [ha])) (by simpa using hunit)

/-- A block that is all our own. -/
theorem whole_block {first last : Argv} (hfirst : procOf first = .multi)
    (hlast : closes last = true) (hl : ∀ argv ∈ l, (procOf argv).plain = true)
    (hown : ∀ argv ∈ first :: l ++ [last], Own C own argv) :
    Whole C own none (first :: l ++ [last]) := by
  rw [cons_append, Whole, if_pos hfirst]
  exact Whole.inside (fun a ha => not_closes_of_plain (hl a ha)) hlast (.inl (by simpa using hown))

/-- What is left of whole units after some commands, in the state they have led to. -/
theorem Whole.drop {st : Option (List Argv)} {l' : List Argv}
    (h : Whole C own st (l ++ l')) :
    ∃ st', st'.isSome = l.foldl opensAfter st.isSome ∧ Whole C own st' l' := by
  induction l generalizing st with
  | nil => exact ⟨st, rfl, h⟩
  | cons argv l ih =>
    cases st with
    | none =>
      rw [cons_append, Whole] at h
      split at h
      · next hm => simpa [opensAfter, hm] using ih h
      · next hm =>
        have hno : (procOf argv == .multi) = false := by simpa using hm
        simpa [opensAfter, hno] using ih h
    | some block =>
      rw [cons_append, Whole] at h
      split at h
      · next hc => simpa [opensAfter, hc] using ih h.2
      · next hc => simpa [opensAfter, hc] using ih h

theorem Whole.of_endsUnit {history : List Argv} {pos : Nat}
    (h : Whole C own none history) (hpos : endsUnit history pos = true) :
    pos ≤ history.length ∧ Whole C own none (history.drop pos) := by
  simp only [endsUnit, decide_eq_true_eq] at hpos
  refine ⟨hpos.1, ?_⟩
  rw [← take_append_drop pos history] at h
  obtain ⟨st, hst, hrest⟩ := h.drop
  rw [isSome_none, hpos.2] at hst
  rwa [isSome_eq_false_iff.1 hst |> isNone_iff_eq_none.1] at hrest

/-! ## What steps append -/

/-- The streams have grown by whole units and by own commands. -/
structure Grown (C : Commands) (own : Int) (s s' : Streams) : Prop where
  fromPeer : s'.role.fromPeer = s.role.fromPeer
  toSlaves : ∃ l, s'.own = s.own ++ l ∧ Whole C own none l
  toPeers : ∃ l, s'.peer = s.peer ++ l ∧ ∀ argv ∈ l, Own C own argv

namespace Grown

variable {s s' s'' : Streams}

theorem refl (s : Streams) : Grown C own s s :=
  ⟨rfl, ⟨[], by simp, trivial⟩, ⟨[], by simp, fun _ h => by cases h⟩⟩

theorem trans (h : Grown C own s s') (h' : Grown C own s' s'') : Grown C own s s'' := by
  obtain ⟨lo, hlo, hwhole⟩ := h.toSlaves
  obtain ⟨lp, hlp, hown⟩ := h.toPeers
  obtain ⟨lo', hlo', hwhole'⟩ := h'.toSlaves
  obtain ⟨lp', hlp', hown'⟩ := h'.toPeers
  refine ⟨h'.fromPeer.trans h.fromPeer, ⟨lo ++ lo', ?_, hwhole.append hwhole'⟩,
    ⟨lp ++ lp', ?_, forall_mem_append.2 ⟨hown, hown'⟩⟩⟩
  · rw [hlo', hlo, append_assoc]
  · rw [hlp', hlp, append_assoc]

/-- From what is added to each history. -/
theorem of_get {lo lp : List Argv} (hrole : s'.role.fromPeer = s.role.fromPeer)
    (hown : s'.get .own = s.get .own ++ lo) (hpeer : s'.get .peer = s.get .peer ++ lp)
    (hlo : Whole C own none lo) (hlp : ∀ argv ∈ lp, Own C own argv) : Grown C own s s' :=
  ⟨hrole, ⟨lo, hown, hlo⟩, ⟨lp, hpeer, hlp⟩⟩

/-- A single effect, about a command that opens nothing and is our own if it can reach
the peers. -/
theorem effect {e : Effect} (hrole : ∀ r : Role, (e.role r).fromPeer = r.fromPeer)
    (hmulti : ∀ argv ∈ e.argv, procOf argv ≠ .multi)
    (hpeer : ∀ argv ∈ e.argvFor .peer, Own C own argv) (s : Streams) : Grown C own s (e.run s) := by
  obtain ⟨lo, hlo, hargv, -⟩ := effect_get e s .own
  obtain ⟨lp, hlp, hargv', -⟩ := effect_get e s .peer
  refine of_get ?_ hlo hlp (whole_singles fun a ha => hmulti a (hargv a ha))
    fun a ha => hpeer a (hargv' a ha)
  rw [(grows_effect e).role]
  exact hrole _

theorem effects {effects : List Effect}
    (hrole : ∀ e ∈ effects, ∀ r : Role, (e.role r).fromPeer = r.fromPeer)
    (hmulti : ∀ e ∈ effects, ∀ argv ∈ e.argv, procOf argv ≠ .multi)
    (hpeer : ∀ e ∈ effects, ∀ argv ∈ e.argvFor .peer, Own C own argv) (s : Streams) :
    Grown C own s (effects.foldl Effect.run s) := by
  refine foldlRecOn (motive := Grown C own s) effects Effect.run (refl s) fun s' h e he => ?_
  exact h.trans (effect (hrole e he) (hmulti e he) (hpeer e he) s')

end Grown

theorem procOf_ne_multi_of_plain (h : (procOf argv).plain = true) : procOf argv ≠ .multi := by
  intro hm
  rw [hm] at h
  cases h

theorem given_of_verbatim (h : verbatimGid C argv = some gid) : givenGid C argv = some gid := by
  unfold verbatimGid at h
  split at h
  · next hp => rw [givenGid, hp]; exact h
  · cases h

/-- What a command from elsewhere gets to the peers is our own. -/
theorem own_of_replicated {e : Effect} (he : e ∈ replicated C own argv) {a : Argv}
    (ha : a ∈ e.argvFor .peer) : a = argv ∧ Own C own argv := by
  unfold replicated at he
  split at he
  · next gid hgid =>
    obtain rfl := mem_singleton.1 he
    by_cases hown : gid = own
    · subst hown
      rw [if_pos rfl] at ha
      exact ⟨(some.inj ha).symm, own_of_givenGid (given_of_verbatim hgid)⟩
    · rw [if_neg hown] at ha
      cases ha
  · split at he
    · obtain rfl := mem_singleton.1 he
      cases ha
    · cases he

theorem role_of_replicated {e : Effect} (he : e ∈ replicated C own argv) (r : Role) :
    e.role r = r := by
  obtain ⟨target, rfl⟩ := argv_of_replicated C he
  rfl

/-- A command from elsewhere, executed alone. -/
theorem grown_queued (argv : PlainArgv) (s : Streams) :
    Grown C own s (callQueued s (queued C own argv)) := by
  refine Grown.effects (fun e he r => ?_) (fun e he a ha => ?_) (fun e he a ha => ?_) s
  · rw [role_of_replicated he]
  · obtain ⟨target, rfl⟩ := argv_of_replicated C he
    obtain rfl : argv.1 = a := some.inj ha
    exact procOf_ne_multi_of_plain argv.2
  · obtain ⟨rfl, hown⟩ := own_of_replicated he ha
    exact hown

theorem own_of_ownGid {out : List PlainArgv} (h : ownGid C own out = true) {argv : PlainArgv}
    (hmem : argv ∈ out) : Own C own argv.1 := by
  have hargv := all_eq_true.1 h argv hmem
  simp only [decide_eq_true_eq] at hargv
  exact own_of_givenGid (by rw [givenGid, hargv.1]; exact hargv.2)

/-- What a local command replicates, without brackets. -/
theorem grown_replicates {out : List PlainArgv} (h : ownGid C own out = true) (wrapped : Bool)
    (s : Streams) : Grown C own s ((replicates out wrapped).foldl Effect.run s) := by
  refine Grown.effects (fun e he r => ?_) (fun e he a ha => ?_) (fun e he a ha => ?_) s
  all_goals obtain ⟨argv, hmem, rfl⟩ := mem_map.1 he
  · rfl
  · obtain rfl : argv.1 = a := some.inj ha
    exact procOf_ne_multi_of_plain argv.2
  · obtain rfl : argv.1 = a := some.inj ha
    exact own_of_ownGid h hmem

/-- A command of the node itself that goes to all slaves. -/
theorem grown_feedAll (hmulti : procOf argv ≠ .multi) (hown : Own C own argv) (s : Streams) :
    Grown C own s (replicationFeedAllSlaves s argv) :=
  Grown.effect (e := .feedAllSlaves argv) (fun _ => rfl)
    (fun a ha => by obtain rfl := some.inj ha; exact hmulti)
    (fun a ha => by obtain rfl := some.inj ha; exact hown) s

theorem feedServer_foldl (l : List Argv) (s : Streams) :
    l.foldl feedServer s =
      { s with own := if s.role.serverBacklog then s.own ++ l else s.own } := by
  induction l generalizing s with
  | nil => cases h : s.role.serverBacklog <;> simp
  | cons argv l ih =>
    rw [foldl_cons, ih]
    cases h : s.role.serverBacklog <;> simp [feedServer, h]

theorem feedCrdtServer_foldl (l : List Argv) (s : Streams) : l.foldl feedCrdtServer s =
      { s with peer := if s.role.crdtBacklog then s.peer ++ l else s.peer } := by
  induction l generalizing s with
  | nil => cases h : s.role.crdtBacklog <;> simp
  | cons argv l ih =>
    rw [foldl_cons, ih]
    cases h : s.role.crdtBacklog <;> simp [feedCrdtServer, h]

/-- Whole units that are passed on as they are. -/
theorem grown_feedMasterStream (h : Whole C own none l) (s : Streams) :
    Grown C own s (feedMasterStream s l) := by
  rw [feedMasterStream, feedServer_foldl]
  refine ⟨rfl, ?_, ⟨[], by simp, fun _ h => by cases h⟩⟩
  cases s.role.serverBacklog with
  | true => exact ⟨l, rfl, h⟩
  | false => exact ⟨[], by simp, trivial⟩

/-- Own commands that a slave copies. -/
theorem grown_feedCrdtServer (h : ∀ argv ∈ l, Own C own argv) (s : Streams) :
    Grown C own s (l.foldl feedCrdtServer s) := by
  rw [feedCrdtServer_foldl]
  refine ⟨rfl, ⟨[], by simp, trivial⟩, ?_⟩
  cases s.role.crdtBacklog with
  | true => exact ⟨l, rfl, h⟩
  | false => exact ⟨[], by simp, fun _ h => by cases h⟩

/-! ## Transactions -/

theorem procOf_multiArgv (gid : Int) : procOf (multiArgv gid) = .multi := by
  show procNamed (ascii "CRDT.MULTI") = .multi
  decide

theorem procOf_execArgv (gid : Int) : procOf (execArgv gid) = .crdtExec := by
  show procNamed (ascii "CRDT.EXEC") = .crdtExec
  decide

theorem own_multiArgv (h : Net.checkGid own = true) : Own C own (multiArgv own) := by
  refine ⟨?_, by simp [procOf_multiArgv]⟩
  rw [carriedGid, procOf_multiArgv]
  exact Net.string2gid_ll2string h

theorem own_execArgv (h : Net.checkGid own = true) : Own C own (execArgv own) := by
  refine ⟨?_, by simp [procOf_execArgv]⟩
  rw [carriedGid, procOf_execArgv]
  exact Net.execGid_execArgv h

theorem closes_execArgv (h : Net.checkGid own = true) : closes (execArgv own) = true := by
  simp [closes, procOf_execArgv, Net.execGid_execArgv h]

theorem mem_early {queue : List Queued} {q : Queued} (h : q ∈ early queue) : q ∈ queue :=
  (takeWhile_sublist _).subset h

theorem mem_late {queue : List Queued} {q : Queued} (h : q ∈ late queue) : q ∈ queue :=
  (dropWhile_sublist _).subset h

/-- A transaction whose commands keep the role. If it gets its brackets recorded, which
only a master does, then they and all that is recorded between them are our own. -/
theorem grown_runTransaction {opens : Bool} {queue : List Queued}
    (hsteady : ∀ q ∈ queue, ∀ r : Role, r.after q = r)
    (hplain : ∀ q ∈ queue, ∀ e ∈ q.effects, ∀ a ∈ e.argv, (procOf a).plain = true)
    (hpeer : ∀ q ∈ queue, ∀ e ∈ q.effects, ∀ a ∈ e.argvFor .peer, Own C own a)
    (hopens : opens = true → s.role.iAmMaster = true → Net.checkGid own = true ∧ gid = own ∧
      ∀ q ∈ queue, ∀ e ∈ q.effects, ∀ a ∈ e.argv, Own C own a) :
    Grown C own s (runTransaction opens gid s queue) := by
  have hstays : ∀ q ∈ queue, s.role.after q = s.role := fun q hq => hsteady q hq s.role
  obtain ⟨hrole, hend⟩ := roleEnd_of_steady hstays
  have hadds := runTransaction_get opens gid s.role queue
  simp only [closedDemoted_of_steady hstays, hrole] at hadds
  refine Grown.of_get (by rw [runTransaction_role hsteady])
    (runTransaction_append opens gid s queue .own) (runTransaction_append opens gid s queue .peer)
    ?_ ?_
  · rw [hadds]
    have hearly : ∀ a ∈ recorded s.role (early queue) .own, procOf a ≠ .multi :=
      forall_recorded s.role fun q hq e he a ha =>
        procOf_ne_multi_of_plain (hplain q (mem_early hq) e he a ha)
    have hlate : ∀ a ∈ recorded s.role (late queue) .own, (procOf a).plain = true :=
      forall_recorded s.role fun q hq e he a ha => hplain q (mem_late hq) e he a ha
    cases hopen : opened opens s.role queue .own with
    | true =>
      -- a master has opened the block, and closes it
      simp only [opened, hrole, reaches, Bool.and_eq_true] at hopen
      obtain ⟨⟨hopensTrue, hwrite⟩, hreach⟩ := hopen
      have hmaster : s.role.iAmMaster = true := by
        cases hm : s.role.iAmMaster with
        | true => rfl
        | false => simp [hm] at hreach
      obtain ⟨hgid, rfl, hown⟩ := hopens hopensTrue hmaster
      have hclosed : closed opens s.role queue .own = true := by
        have hbacklog : s.role.serverBacklog = true := by simpa [hmaster] using hreach
        simp [closed, hend, reaches, hopensTrue, hwrite, hmaster, hbacklog]
      have hlateOwn : ∀ a ∈ recorded s.role (late queue) .own, Own C gid a :=
        forall_recorded s.role fun q hq e he a ha => hown q (mem_late hq) e he a ha
      have hall : ∀ a ∈ multiArgv gid :: recorded s.role (late queue) .own ++ [execArgv gid],
          Own C gid a := by
        intro a ha
        simp only [cons_append, mem_cons, mem_append, not_mem_nil, or_false] at ha
        obtain rfl | ha | rfl := ha
        · exact own_multiArgv hgid
        · exact hlateOwn a ha
        · exact own_execArgv hgid
      have hblock := whole_block (procOf_multiArgv gid) (closes_execArgv hgid) hlate hall
      simp only [hclosed, only, if_true, Bool.false_eq_true, if_false, append_nil, append_assoc]
      exact (whole_singles hearly).append (by simpa using hblock)
    | false =>
      refine whole_singles fun a ha => ?_
      simp only [mem_append, mem_only, Bool.false_eq_true, false_and, or_false] at ha
      obtain (ha | ha) | ⟨-, rfl⟩ := ha
      · exact hearly a ha
      · exact procOf_ne_multi_of_plain (hlate a ha)
      · simp [procOf_execArgv]
  · rw [hadds]
    -- the brackets reach the peers only from a master that opens the block
    have hbracket : ∀ target : Target, target.crdtRepl = (opens && isWrite queue) →
        reaches target s.role .peer = true → Net.checkGid own = true ∧ gid = own := by
      intro target htarget hreach
      simp only [reaches, htarget, Bool.and_eq_true] at hreach
      obtain ⟨hgid, rfl, -⟩ := hopens hreach.1.1.1 hreach.1.2
      exact ⟨hgid, rfl⟩
    intro a ha
    simp only [mem_append, mem_only, Bool.false_eq_true, false_and, or_false] at ha
    obtain ((ha | ⟨hopen, rfl⟩) | ha) | ⟨hclosed, rfl⟩ := ha
    · exact forall_recorded s.role (fun q hq => hpeer q (mem_early hq)) a ha
    · simp only [opened, hrole, Bool.and_eq_true] at hopen
      obtain ⟨hgid, rfl⟩ := hbracket ⟨true, false⟩ (by simp [hopen.1]) hopen.2
      exact own_multiArgv hgid
    · exact forall_recorded s.role (fun q hq => hpeer q (mem_late hq)) a ha
    · rw [closed, hend] at hclosed
      obtain ⟨hgid, rfl⟩ := hbracket _ rfl hclosed
      exact own_execArgv hgid

/-! ## Taking a command from a link -/

/-- What can become of a command of a link. -/
inductive TakeCase (C : Commands) (own : Int) (s : Streams) :
    Option (List PlainArgv) → Argv → Taken → Prop
  | ignored (queue : Option (List PlainArgv)) (argv : Argv) :
    TakeCase C own s queue argv ⟨queue, none, s⟩
  | opened {argv : Argv} (h : procOf argv = .multi) :
    TakeCase C own s none argv ⟨some [], none, s⟩
  | called (argv : PlainArgv) :
    TakeCase C own s none argv.1 ⟨none, verbatimGid C argv.1, callQueued s (queued C own argv)⟩
  | queued (q : List PlainArgv) (argv : PlainArgv) :
    TakeCase C own s (some q) argv.1 ⟨some (q ++ [argv]), none, s⟩
  | aborted (q : List PlainArgv) (argv : Argv) :
    TakeCase C own s (some q) argv ⟨none, none, s⟩
  | exec (q : List PlainArgv) {argv : Argv} (h : procOf argv = .exec) :
    TakeCase C own s (some q) argv ⟨none, q.findSome? fun a => verbatimGid C a.1,
      execCommand own s (q.map (Sites.queued C own))⟩
  | crdtExec (q : List PlainArgv) {argv : Argv} {gid : Int} (b : Bool)
    (h : procOf argv = .crdtExec) (hgid : Net.execGid argv = some gid) :
    TakeCase C own s (some q) argv ⟨none, some gid,
      if b then s else crdtExecCommand gid s (q.map (Sites.queued C own))⟩

theorem takeCommand_case (C : Commands) (own : Int) (fate : Fate) (s : Streams)
    (queue : Option (List PlainArgv)) (argv : Argv) :
    TakeCase C own s queue argv (takeCommand C own fate s queue argv) := by
  unfold takeCommand
  split
  · exact .ignored queue argv
  · split
    · next h =>
      cases queue with
      | none => exact .called ⟨argv, h⟩
      | some q => exact .queued q ⟨argv, h⟩
    · split
      · next h => exact .opened h
      · next q h =>
        split
        · exact .aborted q argv
        · exact .exec q h
      · next q h =>
        split
        · exact .ignored (some q) argv
        · next gid hgid =>
          have hcase : TakeCase C own s (some q) argv ⟨none, some gid,
              if decide (fate = .aborted) = true then s
              else crdtExecCommand gid s (q.map (Sites.queued C own))⟩ := .crdtExec q _ h hgid
          simpa only [decide_eq_true_eq] using hcase
      · exact .ignored _ argv

theorem opensAfter_of_plain (h : (procOf argv).plain = true) (b : Bool) :
    opensAfter b argv = b := by
  have hmulti : (procOf argv == .multi) = false := by simpa using procOf_ne_multi_of_plain h
  cases b <;> simp [opensAfter, not_closes_of_plain h, hmulti]

/-- The queue follows the brackets. -/
theorem takeCommand_isSome (h : fate.keepsBrackets argv = true) (s : Streams)
    (queue : Option (List PlainArgv)) :
    (takeCommand C own fate s queue argv).queue.isSome = opensAfter queue.isSome argv := by
  simp only [Fate.keepsBrackets, decide_eq_true_eq] at h
  unfold takeCommand
  split
  · next hrefused => rw [opensAfter_of_plain (h.resolve_left fun hne => hne hrefused)]
  · split
    · next hplain =>
      rw [opensAfter_of_plain hplain]
      cases queue <;> rfl
    · next hplain =>
      -- MULTI, EXEC or CRDT.EXEC, inside a transaction or not
      cases queue with
      | none => cases hp : procOf argv <;> simp_all [opensAfter, Proc.plain]
      | some q =>
        cases hp : procOf argv with
        | exec => cases hf : fate <;> simp_all [opensAfter, closes]
        | crdtExec => cases hg : Net.execGid argv <;> simp [opensAfter, closes, hp, hg]
        | multi => simp [opensAfter, closes, hp]
        | evictionTombstone | merge | other => simp [hp, Proc.plain] at hplain

/-- The gid that the client gets is that of the command or of a queued one. -/
theorem takeCommand_gid (h : (takeCommand C own fate s queue argv).gid = some gid) :
    (takeCommand C own fate s queue argv).queue = none ∧ (givenGid C argv = some gid ∨
        ∃ q, queue = some q ∧ ∃ a ∈ q, givenGid C a.1 = some gid) := by
  have hcase := takeCommand_case C own fate s queue argv
  generalize takeCommand C own fate s queue argv = t at h hcase
  cases hcase with
  | ignored | opened | queued | aborted => cases h
  | called argv => exact ⟨rfl, .inl (given_of_verbatim h)⟩
  | exec q hp =>
    obtain ⟨a, ha, hgid⟩ := exists_of_findSome?_eq_some h
    exact ⟨rfl, .inr ⟨q, rfl, a, ha, given_of_verbatim hgid⟩⟩
  | crdtExec q b hp hgid =>
    obtain rfl := some.inj h
    exact ⟨rfl, .inl (by rw [givenGid, hp]; exact hgid)⟩

/-- What is queued was queued before, or is the command. -/
theorem takeCommand_queue {q : List PlainArgv}
    (h : (takeCommand C own fate s queue argv).queue = some q) {a : PlainArgv} (ha : a ∈ q) :
    a.1 = argv ∨ ∃ q', queue = some q' ∧ a ∈ q' := by
  have hcase := takeCommand_case C own fate s queue argv
  generalize takeCommand C own fate s queue argv = t at h hcase
  cases hcase with
  | ignored => exact .inr ⟨q, h, ha⟩
  | opened =>
    obtain rfl := some.inj h
    cases ha
  | called | aborted | exec | crdtExec => cases h
  | queued q' argv =>
    obtain rfl := some.inj h
    obtain ha | ha := mem_append.1 ha
    · exact .inr ⟨q', rfl, ha⟩
    · rw [mem_singleton.1 ha]
      exact .inl rfl

/-! ### Transactions of clients and links -/

section Submitted

variable {queue : List Submitted} {a : Argv} {x : Submitted} {e : Effect}

theorem after_of_steady (h : x.steady = true) (r : Role) : r.after (x.queued C own) = r := by
  refine foldlRecOn (motive := (· = r)) _ Effect.role rfl fun r' hr e he => ?_
  rw [hr]
  cases x with
  | slaveof role => cases h
  | command argv => exact role_of_replicated he r
  | write out wrapped =>
    obtain ⟨argv, -, rfl⟩ := mem_map.1 he
    rfl

theorem steady_of_ownOnly (h : x.ownOnly C own = true) : x.steady = true := by
  cases x with
  | slaveof role => cases h
  | write out wrapped => rfl
  | command argv => rfl

theorem plain_submitted (he : e ∈ (x.queued C own).effects) (ha : a ∈ e.argv) :
    (procOf a).plain = true := by
  cases x with
  | slaveof role =>
    obtain rfl := mem_singleton.1 he
    cases ha
  | command argv =>
    obtain ⟨target, rfl⟩ := argv_of_replicated C he
    obtain rfl : argv.1 = a := some.inj ha
    exact argv.2
  | write out wrapped =>
    obtain ⟨argv, -, rfl⟩ := mem_map.1 he
    obtain rfl : argv.1 = a := some.inj ha
    exact argv.2

theorem own_submitted (hvalid : x.valid C own = true) (he : e ∈ (x.queued C own).effects)
    (ha : a ∈ e.argvFor .peer) : Own C own a := by
  cases x with
  | slaveof role =>
    obtain rfl := mem_singleton.1 he
    cases ha
  | command argv =>
    obtain ⟨rfl, hown⟩ := own_of_replicated he ha
    exact hown
  | write out wrapped =>
    obtain ⟨argv, hmem, rfl⟩ := mem_map.1 he
    obtain rfl : argv.1 = a := some.inj ha
    exact own_of_ownGid hvalid hmem

/-- What a command that may stand in a transaction gets to the slaves is our own. -/
theorem own_of_ownOnly (hvalid : x.valid C own = true) (hown : x.ownOnly C own = true)
    (he : e ∈ (x.queued C own).effects) (ha : a ∈ e.argv) : Own C own a := by
  cases x with
  | slaveof role => cases hown
  | write out wrapped =>
    obtain ⟨argv, hmem, rfl⟩ := mem_map.1 he
    obtain rfl : argv.1 = a := some.inj ha
    exact own_of_ownGid hvalid hmem
  | command argv =>
    obtain ⟨target, rfl⟩ := argv_of_replicated C he
    obtain rfl : argv.1 = a := some.inj ha
    simp only [Submitted.ownOnly, Bool.or_eq_true, beq_iff_eq, List.isEmpty_iff] at hown
    obtain hgid | hnone := hown
    · exact own_of_givenGid (given_of_verbatim hgid)
    · have he' : Effect.propagate target argv.1 ∈ replicated C own argv.1 := he
      rw [hnone] at he'
      cases he'

/-- A transaction that keeps the role; all that a master brackets is our own. -/
theorem grown_submitted {opens : Bool} (hvalid : ∀ x ∈ queue, x.valid C own = true)
    (hsteady : ∀ x ∈ queue, x.steady = true)
    (hopens : opens = true → s.role.iAmMaster = true → Net.checkGid own = true ∧ gid = own ∧
      ∀ x ∈ queue, x.ownOnly C own = true) :
    Grown C own s (runTransaction opens gid s (queue.map (Submitted.queued C own))) := by
  refine grown_runTransaction (fun x hx r => ?_) (fun x hx e he a ha => ?_)
    (fun x hx e he a ha => ?_) fun ho hm => ?_
  rotate_right
  · obtain ⟨hgid, rfl, hown⟩ := hopens ho hm
    refine ⟨hgid, rfl, fun x hx e he a ha => ?_⟩
    obtain ⟨y, hy, rfl⟩ := mem_map.1 hx
    exact own_of_ownOnly (hvalid y hy) (hown y hy) he ha
  all_goals obtain ⟨y, hy, rfl⟩ := mem_map.1 hx
  · exact after_of_steady (hsteady y hy) r
  · exact plain_submitted he ha
  · exact own_submitted (hvalid y hy) he ha

/-- `EXEC` of a client. -/
theorem grown_exec (hgid : Net.checkGid own = true)
    (hvalid : queue.all (Submitted.valid C own) = true)
    (hown : queue.all (Submitted.ownOnly C own) = true) (s : Streams) :
    Grown C own s (execCommand own s (queue.map (Submitted.queued C own))) := by
  rw [List.all_eq_true] at hvalid hown
  exact grown_submitted hvalid (fun x hx => steady_of_ownOnly (hown x hx))
    fun _ _ => ⟨hgid, rfl, hown⟩

/-- `CRDT.EXEC` of a client. -/
theorem grown_crdtExec (hvalid : queue.all (Submitted.valid C own) = true)
    (hsteady : queue.all Submitted.steady = true) (gid : Int) (s : Streams) :
    Grown C own s (crdtExecCommand gid s (queue.map (Submitted.queued C own))) := by
  rw [List.all_eq_true] at hvalid hsteady
  exact grown_submitted hvalid hsteady fun hopens => by cases hopens

end Submitted

/-- On a slave. -/
theorem grown_takeCommand (hslave : s.role.iAmMaster = false) (fate : Fate)
    (queue : Option (List PlainArgv)) (argv : Argv) :
    Grown C own s (takeCommand C own fate s queue argv).streams := by
  have htransaction : ∀ (opens : Bool) (gid : Int) (q : List PlainArgv),
      Grown C own s (runTransaction opens gid s (q.map (queued C own))) := by
    intro opens gid q
    have hq : Grown C own s (runTransaction opens gid s
        ((q.map Submitted.command).map (Submitted.queued C own))) :=
      grown_submitted (forall_mem_map.2 fun _ _ => rfl) (forall_mem_map.2 fun _ _ => rfl)
        fun _ hmaster => by simp [hslave] at hmaster
    rwa [List.map_map] at hq
  have hcase := takeCommand_case C own fate s queue argv
  generalize takeCommand C own fate s queue argv = t at hcase
  cases hcase with
  | ignored | opened | queued | aborted => exact .refl s
  | called argv => exact grown_queued argv s
  | exec q h => exact htransaction true own q
  | crdtExec q b h hgid =>
    cases b with
    | true => exact .refl s
    | false => exact htransaction false _ q

/-! ### Commands of a peer -/

theorem propagate_fromPeer (h : s.role.fromPeer = true) (repl : Bool) (argv : Argv) :
    propagate s ⟨false, repl⟩ argv = s := by
  rw [propagate, if_neg (by simp)]
  split
  · exact if_pos (.inr h)
  · rfl

/-- A command with another gid changes nothing while it comes from a connected peer. -/
theorem callQueued_fromPeer (h : s.role.fromPeer = true) {argv : PlainArgv}
    (hgid : carriedGid C argv.1 = some gid) (hne : gid ≠ own) :
    callQueued s (queued C own argv) = s := by
  have hreplicated :
      ∀ e ∈ replicated C own argv.1, ∃ repl, e = .propagate ⟨false, repl⟩ argv.1 := by
    intro e he
    unfold replicated at he
    split at he
    · next g hg =>
      have hcarried := (own_of_givenGid (given_of_verbatim hg)).1
      obtain rfl : gid = g := some.inj (hgid.symm.trans hcarried)
      rw [if_neg hne] at he
      exact ⟨true, mem_singleton.1 he⟩
    · split at he
      · exact ⟨true, mem_singleton.1 he⟩
      · cases he
  refine foldlRecOn (motive := (· = s)) _ Effect.run rfl fun s' hs e he => ?_
  obtain ⟨repl, rfl⟩ := hreplicated e he
  rw [hs, Effect.run, propagate_fromPeer h]

theorem crdtExecCommand_fromPeer (h : s.role.fromPeer = true) {queue : List Queued}
    (hqueue : ∀ q ∈ queue, callQueued s q = s) :
    crdtExecCommand gid s queue = s := by
  have hloop : ∀ (queue : List Queued) (b : Bool), (∀ q ∈ queue, callQueued s q = s) →
      (execLoop false gid (s, b) queue).1 = s := by
    intro queue
    induction queue with
    | nil => exact fun _ _ => rfl
    | cons q queue ih =>
      intro b hq
      simp only [execLoop, Bool.and_false, Bool.false_eq_true, if_false]
      rw [hq q (by simp)]
      exact ih _ fun q' hq' => hq q' (by simp [hq'])
  have hclose :
      ∀ b : Bool, (if b = true then closeDemoted gid (!s.role.masterhost) s else s) = s := by
    intro b
    unfold closeDemoted
    cases b <;> cases s.role.masterhost <;> simp
  unfold crdtExecCommand runTransaction
  simp only [Bool.false_and]
  rw [hloop queue false hqueue, hclose, propagate_fromPeer h]

/-- On a master, from a peer. -/
theorem takeCommand_fromPeer (h : s.role.fromPeer = true) (fate : Fate) (hne : gid ≠ own)
    (hgid : carriedGid C argv = some gid)
    (hqueue : ∀ q, queue = some q → ∀ a ∈ q, carriedGid C a.1 = some gid) :
    (takeCommand C own fate s queue argv).streams = s := by
  have hcase := takeCommand_case C own fate s queue argv
  generalize takeCommand C own fate s queue argv = t at hcase
  cases hcase with
  | ignored | opened | queued | aborted => rfl
  | called argv => exact callQueued_fromPeer h hgid hne
  | exec q hp =>
    -- EXEC carries no gid
    rw [carriedGid, hp] at hgid
    cases hgid
  | crdtExec q b hp hg =>
    cases b with
    | true => rfl
    | false =>
      refine crdtExecCommand_fromPeer h fun x hx => ?_
      obtain ⟨a, ha, rfl⟩ := mem_map.1 hx
      exact callQueued_fromPeer h (hqueue q rfl a ha) hne

theorem setFromPeer_setFromPeer (h : s.role.fromPeer = false) :
    setFromPeer false (setFromPeer true s) = s := by
  obtain ⟨r, o, p⟩ := s
  obtain ⟨a, b, c, d, e, f, g⟩ := r
  obtain rfl : e = false := h
  rfl

/-! ## Links -/

/-- The unit that the link is in. -/
def Link.state (l : Link) : Option (List Argv) :=
  if l.queue.isSome then some l.block else none

/-- What a link keeps, wherever it reads from: the queue is part of the block, the block
is the beginning of a unit, and what is to be passed on is whole. -/
structure LinkOk (C : Commands) (own : Int) (l : Link) : Prop where
  idle : l.queue.isSome = false → l.block = []
  queued : ∀ q, l.queue = some q → ∀ a ∈ q, a.1 ∈ l.block
  done : Whole C own none l.done
  pending : ∀ rest, Whole C own l.state rest → Whole C own none (l.block ++ rest)

theorem LinkOk.startAt (pos : Nat) {done : List Argv} (h : Whole C own none done) :
    LinkOk C own (.startAt pos done) :=
  ⟨fun _ => rfl, (fun q hq => by cases hq), h, fun _ hrest => hrest⟩

theorem whole_cons_iff {l : Link} (hidle : l.queue.isSome = false → l.block = [])
    {rest : List Argv} :
    Whole C own l.state (argv :: rest) ↔
      if opensAfter l.queue.isSome argv then Whole C own (some (l.block ++ [argv])) rest
      else (l.queue.isSome = true → UnitOk C own (l.block ++ [argv])) ∧ Whole C own none rest := by
  unfold Link.state opensAfter
  cases hq : l.queue.isSome with
  | true => cases hc : closes argv <;> simp [Whole, hc]
  | false =>
    rw [hidle hq]
    by_cases hm : procOf argv = .multi
    · simp [Whole, hm]
    · have hno : (procOf argv == .multi) = false := by simpa using hm
      simp [Whole, hm, hno]

/-- The link takes a command after which a transaction is open or not. -/
theorem LinkOk.advance {l : Link} (h : LinkOk C own l)
    (hopens : queue.isSome = opensAfter l.queue.isSome argv)
    (hqueue : ∀ q, queue = some q → ∀ a ∈ q, a.1 ∈ l.block ++ [argv])
    (hunit : opensAfter l.queue.isSome argv = false → l.queue.isSome = true →
      UnitOk C own (l.block ++ [argv])) :
    LinkOk C own (l.advance argv queue) := by
  cases queue with
  | none =>
    have hends : opensAfter l.queue.isSome argv = false := hopens.symm
    refine LinkOk.startAt _ (h.done.append (h.pending [argv] ?_))
    rw [whole_cons_iff h.idle, hends]
    exact ⟨hunit hends, trivial⟩
  | some q =>
    have hopen : opensAfter l.queue.isSome argv = true := hopens.symm
    refine ⟨(fun hnone => by cases hnone), hqueue, h.done, fun rest hrest => ?_⟩
    show Whole C own none ((l.block ++ [argv]) ++ rest)
    rw [append_assoc]
    refine h.pending (argv :: rest) ?_
    rw [whole_cons_iff h.idle, hopen]
    exact hrest

theorem Link.next_advance (l : Link) (argv : Argv) (queue : Option (List PlainArgv)) :
    (l.advance argv queue).next = l.next + 1 := by
  unfold Link.advance Link.next
  cases queue <;> simp [Link.startAt, Nat.add_assoc]

/-- A link with a master whose history is `src`. -/
structure MasterOk (C : Commands) (own : Int) (src : List Argv) (l : Link) : Prop where
  link : LinkOk C own l
  next_le : l.next ≤ src.length
  rest : Whole C own l.state (src.drop l.next)

theorem MasterOk.mono {more : List Argv} {l : Link} (h : MasterOk C own src l)
    (hmore : Whole C own none more) : MasterOk C own (src ++ more) l := by
  refine ⟨h.link, ?_, ?_⟩
  · have := h.next_le
    simp only [length_append]
    omega
  · rw [drop_append_of_le_length h.next_le]
    exact h.rest.append hmore

theorem MasterOk.cons {l : Link} (h : MasterOk C own src l) (hargv : src[l.next]? = some argv) :
    Whole C own l.state (argv :: src.drop (l.next + 1)) := by
  obtain ⟨hlt, rfl⟩ := List.getElem?_eq_some_iff.1 hargv
  rw [← drop_eq_getElem_cons hlt]
  exact h.rest

theorem MasterOk.advance {l : Link} (h : MasterOk C own src l) (hargv : src[l.next]? = some argv)
    (hopens : queue.isSome = opensAfter l.queue.isSome argv)
    (hqueue : ∀ q, queue = some q → ∀ a ∈ q, a.1 ∈ l.block ++ [argv]) :
    MasterOk C own src (l.advance argv queue) := by
  have hcons := (whole_cons_iff h.link.idle).1 (h.cons hargv)
  obtain ⟨hlt, -⟩ := List.getElem?_eq_some_iff.1 hargv
  refine ⟨h.link.advance hopens hqueue fun hends => ?_, ?_, ?_⟩
  · rw [hends] at hcons
    exact hcons.1
  · rw [Link.next_advance]
    exact hlt
  · rw [Link.next_advance]
    rw [← hopens] at hcons
    cases queue with
    | none => exact hcons.2
    | some q => exact hcons

/-- A link with a peer of this gid whose peer history is `src`, and what has been applied
from there. -/
def PeerOk (C : Commands) (own gid : Int) (src : List Argv) (applied : List Nat) :
    PeerLink → Prop
  | .idle => ∀ k ∈ applied, k < src.length
  | .syncing pos => gid ≠ own ∧ pos ≤ src.length ∧ ∀ k ∈ applied, k < pos
  | .connected l =>
    gid ≠ own ∧ LinkOk C own l ∧ l.next ≤ src.length ∧ (∀ a ∈ l.block, carriedGid C a = some gid) ∧
      ∀ k ∈ applied, k < l.pos

theorem PeerOk.mono {more : List Argv} (h : PeerOk C own gid src applied p) :
    PeerOk C own gid (src ++ more) applied p := by
  have hlen : src.length ≤ (src ++ more).length := by simp
  cases p with
  | idle => exact fun k hk => Nat.lt_of_lt_of_le (h k hk) hlen
  | syncing pos => exact ⟨h.1, Nat.le_trans h.2.1 hlen, h.2.2⟩
  | connected l => exact ⟨h.1, h.2.1, Nat.le_trans h.2.2.1 hlen, h.2.2.2⟩

/-- Whatever the state of the link, nothing beyond the history was applied. -/
theorem PeerOk.applied_lt (h : PeerOk C own gid src applied p) : ∀ k ∈ applied, k < src.length := by
  intro k hk
  cases p with
  | idle => exact h k hk
  | syncing pos => exact Nat.lt_of_lt_of_le (h.2.2 k hk) h.2.1
  | connected l =>
    have hpos : l.pos ≤ l.next := Nat.le_add_right _ _
    exact Nat.lt_of_lt_of_le (h.2.2.2.2 k hk) (Nat.le_trans hpos h.2.2.1)

theorem unitOk_of_foreign (hne : gid ≠ own) {block : List Argv}
    (h : ∀ a ∈ block, carriedGid C a = some gid) : UnitOk C own block := by
  refine .inr fun a ha hgiven => hne ?_
  exact some.inj ((h a ha).symm.trans (own_of_givenGid hgiven).1)

/-- The link with a peer takes a command, and counts all of the block with it if no
transaction is open. -/
theorem PeerOk.advance {l : Link} (h : PeerOk C own gid src applied (.connected l))
    (hargv : src[l.next]? = some argv) (hgid : carriedGid C argv = some gid)
    (hopens : queue.isSome = opensAfter l.queue.isSome argv)
    (hqueue : ∀ q, queue = some q → ∀ a ∈ q, a.1 ∈ l.block ++ [argv]) :
    PeerOk C own gid src
      (if queue.isNone then applied ++ List.range' l.pos (l.block ++ [argv]).length else applied)
      (.connected (l.advance argv queue)) := by
  obtain ⟨hne, hlink, -, hblock, happlied⟩ := h
  obtain ⟨hlt, -⟩ := List.getElem?_eq_some_iff.1 hargv
  have hall : ∀ a ∈ l.block ++ [argv], carriedGid C a = some gid :=
    forall_mem_append.2 ⟨hblock, by simpa using hgid⟩
  refine ⟨hne, hlink.advance hopens hqueue fun _ _ => unitOk_of_foreign hne hall, ?_, ?_, ?_⟩
  · rw [Link.next_advance]
    exact hlt
  · cases queue with
    | none => exact fun a ha => by cases ha
    | some q => exact hall
  · cases queue with
    | none =>
      intro k hk
      show k < l.pos + (l.block ++ [argv]).length
      obtain hk | hk := mem_append.1 hk
      · have := happlied k hk
        omega
      · exact (mem_range'_1.1 hk).2
    | some q => exact happlied

/-! ## Runs -/

variable {ν : Type} [DecidableEq ν]

/-- The invariant. -/
structure Inv (C : Commands) (w : World ν) : Prop where
  gid : ∀ i, Net.checkGid (w.node i).gid = true
  fromPeer : ∀ i, (w.node i).streams.role.fromPeer = false
  own : ∀ i, Whole C (w.node i).gid none (w.node i).streams.own
  peer : ∀ i, ∀ argv ∈ (w.node i).streams.peer, Own C (w.node i).gid argv
  applied : ∀ i j, ((w.node i).applied j).Pairwise (· < ·)
  peers : ∀ i j, PeerOk C (w.node i).gid (w.node j).gid (w.node j).streams.peer
    ((w.node i).applied j) ((w.node i).peers j)
  master : ∀ i m l, (w.node i).master = some (m, l) →
    (w.node i).gid = (w.node m).gid ∧ MasterOk C (w.node i).gid (w.node m).streams.own l

variable {w w' : World ν} {i j : ν}

theorem put_self (i : ν) (n : Site ν) : (w.put i n).node i = n := by simp [World.put]

theorem put_ne {k : ν} (h : k ≠ i) (n : Site ν) : (w.put i n).node k = w.node k := by
  simp [World.put, h]

/-- A node changes. Its histories grow as they may, and its links are in order as to the
histories before the step. -/
theorem Inv.put (h : Inv C w) {n : Site ν} (hgid : n.gid = (w.node i).gid)
    (hgrown : Grown C (w.node i).gid (w.node i).streams n.streams)
    (happlied : ∀ j, (n.applied j).Pairwise (· < ·))
    (hpeers : ∀ j, PeerOk C (w.node i).gid (w.node j).gid (w.node j).streams.peer (n.applied j)
      (n.peers j))
    (hmaster : ∀ m l, n.master = some (m, l) → (w.node i).gid = (w.node m).gid ∧
      MasterOk C (w.node i).gid (w.node m).streams.own l) :
    Inv C (w.put i n) := by
  -- each node has the gid it had, and histories that have grown
  have hkept : ∀ k, k = i ∧ (w.put i n).node k = n ∨ (w.put i n).node k = w.node k := by
    intro k
    by_cases hk : k = i
    · subst hk
      exact .inl ⟨rfl, put_self k n⟩
    · exact .inr (put_ne hk n)
  have hnode : ∀ k, ((w.put i n).node k).gid = (w.node k).gid ∧
      Grown C (w.node k).gid (w.node k).streams ((w.put i n).node k).streams := by
    intro k
    obtain ⟨rfl, hn⟩ | hn := hkept k
    · rw [hn]
      exact ⟨hgid, hgrown⟩
    · rw [hn]
      exact ⟨rfl, .refl _⟩
  refine ⟨fun k => ?_, fun k => ?_, fun k => ?_, fun k => ?_, fun k j => ?_, fun k j => ?_,
    fun k m l hl => ?_⟩
  · rw [(hnode k).1]
    exact h.gid k
  · rw [(hnode k).2.fromPeer]
    exact h.fromPeer k
  · obtain ⟨more, hown, hmore⟩ := (hnode k).2.toSlaves
    rw [(hnode k).1, hown]
    exact (h.own k).append hmore
  · obtain ⟨more, hpeer, hmore⟩ := (hnode k).2.toPeers
    rw [(hnode k).1, hpeer]
    exact forall_mem_append.2 ⟨h.peer k, hmore⟩
  · obtain ⟨rfl, hn⟩ | hn := hkept k
    · rw [hn]
      exact happlied j
    · rw [hn]
      exact h.applied k j
  · obtain ⟨more, hpeer, -⟩ := (hnode j).2.toPeers
    rw [(hnode k).1, (hnode j).1, hpeer]
    refine PeerOk.mono ?_
    obtain ⟨rfl, hn⟩ | hn := hkept k
    · rw [hn]
      exact hpeers j
    · rw [hn]
      exact h.peers k j
  · obtain ⟨more, hown, hmore⟩ := (hnode m).2.toSlaves
    rw [(hnode k).1, (hnode m).1, hown]
    have hold : (w.node k).gid = (w.node m).gid ∧
        MasterOk C (w.node k).gid (w.node m).streams.own l := by
      obtain ⟨rfl, hn⟩ | hn := hkept k
      · rw [hn] at hl
        exact hmaster m l hl
      · rw [hn] at hl
        exact h.master k m l hl
    exact ⟨hold.1, hold.2.mono (hold.1 ▸ hmore)⟩

/-- A step that only feeds histories. -/
theorem Inv.feed (h : Inv C w) (i : ν) {f : Streams → Streams}
    (hf : Grown C (w.node i).gid (w.node i).streams (f (w.node i).streams)) :
    Inv C (w.feed i f) :=
  h.put rfl hf (h.applied i) (h.peers i) (h.master i)

/-- A step that only changes a link with a peer. -/
theorem Inv.setPeer (h : Inv C w) (i j : ν)
    (hp : PeerOk C (w.node i).gid (w.node j).gid (w.node j).streams.peer ((w.node i).applied j) p) :
    Inv C (w.setPeer i j p) := by
  refine h.put rfl (.refl _) (h.applied i) ?_ (h.master i)
  exact (forall_update_iff _ fun k => PeerOk C _ (w.node k).gid _ _).2 ⟨hp, fun k _ => h.peers i k⟩

/-! ### Steps -/

theorem own_ovcArgv (h : Net.checkGid own = true) (clock : Bytes) :
    procOf (ovcArgv own clock) ≠ .multi ∧ Own C own (ovcArgv own clock) := by
  have hproc : procOf (ovcArgv own clock) = .other := by
    show procNamed (ascii "CRDT.OVC") = .other
    decide
  have hgiven : givenGid C (ovcArgv own clock) = some own := by
    rw [givenGid, hproc]
    exact C.ovc own clock h
  exact ⟨by simp [hproc], own_of_givenGid hgiven⟩

theorem own_evictionArgv (h : Net.checkGid own = true) (key clock : Bytes) :
    procOf (evictionArgv own key clock) ≠ .multi ∧ Own C own (evictionArgv own key clock) := by
  have hproc : procOf (evictionArgv own key clock) = .evictionTombstone := by
    show procNamed (ascii "CRDT.EVICTIONTOMBSTONE") = .evictionTombstone
    decide
  refine ⟨by simp [hproc], ?_, by simp [hproc]⟩
  rw [carriedGid, hproc]
  exact Net.string2gid_ll2string h

omit [DecidableEq ν] in
theorem nextFromPeer_eq {l : Link} (hnext : w.nextFromPeer i j = some (l, argv)) :
    (w.node i).peers j = .connected l ∧ (w.node j).streams.peer[l.next]? = some argv := by
  unfold World.nextFromPeer at hnext
  split at hnext
  · next l' hl =>
    obtain ⟨a, ha, heq⟩ := map_eq_some_iff.1 hnext
    cases heq
    exact ⟨hl, ha⟩
  · cases hnext

omit [DecidableEq ν] in
theorem nextFromMaster_eq {m : ν} {l : Link} (hnext : w.nextFromMaster i = some (m, l, argv)) :
    (w.node i).master = some (m, l) ∧ (w.node m).streams.own[l.next]? = some argv := by
  unfold World.nextFromMaster at hnext
  obtain ⟨⟨m', l'⟩, hl, hmap⟩ := bind_eq_some_iff.1 hnext
  obtain ⟨a, ha, heq⟩ := map_eq_some_iff.1 hmap
  cases heq
  exact ⟨hl, ha⟩

/-- A master takes a command of a peer: its streams stay what they are. -/
theorem takeFromPeer_streams (h : Inv C w) {l : Link} (hnext : w.nextFromPeer i j = some (l, argv))
    (fate : Fate) :
    ((w.node i).takeFromPeer C j l argv fate).streams = (w.node i).streams := by
  obtain ⟨hl, hargv⟩ := nextFromPeer_eq hnext
  have hpeer := h.peers i j
  rw [hl] at hpeer
  obtain ⟨hne, hlink, -, hblock, -⟩ := hpeer
  have hcarried := (h.peer j argv (mem_of_getElem? hargv)).1
  show setFromPeer false (takeCommand C _ fate (setFromPeer true _) l.queue argv).streams = _
  rw [takeCommand_fromPeer rfl fate hne hcarried
    fun q hq a ha => hblock a.1 (hlink.queued q hq a ha)]
  exact setFromPeer_setFromPeer (h.fromPeer i)

/-- What is queued after a command was read on the link. -/
theorem mem_block_of_queue {l : Link} (hlink : LinkOk C own l) {q : List PlainArgv}
    (hq : (takeCommand C own fate s l.queue argv).queue = some q) :
    ∀ a ∈ q, a.1 ∈ l.block ++ [argv] := by
  intro a ha
  obtain rfl | ⟨q', hq', ha'⟩ := takeCommand_queue hq ha
  · simp
  · exact mem_append_left _ (hlink.queued q' hq' a ha')

theorem takeFromPeer_applied (n : Site ν) (l : Link) :
    (n.takeFromPeer C j l argv fate).applied = update n.applied j
      (if (takeCommand C n.gid fate (setFromPeer true n.streams) l.queue argv).queue.isNone then
        n.applied j ++ List.range' l.pos (l.block ++ [argv]).length else n.applied j) := by
  simp only [Site.takeFromPeer]
  split
  · rfl
  · rw [update_eq_self]

theorem inv_peerRead (h : Inv C w) {l : Link} (hnext : w.nextFromPeer i j = some (l, argv))
    (hfate : fate.keepsBrackets argv = true) :
    Inv C (w.put i ((w.node i).takeFromPeer C j l argv fate)) := by
  obtain ⟨hl, hargv⟩ := nextFromPeer_eq hnext
  have hpeer := h.peers i j
  rw [hl] at hpeer
  have hcarried := (h.peer j argv (mem_of_getElem? hargv)).1
  have hadvance := hpeer.advance hargv hcarried
    (takeCommand_isSome hfate (setFromPeer true (w.node i).streams) l.queue)
    (fun q hq => mem_block_of_queue hpeer.2.1 hq)
  have hstreams := takeFromPeer_streams h hnext fate
  refine h.put rfl (by rw [hstreams]; exact .refl _) ?_ (fun k => ?_) (h.master i)
  · rw [takeFromPeer_applied, forall_update_iff _ fun _ => List.Pairwise (· < ·)]
    refine ⟨?_, fun k _ => h.applied i k⟩
    split
    · -- the numbers that are added are beyond all others
      refine pairwise_append.2 ⟨h.applied i j, pairwise_lt_range', fun a ha b hb => ?_⟩
      exact Nat.lt_of_lt_of_le (hpeer.2.2.2.2 a ha) (mem_range'_1.1 hb).1
    · exact h.applied i j
  · rw [takeFromPeer_applied]
    show PeerOk C _ _ _ _ (update (w.node i).peers j _ k)
    by_cases hk : k = j
    · subst hk
      rw [update_self, update_self]
      exact hadvance
    · rw [update_of_ne hk, update_of_ne hk]
      exact h.peers i k

theorem inv_slaveRead (h : Inv C w) {m : ν} {l : Link}
    (hslave : (w.node i).streams.role.iAmMaster = false)
    (hnext : w.nextFromMaster i = some (m, l, argv)) (hfate : fate.keepsBrackets argv = true) :
    Inv C (w.put i ((w.node i).takeFromMaster C m l argv fate)) := by
  obtain ⟨hl, hargv⟩ := nextFromMaster_eq hnext
  obtain ⟨hgid, hmaster⟩ := h.master i m l hl
  have hopens : (takeCommand C (w.node i).gid fate (w.node i).streams l.queue argv).queue.isSome =
      opensAfter l.queue.isSome argv := takeCommand_isSome hfate _ _
  have hgrown : Grown C (w.node i).gid (w.node i).streams
      (takeCommand C (w.node i).gid fate (w.node i).streams l.queue argv).streams :=
    grown_takeCommand hslave fate l.queue argv
  refine h.put rfl ?_ (h.applied i) (h.peers i) fun m' l' heq => ?_
  · show Grown C _ _ (if _ then _ else _)
    split
    · next hown =>
      refine hgrown.trans (grown_feedCrdtServer ?_ _)
      obtain ⟨hnone, hgiven⟩ := takeCommand_gid hown
      rw [hnone] at hopens
      have hunit := (whole_cons_iff hmaster.link.idle).1 (hmaster.cons hargv)
      rw [← hopens] at hunit
      cases hq : l.queue with
      | none =>
        -- a single command that gives the own gid
        have hsingle : givenGid C argv = some (w.node i).gid := by
          obtain hgiven | ⟨q, hq', -⟩ := hgiven
          · exact hgiven
          · rw [hq] at hq'
            cases hq'
        rw [hmaster.link.idle (by rw [hq]; rfl)]
        simpa using own_of_givenGid hsingle
      | some q =>
        -- the end of a block of which a command gives the own gid
        obtain hall | hnever := hunit.1 (by rw [hq]; rfl)
        · exact hall
        · obtain hgiven | ⟨q', hq', a, ha, hgiven⟩ := hgiven
          · exact absurd hgiven (hnever argv (by simp))
          · exact absurd hgiven (hnever a.1 (mem_append_left _ (hmaster.link.queued q' hq' a ha)))
    · exact hgrown
  · obtain ⟨rfl, rfl⟩ : m = m' ∧ _ = l' := Prod.mk.inj (some.inj heq)
    exact ⟨hgid, hmaster.advance hargv hopens fun q hq => mem_block_of_queue hmaster.link hq⟩

omit [DecidableEq ν] in
theorem inv_starts (h : w.Starts) : Inv C w := by
  refine ⟨h.gid, h.fromPeer, fun i => ?_, fun i => ?_, fun i j => ?_, fun i j => ?_,
    fun i m l hl => ?_⟩
  · rw [h.own]
    trivial
  · rw [h.peer]
    exact fun a ha => by cases ha
  · rw [h.applied]
    exact List.Pairwise.nil
  · rw [h.peers, h.applied]
    exact fun k hk => by cases hk
  · rw [h.master] at hl
    cases hl

/-- Every step that meets the condition keeps the invariant. -/
theorem Inv.step (h : Inv C w) {a : Act ν} (hok : keepsGids C w a = true)
    (hstep : w.next C a = some w') : Inv C w' := by
  cases a with
  | write i out wrapped =>
    obtain ⟨hown, ⟨⟩⟩ := ite_none_right_eq_some.1 hstep
    obtain rfl : wrapped = false := by simpa [keepsGids] using hok
    exact h.feed i (grown_replicates hown false _)
  | command i argv =>
    cases hstep
    exact h.feed i (grown_queued argv _)
  | exec i queue =>
    obtain ⟨hvalid, ⟨⟩⟩ := ite_none_right_eq_some.1 hstep
    exact h.feed i (grown_exec (h.gid i) hvalid hok _)
  | crdtExec i gid queue =>
    obtain ⟨hvalid, ⟨⟩⟩ := ite_none_right_eq_some.1 hstep
    exact h.feed i (grown_crdtExec hvalid.1 hok gid _)
  | sendOvc i clock =>
    cases hstep
    obtain ⟨hmulti, hown⟩ := own_ovcArgv (C := C) (h.gid i) clock
    exact h.feed i (grown_feedAll hmulti hown _)
  | evict i key clock =>
    cases hstep
    obtain ⟨hmulti, hown⟩ := own_evictionArgv (C := C) (h.gid i) key clock
    exact h.feed i (grown_feedAll hmulti hown _)
  | sendSelect i db =>
    cases hstep
    refine h.feed i (grown_feedMasterStream (l := [[ascii "SELECT", db]]) (whole_singles ?_) _)
    intro a ha
    obtain rfl := mem_singleton.1 ha
    show procNamed (ascii "SELECT") ≠ .multi
    decide
  | setRole i role =>
    obtain ⟨hrole, ⟨⟩⟩ := ite_none_left_eq_some.1 hstep
    have hsame : role.fromPeer = (w.node i).streams.role.fromPeer := by
      rw [h.fromPeer i]
      simpa using hrole
    exact h.feed i ⟨hsame, (Grown.refl _).toSlaves, (Grown.refl _).toPeers⟩
  | startSync i j =>
    obtain ⟨hne, ⟨⟩⟩ := ite_none_left_eq_some.1 hstep
    exact h.setPeer i j ⟨fun heq => hne heq.symm, Nat.le_refl _, (h.peers i j).applied_lt⟩
  | merge i j argv =>
    simp only [World.next] at hstep
    split at hstep
    · obtain ⟨hmerge, ⟨⟩⟩ := ite_none_right_eq_some.1 hstep
      refine h.feed i (Grown.effect (e := .propagate ⟨false, true⟩ argv.1) (fun _ => rfl)
        (fun a ha => ?_) (fun a ha => ?_) _)
      · obtain rfl := some.inj ha
        exact procOf_ne_multi_of_plain argv.2
      · cases ha
    · cases hstep
  | endSync i j =>
    simp only [World.next] at hstep
    split at hstep
    · next pos hpos =>
      cases hstep
      have hpeer := h.peers i j
      rw [hpos] at hpeer
      exact h.setPeer i j ⟨hpeer.1, .startAt pos trivial, hpeer.2.1, (fun a ha => by cases ha),
        hpeer.2.2⟩
    · cases hstep
  | peerRead i j fate =>
    obtain ⟨-, hmap⟩ := ite_none_right_eq_some.1 hstep
    obtain ⟨⟨l, argv⟩, hnext, rfl⟩ := map_eq_some_iff.1 hmap
    refine inv_peerRead h hnext ?_
    simpa only [keepsGids, hnext, all_some] using hok
  | peerForward i j =>
    simp only [World.next] at hstep
    split at hstep
    · next l hl =>
      cases hstep
      have hpeer := h.peers i j
      rw [hl] at hpeer
      obtain ⟨hne, hlink, hrest⟩ := hpeer
      have hfed := h.feed i (f := fun s => feedMasterStream s l.done)
        (grown_feedMasterStream hlink.done (w.node i).streams)
      refine hfed.setPeer i j ?_
      have hold := hfed.peers i j
      have hsame :
          ((w.feed i fun s => feedMasterStream s l.done).node i).peers j = .connected l := by
        rw [World.feed, put_self]
        exact hl
      rw [hsame] at hold
      exact ⟨hold.1, ⟨hold.2.1.idle, hold.2.1.queued, trivial, hold.2.1.pending⟩, hold.2.2⟩
    · cases hstep
  | relink i j =>
    simp only [World.next] at hstep
    split at hstep
    · next l hl =>
      cases hstep
      have hpeer := h.peers i j
      rw [hl] at hpeer
      have hpos : l.pos ≤ l.next := Nat.le_add_right _ _
      exact h.setPeer i j ⟨hpeer.1, .startAt l.pos hpeer.2.1.done, Nat.le_trans hpos hpeer.2.2.1,
        (fun a ha => by cases ha), hpeer.2.2.2.2⟩
    · cases hstep
  | unlink i j =>
    cases hstep
    exact h.setPeer i j (h.peers i j).applied_lt
  | attach i m pos =>
    obtain ⟨⟨-, hgid, hpos⟩, ⟨⟩⟩ := ite_none_right_eq_some.1 hstep
    refine h.put rfl (.refl _) (h.applied i) (h.peers i) fun m' l heq => ?_
    obtain ⟨rfl, rfl⟩ : m = m' ∧ _ = l := Prod.mk.inj (some.inj heq)
    obtain ⟨hle, hrest⟩ := (h.own m).of_endsUnit hpos
    rw [← hgid] at hrest
    exact ⟨hgid, .startAt pos trivial, hle, hrest⟩
  | detach i =>
    cases hstep
    exact h.put rfl (.refl _) (h.applied i) (h.peers i) fun m l heq => by cases heq
  | slaveRead i fate =>
    obtain ⟨hslave, hmap⟩ := ite_none_left_eq_some.1 hstep
    obtain ⟨⟨m, l, argv⟩, hnext, rfl⟩ := map_eq_some_iff.1 hmap
    refine inv_slaveRead h (by simpa using hslave) hnext ?_
    simpa only [keepsGids, hnext, all_some] using hok
  | slaveForward i =>
    obtain ⟨⟨m, l⟩, hl, rfl⟩ := map_eq_some_iff.1 hstep
    obtain ⟨hgid, hmaster⟩ := h.master i m l hl
    refine h.put rfl ?_ (h.applied i) (h.peers i) fun m' l' heq => ?_
    · show Grown C _ _ (if _ then _ else _)
      split
      · exact .refl _
      · exact grown_feedMasterStream hmaster.link.done _
    · obtain ⟨rfl, rfl⟩ : m = m' ∧ _ = l' := Prod.mk.inj (some.inj heq)
      exact ⟨hgid, ⟨hmaster.link.idle, hmaster.link.queued, trivial, hmaster.link.pending⟩,
        hmaster.next_le, hmaster.rest⟩

/-- The node applies what another site has sent it, or passes it on. -/
def Act.receives (i : ν) : Act ν → Bool
  | .peerRead k _ _ | .merge k _ _ | .peerForward k _ => k = i
  | _ => false

/-- There is no loop: what is in a peer history, on a master or on a slave, carries the
gid of the site and is no merge; what a node receives from a peer leaves its peer history
as it is; and of each peer history it applies every command at most once, in order. -/
structure NoLoop (C : Commands) (w : World ν) : Prop where
  own : ∀ i, ∀ argv ∈ (w.node i).streams.peer,
    carriedGid C argv = some (w.node i).gid ∧ procOf argv ≠ .merge
  received : ∀ i a w', w.next C a = some w' → a.receives i = true →
    (w'.node i).streams.peer = (w.node i).streams.peer
  once : ∀ i j, ((w.node i).applied j).Pairwise (· < ·)

theorem peer_of_receives (h : Inv C w) {a : Act ν} (hstep : w.next C a = some w')
    (hreceives : a.receives i = true) :
    (w'.node i).streams.peer = (w.node i).streams.peer := by
  cases a with
  | peerRead k j fate =>
    obtain rfl : k = i := by simpa [Act.receives] using hreceives
    obtain ⟨-, hmap⟩ := ite_none_right_eq_some.1 hstep
    obtain ⟨⟨l, argv⟩, hnext, rfl⟩ := map_eq_some_iff.1 hmap
    rw [put_self, takeFromPeer_streams h hnext]
  | merge k j argv =>
    obtain rfl : k = i := by simpa [Act.receives] using hreceives
    simp only [World.next] at hstep
    split at hstep
    · obtain ⟨-, ⟨⟩⟩ := ite_none_right_eq_some.1 hstep
      rw [World.feed, put_self]
      have hget := propagate_get (w.node k).streams ⟨false, true⟩ argv.1 .peer
      simpa [reaches, only, Streams.get] using hget
    · cases hstep
  | peerForward k j =>
    obtain rfl : k = i := by simpa [Act.receives] using hreceives
    simp only [World.next] at hstep
    split at hstep
    · cases hstep
      rw [World.setPeer, put_self, World.feed, put_self]
      show (feedMasterStream _ _).peer = _
      rw [feedMasterStream, feedServer_foldl]
    · cases hstep
  | write | command | exec | crdtExec | sendOvc | evict | sendSelect | setRole | startSync | endSync
  | relink | unlink | attach | detach | slaveRead | slaveForward => cases hreceives

theorem inv_of_reachable (h : (network C).Reachable (fun w a => keepsGids C w a = true) w) :
    Inv C w :=
  h.invariant (fun _ hs => inv_starts hs) fun _ _ _ hinv hok hstep => hinv.step hok hstep

/-- In every run whose steps meet `keepsGids` there is no loop. -/
theorem no_replication_loop
    (h : (network C).Reachable (fun w a => keepsGids C w a = true) w) : NoLoop C w := by
  have hinv := inv_of_reachable h
  exact ⟨hinv.peer, fun i a w' hstep hreceives => peer_of_receives hinv hstep hreceives,
    hinv.applied⟩

/-- A module whose commands have the gid as the first of two arguments. -/
def setCommands : Commands where
  gidOf argv :=
    match argv with
    | [_, gid, _] => string2gid gid
    | _ => none
  flagged _ := false
  dirty argv := argv.head? == some (ascii "CRDT.SETOFFLINEGID")
  ovc := fun _ _ h => Net.string2gid_ll2string h

/-- Two masters, with the gids 1 and 2. -/
def twoMasters : World Bool where
  node i := ⟨if i then 2 else 1, ⟨masterRole, [], []⟩, fun _ => .idle, none, fun _ => []⟩

theorem twoMasters_starts : twoMasters.Starts where
  gid i := by cases i <;> decide
  fromPeer _ := rfl
  own _ := rfl
  peer _ := rfl
  peers _ _ := rfl
  master _ := rfl
  applied _ _ := rfl

/-- `CRDT.SET 1 x`. -/
def setX : PlainArgv := ⟨[ascii "CRDT.SET", ascii "1", ascii "x"], by decide⟩

/-- The master with the gid 2 becomes a peer of the other one. -/
def linkUp : List (Act Bool) := [.startSync true false, .endSync true false]

/-- A local write and a transaction at the first master, read by the second one. -/
theorem no_replication_loop_two : ∃ w : World Bool,
    (network setCommands).Reachable (fun w a => keepsGids setCommands w a = true) w ∧
      (w.node true).applied false = [0, 1, 2, 3] ∧ NoLoop setCommands w := by
  have hrun : (((network setCommands).runMeeting (fun w a => keepsGids setCommands w a = true)
      twoMasters (linkUp ++ [.write false [setX] false, .exec false [.write [setX] true],
        .peerRead true false .runs, .peerRead true false .runs, .peerRead true false .runs,
        .peerRead true false .runs, .peerForward true false])).any fun w =>
      (w.node true).applied false = [0, 1, 2, 3]) = true := by decide +kernel
  obtain ⟨w, hw, happlied⟩ := (Option.any_eq_true _ _).1 hrun
  have hreach := Lib.System.reachable_of_runMeeting (.init twoMasters_starts) hw
  exact ⟨w, hreach, of_decide_eq_true happlied, no_replication_loop hreach⟩

/-- A local command of the first master is wrapped: `MULTI` without a gid gets into its
peer history, and when the second master has read `EXEC` from there, its own peer history
has a `CRDT.MULTI` and a `CRDT.EXEC`. -/
theorem wrapped_write_loops :
    (¬ ∀ w : World Bool, (network setCommands).Reachable Lib.System.anyStep w →
      ∀ i, ∀ argv ∈ (w.node i).streams.peer, carriedGid setCommands argv = some (w.node i).gid) ∧
    ¬ ∀ w : World Bool, (network setCommands).Reachable Lib.System.anyStep w →
      ∀ i a w', w.next setCommands a = some w' → a.receives i = true →
        (w'.node i).streams.peer = (w.node i).streams.peer := by
  have hrun : (((network setCommands).run twoMasters (linkUp ++ [.write false [setX] true,
      .peerRead true false .runs, .peerRead true false .runs])).any fun w =>
        (w.node false).streams.peer.head? == some [ascii "MULTI"] &&
          (w.next setCommands (.peerRead true false .runs)).any fun w' =>
            (w'.node true).streams.peer != (w.node true).streams.peer) = true := by decide +kernel
  obtain ⟨w, hw, hbad⟩ := (Option.any_eq_true _ _).1 hrun
  have hreach := Lib.System.reachable_of_run (.init twoMasters_starts) hw
  simp only [Bool.and_eq_true, beq_iff_eq] at hbad
  refine ⟨fun hall => ?_, fun hall => ?_⟩
  · have hgid := hall w hreach false _ (mem_of_head? hbad.1)
    have hnone : carriedGid setCommands [ascii "MULTI"] = none := by decide
    rw [hnone] at hgid
    cases hgid
  · obtain ⟨w', hnext, hdiff⟩ := (Option.any_eq_true _ _).1 hbad.2
    have hsame := hall w hreach true _ w' hnext rfl
    rw [hsame] at hdiff
    simp at hdiff

end XredisCrdt.Sites
