import XredisCrdt.Merge.Handlers
import XredisCrdt.Net.StreamRuns
import XredisCrdt.Peer.Peerof

/-!
# Gids in commands

Seven commands take a gid as an argument and use it, or the gid of the executing
client, as an index into `crdtMasters`. `gid_checked_iff` says for each of them, for
every argument vector and every set of configured peers, exactly when all indices
that are used are in 1..15, no peer or client is followed that does not exist, and
the gid of a client that is a link to a peer is left alone.
-/

namespace XredisCrdt.Peer

open Function Option Net

/-! ## Clean computations -/

/-- The faults that come from a gid that was not checked, or from a peer or client
that is not there. -/
def Fault.ofGid : Fault → Bool
  | .index _ | .nullPeer | .nullMaster | .unsetGid => true
  | _ => false

namespace Trace

variable {α β : Type}

/-- Only the indices 1..15 are used, and what is followed exists. -/
def Clean (t : Trace α) : Prop :=
  (∀ i ∈ t.indices, 1 ≤ i ∧ i ≤ 15) ∧ ∀ e, t.result = .error e → e.ofGid = false

theorem clean_pure (a : α) : (pure a : Trace α).Clean := by
  constructor
  · intro i hi
    cases hi
  · intro e he
    cases he

theorem clean_fail {e : Fault} : (fail e : Trace α).Clean ↔ e.ofGid = false := by
  constructor
  · intro h
    exact h.2 e rfl
  · intro h
    refine ⟨fun i hi => ?_, fun e' he => ?_⟩
    · cases hi
    · cases he
      exact h

theorem clean_deref {e : Fault} {o : Option α} :
    (deref e o).Clean ↔ (o = none → e.ofGid = false) := by
  cases o with
  | none => simpa using clean_fail
  | some a => simpa using clean_pure a

theorem clean_bind {t : Trace α} {f : α → Trace β} :
    (t >>= f).Clean ↔ t.Clean ∧ ∀ a, t.result = .ok a → (f a).Clean := by
  show (Trace.bind t f).Clean ↔ _
  unfold Clean Trace.bind
  cases h : t.result with
  | error e => simp
  | ok a =>
    simp only [List.forall_mem_append, Except.ok.injEq, forall_eq', reduceCtorEq, false_implies,
      implies_true, and_true, and_assoc]

theorem clean_arg_bind {argv : Argv} {i : Nat} {f : Bytes → Trace α} :
    (arg argv i >>= f).Clean ↔ ∀ text, argv[i]? = some text → (f text).Clean := by
  rw [clean_bind]
  simp only [arg, clean_deref, deref_result_ok, Fault.ofGid, implies_true, true_and]

end Trace

open Trace

variable {argv : Argv} {clientGid gid : Int} {env : PeerofEnv} {i : Fin 16} {p : PeerMaster}
  {qps : Nat} {r : Exit × CrdtServer} {s : CrdtServer} (words : List Bytes)

/-- The index of a gid that `check_gid` takes. -/
theorem checkGid_iff : checkGid gid = true ↔ 1 ≤ toInt gid ∧ toInt gid ≤ 15 := by
  unfold checkGid
  rw [decide_eq_true_iff]
  omega

theorem clean_slot : (slot gid).Clean ↔ checkGid gid = true := by
  rw [checkGid_iff]
  unfold slot Trace.Clean
  split
  · simp
  · rename_i hout
    constructor
    · rintro ⟨-, h⟩
      exact absurd (h _ rfl) (by simp [Fault.ofGid])
    · intro h
      omega

/-- The peer that `getPeerMaster` gives. -/
def peerAt (s : CrdtServer) (gid : Int) : Option PeerMaster :=
  (slot gid).result.toOption.bind s.crdtMasters

theorem slot_ok (h : checkGid gid = true) :
    ∃ i, (slot gid).result = .ok i ∧ ∀ s, peerAt s gid = s.crdtMasters i := by
  rw [checkGid_iff] at h
  have hslot : (slot gid).result = .ok ⟨(toInt gid).toNat, by omega⟩ := by
    unfold slot
    rw [dif_pos (by omega)]
  refine ⟨_, hslot, fun s => ?_⟩
  rw [peerAt, hslot]
  rfl

theorem checkGid_eq : checkGid gid = (asGid gid).isSome := by
  unfold asGid checkGid
  split <;> simp_all

theorem clean_slot_bind {α : Type} {f : Fin 16 → Trace α} (h : checkGid gid = true)
    (hi : (slot gid).result = .ok i) : (slot gid >>= f).Clean ↔ (f i).Clean := by
  rw [clean_bind, clean_slot]
  simp only [h, true_and, hi, Except.ok.injEq, forall_eq']

theorem clean_parseClock (text : Bytes) : (parseClock text).Clean := by
  unfold parseClock
  split
  · exact clean_fail.2 rfl
  · split
    · exact clean_pure _
    · exact clean_fail.2 rfl

theorem clean_copyReplid (old new : Bytes) : (copyReplid old new).Clean := by
  unfold copyReplid
  split
  · exact clean_pure _
  · exact clean_fail.2 rfl

theorem clean_crdtCancelReplicationHandshake :
    (crdtCancelReplicationHandshake s gid).Clean ↔ checkGid gid = true := by
  unfold crdtCancelReplicationHandshake
  rw [clean_bind, clean_slot]
  refine and_iff_left fun i _ => ?_
  split <;> exact clean_pure _

theorem clean_mergeError :
    (mergeError s gid).Clean ↔ (s.iAmMaster = true → checkGid gid = true) := by
  unfold mergeError
  split
  · rename_i hm
    rw [clean_bind, clean_crdtCancelReplicationHandshake]
    simp [hm, clean_pure]
  · rename_i hm
    simp [hm, clean_pure]

/-! ## PEEROF -/

theorem clean_parseProxyWords (servers : List Point) (params : Option Bytes) (words : List Bytes) :
    (parseProxyWords servers params words).Clean := by
  fun_induction parseProxyWords servers params words with
  | case1 => exact clean_pure _
  | case2 => exact clean_fail.2 rfl
  | case3 => exact clean_pure _
  | case4 servers params word value rest h ih => exact ih
  | case5 servers params word value rest h h' ih => exact ih
  | case6 servers params word value rest h h' ih => exact ih

theorem clean_parseXpipeProxyByArray : (parseXpipeProxyByArray words).Clean := by
  unfold parseXpipeProxyByArray
  refine clean_bind.2 ⟨clean_parseProxyWords _ _ _, ?_⟩
  rintro ⟨servers, params⟩ -
  dsimp only
  split <;> exact clean_pure _

/-- No option uses the gid. -/
theorem clean_peerofOptions (own : Clock.Gid) (words : List Bytes) (o : PeerofOptions)
    (ws : List Bytes) : (peerofOptions own words o ws).Clean := by
  fun_induction peerofOptions own words o ws with
  | case1 => exact clean_pure _
  | case2 => exact clean_fail.2 rfl
  | case3 => exact clean_pure _
  | case4 => exact clean_pure _
  | case5 o word value rest h vcu hv ih => exact ih
  | case6 o word value rest h ht hv ih =>
    refine clean_bind.2 ⟨clean_parseXpipeProxyByArray words, ?_⟩
    intro proxy _
    cases proxy with
    | none => exact clean_pure _
    | some proxy => exact ih proxy
  | case7 => exact clean_pure _
  | case8 o word value rest h ht ih => exact ih

/-- All options of a `PEEROF` are accepted. -/
def optionsAccepted (own : Clock.Gid) (words : List Bytes) : Bool :=
  match optionsOf own words with
  | .ok (none, _) => true
  | _ => false

/-- The gid of a `PEEROF` that is not refused for another reason. -/
def peerofGid (env : PeerofEnv) (s : CrdtServer) : Argv → Option Int
  | _ :: gidText :: host :: portText :: words =>
    if env.clusterEnabled then none
    else (string2ll gidText).filter fun gid =>
      gid ≠ (s.crdtGid : Nat) ∧
        (isNoOne host portText ∨
          ((string2ll portText).isSome ∧ optionsAccepted s.crdtGid words))
  | _ => none

theorem clean_peerofNoOne : (peerofNoOne s gid).Clean ↔ checkGid gid = true := by
  unfold peerofNoOne
  rw [clean_bind, clean_slot]
  exact and_iff_left fun i _ => clean_pure _

theorem clean_peerofAttach {host : Bytes} {port : Int} {o : PeerofOptions} :
    (peerofAttach env s gid host port o).Clean ↔ checkGid gid = true := by
  unfold peerofAttach
  rw [clean_bind, clean_slot]
  refine and_iff_left fun i _ => ?_
  split
  · exact clean_pure _
  · dsimp only
    split <;> exact clean_pure _

theorem clean_peerofCommand :
    (peerofCommand env s argv).Clean ↔ ∀ gid ∈ peerofGid env s argv, checkGid gid = true := by
  match argv with
  | [] | [_] | [_, _] | [_, _, _] => simp [peerofCommand, peerofGid, clean_fail, Fault.ofGid]
  | cmd :: gidText :: host :: portText :: words =>
    simp only [peerofCommand, peerofGid]
    split
    · simp [clean_pure]
    cases hgid : string2ll gidText with
    | none => simp [clean_pure]
    | some gid =>
      dsimp only
      split
      · rename_i hown
        simp [hown, Option.filter, clean_pure]
      rename_i hown
      split
      · rename_i hone
        simp [Option.filter, hown, hone, clean_peerofNoOne]
      · rename_i hone
        cases hport : string2ll portText with
        | none => simp [Option.filter, hone, clean_pure]
        | some port =>
          have hloop := peerofOptions_server s words
          rw [clean_bind]
          simp only [clean_peerofOptions, true_and]
          cases hread : optionsOf s.crdtGid words with
          | error e =>
            rw [hread] at hloop
            have hno : optionsAccepted s.crdtGid words = false := by rw [optionsAccepted, hread]
            simp [hloop, Except.map, Option.filter, hone, hno]
          | ok r =>
            obtain ⟨e, o⟩ := r
            rw [hread] at hloop
            cases e with
            | some text =>
              have hno : optionsAccepted s.crdtGid words = false := by rw [optionsAccepted, hread]
              simp [hloop, Except.map, Option.filter, hone, hno, clean_pure]
            | none =>
              have hyes : optionsAccepted s.crdtGid words = true := by rw [optionsAccepted, hread]
              simp [hloop, Except.map, Option.filter, hone, hown, hyes, clean_peerofAttach]

/-! ## The commands of a full sync -/

/-- The gid in the arguments, if it can be read. -/
def namedGid (argv : Argv) : Option Int := argv[1]?.bind string2ll

/-- There is a gid, and it cannot be read. -/
def GidUnreadable (argv : Argv) : Prop := ∃ text, argv[1]? = some text ∧ string2ll text = none

theorem arg_ok {i : Nat} {text : Bytes} :
    (arg argv i).result = .ok text ↔ argv[i]? = some text := deref_result_ok

/-- A command that begins with its gid: what the two branches are clean for. -/
theorem clean_withGid {α : Type} {f : Bytes → Trace α} {bad : Prop} {good : Int → Prop}
    (hbad : ∀ text, string2ll text = none → ((f text).Clean ↔ bad))
    (hgood : ∀ text gid, string2ll text = some gid → ((f text).Clean ↔ good gid)) :
    (arg argv 1 >>= f).Clean ↔ (GidUnreadable argv → bad) ∧ ∀ gid ∈ namedGid argv, good gid := by
  rw [clean_arg_bind]
  cases ha : argv[1]? with
  | none => simp [namedGid, GidUnreadable, ha]
  | some text =>
    cases hg : string2ll text with
    | none => simp [namedGid, GidUnreadable, ha, hg, hbad text hg]
    | some gid => simp [namedGid, GidUnreadable, ha, hg, hgood text gid hg]

theorem clean_crdtMergeStartCommand {uninitialized : Bytes} :
    (crdtMergeStartCommand uninitialized s argv).Clean ↔
      (GidUnreadable argv → s.iAmMaster = false) ∧
        ∀ gid ∈ namedGid argv, (s.iAmMaster = true → checkGid gid = true) ∧
          (checkGid gid = true → (peerAt s gid).isSome) := by
  refine clean_withGid ?_ ?_
  · intro text hg
    simp only [hg]
    rw [clean_mergeError]
    simp [show checkGid (-1) = false by decide]
  · intro text gid hg
    simp only [hg]
    cases hv : asGid gid with
    | none =>
      have hno : checkGid gid = false := by rw [checkGid_eq, hv]; rfl
      rw [clean_mergeError]
      simp [hno]
    | some g =>
      have hyes : checkGid gid = true := by rw [checkGid_eq, hv]; rfl
      obtain ⟨i, hi, hpeer⟩ := slot_ok hyes
      simp only [hyes, hpeer, implies_true, true_and, forall_const]
      rw [clean_slot_bind hyes hi, clean_bind, clean_deref]
      cases s.crdtMasters i with
      | none => simp [Fault.ofGid]
      | some p =>
        -- from here on only the text of the clock can fault
        refine iff_of_true ⟨by simp, fun q _ => clean_arg_bind.2 fun text _ => ?_⟩ rfl
        exact clean_bind.2 ⟨clean_parseClock _, fun _ _ => clean_pure _⟩

theorem clean_peerChangeCommand : (peerChangeCommand s argv).Clean ↔
      ∀ gid ∈ namedGid argv, checkGid gid = true →
        ∃ p, peerAt s gid = some p ∧ p.master.isSome := by
  have hiff : (peerChangeCommand s argv).Clean ↔ (GidUnreadable argv → True) ∧
      ∀ gid ∈ namedGid argv, checkGid gid = true →
        ∃ p, peerAt s gid = some p ∧ p.master.isSome := by
    refine clean_withGid ?_ ?_
    · intro text hg
      simp only [hg]
      exact iff_of_true (clean_pure _) trivial
    · intro text gid hg
      simp only [hg]
      cases hv : asGid gid with
      | none =>
        have hno : checkGid gid = false := by rw [checkGid_eq, hv]; rfl
        simp [hno, clean_pure]
      | some g =>
        have hyes : checkGid gid = true := by rw [checkGid_eq, hv]; rfl
        obtain ⟨i, hi, hpeer⟩ := slot_ok hyes
        simp only [hyes, hpeer, forall_const]
        rw [clean_slot_bind hyes hi, clean_bind, clean_deref]
        cases s.crdtMasters i with
        | none => simp [Fault.ofGid]
        | some p =>
          simp only [reduceCtorEq, false_implies, true_and, deref_result_ok, some.injEq,
            forall_eq', exists_eq_left']
          rw [clean_bind, clean_deref]
          cases p.master with
          | none => simp [Fault.ofGid]
          | some m =>
            refine iff_of_true ⟨by simp, fun m' _ => clean_arg_bind.2 fun text _ => ?_⟩ rfl
            refine clean_bind.2 ⟨clean_copyReplid _ _, fun id₁ _ => ?_⟩
            exact clean_bind.2 ⟨clean_copyReplid _ _, fun _ _ => clean_pure _⟩
  simpa using hiff

/-- The clock and the offset of a `CRDT.MERGE_END` can be read. -/
def ClockAndOffset (argv : Argv) : Prop :=
  (∃ text v, argv[2]? = some text ∧ (parseClock text).result = .ok v) ∧
    ∃ text, argv[4]? = some text ∧ (string2ll text).isSome

/-- The replication id of a `CRDT.MERGE_END` fits into its buffer. -/
def ReplidFits (argv : Argv) : Prop := ∃ text, argv[3]? = some text ∧ text.length ≤ 41

theorem clean_acknowledgePeer : (acknowledgePeer clientGid s i).Clean ↔
      (s.iAmMaster = true → checkGid clientGid = true ∧ (peerAt s clientGid).isSome) := by
  unfold acknowledgePeer
  split
  · rename_i hm
    simp only [hm, forall_const]
    rw [clean_bind, clean_slot]
    refine and_congr_right fun hyes => ?_
    obtain ⟨j, hj, hpeer⟩ := slot_ok hyes
    simp only [hj, Except.ok.injEq, forall_eq', hpeer]
    rw [clean_bind, clean_deref]
    cases s.crdtMasters j with
    | none => simp [Fault.ofGid]
    | some p => simp [clean_pure]
  · rename_i hm
    simp [hm, clean_pure]

/-- The state that is acknowledged has the same peers in the same role. -/
theorem synced_peers {q : PeerMaster} (hp : s.crdtMasters i = some p) (gid : Clock.Gid)
    (vclock : Clock.VectorClock) (qps : Nat) :
    (syncedServer s i qps p q gid vclock).iAmMaster = s.iAmMaster ∧
      ∀ g, (peerAt (syncedServer s i qps p q gid vclock) g).isSome = (peerAt s g).isSome := by
  obtain ⟨v, w, c, l, b, heq⟩ := syncedServer_eq s i qps p q gid vclock
  rw [heq]
  refine ⟨rfl, fun g => ?_⟩
  unfold peerAt
  cases (slot g).result with
  | error e => rfl
  | ok j =>
    show (update s.crdtMasters i _ j).isSome = (s.crdtMasters j).isSome
    by_cases hj : j = i
    · subst hj
      simp [hp]
    · rw [update_of_ne hj]

/-- `CRDT.MERGE_END` from the point where its replication id is taken over. -/
theorem clean_mergedReplid {gid : Clock.Gid} {vclock : Clock.VectorClock} {m : PeerClient}
    {offset : Int} (hp : s.crdtMasters i = some p) :
    Trace.Clean (do
      let replid ← arg argv 3
      let clientReplid ← copyReplid m.replid replid
      let masterReplid ← copyReplid p.masterReplid replid
      let q := p.synced m vclock clientReplid masterReplid offset
      let s₁ := (takeMergedClock s i p gid vclock).setPeer i (some q)
      acknowledgePeer clientGid (if q.backstreaming then finishBackstream s₁ i q qps else s₁) i) ↔
      (ReplidFits argv → s.iAmMaster = true →
        checkGid clientGid = true ∧ (peerAt s clientGid).isSome) := by
  rw [clean_arg_bind]
  cases h₃ : argv[3]? with
  | none => simp [ReplidFits, h₃]
  | some replid =>
    simp only [some.injEq, forall_eq']
    rw [clean_bind]
    simp only [clean_copyReplid, true_and]
    by_cases hlen : replid.length ≤ 41
    · have hfits : ReplidFits argv := ⟨replid, h₃, hlen⟩
      have hcopy : ∀ old, (copyReplid old replid).result =
          .ok (replid ++ old.drop replid.length) := by
        intro old
        rw [copyReplid, if_pos hlen]
        rfl
      simp only [hfits, forall_const, hcopy, Except.ok.injEq, forall_eq']
      rw [clean_bind]
      simp only [clean_copyReplid, true_and, hcopy, Except.ok.injEq, forall_eq']
      rw [clean_acknowledgePeer]
      obtain ⟨hrole, hsame⟩ := synced_peers
        (q := p.synced m vclock (replid ++ m.replid.drop replid.length)
          (replid ++ p.masterReplid.drop replid.length) offset) hp gid vclock qps
      unfold syncedServer at hrole hsame
      rw [hrole, hsame]
    · have hfail : ∀ old, (copyReplid old replid).result = .error .replidOverflow := by
        intro old
        rw [copyReplid, if_neg hlen]
        rfl
      simp [ReplidFits, h₃, hlen, hfail]

/-- `CRDT.MERGE_END` from the point where its peer is found. -/
theorem clean_mergedClock {gid : Clock.Gid} (hp : s.crdtMasters i = some p) :
    (crdtMergeEndPeer clientGid qps s argv i p gid).Clean ↔
      (ClockAndOffset argv → p.master.isSome ∧ (ReplidFits argv → s.iAmMaster = true →
        checkGid clientGid = true ∧ (peerAt s clientGid).isSome)) := by
  unfold crdtMergeEndPeer
  rw [clean_arg_bind]
  -- each argument is there or not, and can be read or not
  cases h₂ : argv[2]? with
  | none => simp [ClockAndOffset, h₂]
  | some clockText =>
    simp only [some.injEq, forall_eq']
    rw [clean_bind]
    simp only [clean_parseClock, true_and]
    cases hclock : (parseClock clockText).result with
    | error e => simp [ClockAndOffset, h₂, hclock]
    | ok vclock =>
      simp only [Except.ok.injEq, forall_eq']
      rw [clean_arg_bind]
      cases h₄ : argv[4]? with
      | none => simp [ClockAndOffset, h₄]
      | some offsetText =>
        simp only [some.injEq, forall_eq']
        cases hoff : string2ll offsetText with
        | none => simp [ClockAndOffset, h₄, hoff, clean_pure]
        | some offset =>
          have hread : ClockAndOffset argv :=
            ⟨⟨clockText, vclock, h₂, hclock⟩, offsetText, h₄, by rw [hoff]; rfl⟩
          simp only [hread, forall_const]
          rw [clean_bind, clean_deref]
          cases hm : p.master with
          | none => simp [Fault.ofGid]
          | some m =>
            simp only [reduceCtorEq, false_implies, true_and, deref_result_ok,
              some.injEq, forall_eq', isSome_some]
            exact clean_mergedReplid hp

theorem clean_crdtMergeEndCommand : (crdtMergeEndCommand clientGid qps s argv).Clean ↔
      (GidUnreadable argv → s.iAmMaster = false) ∧
        ∀ gid ∈ namedGid argv, (s.iAmMaster = true → checkGid gid = true) ∧
          (checkGid gid = true → ∀ p ∈ peerAt s gid, ClockAndOffset argv → p.master.isSome ∧
            (ReplidFits argv → s.iAmMaster = true →
              checkGid clientGid = true ∧ (peerAt s clientGid).isSome)) := by
  refine clean_withGid ?_ ?_
  · intro text hg
    simp only [hg]
    rw [clean_mergeError]
    simp [show checkGid (-1) = false by decide]
  · intro text gid hg
    simp only [hg]
    cases hv : asGid gid with
    | none =>
      have hno : checkGid gid = false := by rw [checkGid_eq, hv]; rfl
      rw [clean_mergeError]
      simp [hno]
    | some g =>
      have hyes : checkGid gid = true := by rw [checkGid_eq, hv]; rfl
      obtain ⟨i, hi, hpeer⟩ := slot_ok hyes
      simp only [hyes, hpeer, implies_true, true_and, forall_const]
      rw [clean_slot_bind hyes hi]
      cases hp : s.crdtMasters i with
      | none =>
        rw [clean_mergeError]
        simp [hyes]
      | some p =>
        simp only [Option.mem_def, some.injEq, forall_eq']
        exact clean_mergedClock hp

/-! ## The commands that merge objects -/

section objects

open Merge

variable {Obj : Type} {M : Module Obj} {s : CrdtServer} {db : Db Obj} {argv : Argv}

variable {gid : Int}

theorem clean_getPeerMaster : (getPeerMaster s gid).Clean ↔ checkGid gid = true := by
  unfold getPeerMaster
  rw [clean_bind, clean_slot]
  exact and_iff_left fun i _ => clean_pure _

theorem clean_mergeFails :
    (mergeFails s db gid).Clean ↔ (s.iAmMaster = true → checkGid gid = true) := by
  unfold mergeFails
  split
  · rename_i hm
    rw [clean_bind, clean_crdtCancelReplicationHandshake]
    simp [hm, clean_pure]
  · rename_i hm
    simp [hm, clean_pure]

theorem clean_mergeDelFails : (mergeDelFails s db gid).Clean ↔ checkGid gid = true := by
  unfold mergeDelFails
  rw [clean_bind, clean_crdtCancelReplicationHandshake]
  exact and_iff_left fun _ _ => clean_pure _

theorem clean_mergeCrdtObjectCommand {env : MergeEnv} :
    (mergeCrdtObjectCommand M env s db argv).Clean ↔ (GidUnreadable argv → s.iAmMaster = false) ∧
        ∀ gid ∈ namedGid argv, s.iAmMaster = true → checkGid gid = true := by
  refine clean_withGid ?_ ?_
  · intro text hg
    simp only [hg]
    split
    · rename_i hm
      simp [hm, clean_fail, Fault.ofGid]
    · rename_i hm
      simp [hm, clean_pure]
  · intro text gid hg
    simp only [hg]
    split
    · rename_i hyes
      -- with a gid in range no exit can go wrong
      have hfails : (mergeFails s db gid).Clean := clean_mergeFails.2 fun _ => hyes
      refine iff_of_true (clean_bind.2 ⟨clean_getPeerMaster.2 hyes, fun o _ => ?_⟩) fun _ => hyes
      cases o with
      | none => exact hfails
      | some p =>
        refine clean_arg_bind.2 fun key _ => clean_arg_bind.2 fun time _ => ?_
        cases string2ll time with
        | none => exact hfails
        | some expireTime =>
          refine clean_arg_bind.2 fun payload _ => ?_
          cases M.load payload with
          | bad => exact hfails
          | foreign => exact clean_fail.2 rfl
          | object obj =>
            dsimp only
            split
            · exact clean_pure _
            · exact clean_fail.2 rfl
    · exact clean_mergeFails

theorem clean_crdtMergeTomstoneCommand : (crdtMergeTomstoneCommand M s db argv).Clean ↔
      ¬ GidUnreadable argv ∧ ∀ gid ∈ namedGid argv, checkGid gid = true := by
  refine clean_withGid  ?_ ?_
  · intro text hg
    simp only [hg]
    simp [clean_fail, Fault.ofGid]
  · intro text gid hg
    simp only [hg]
    rw [clean_bind, clean_getPeerMaster]
    refine and_iff_left_of_imp fun hyes o _ => ?_
    have hfails : (mergeDelFails s db gid).Clean := clean_mergeDelFails.2 hyes
    cases o with
    | none => exact hfails
    | some p =>
      refine clean_arg_bind.2 fun key _ => clean_arg_bind.2 fun payload _ => ?_
      cases M.load payload with
      | bad => exact hfails
      | foreign => exact clean_fail.2 rfl
      | object obj => exact clean_pure _

end objects

/-! ## Error exits -/

def Reply.isError : Reply → Bool
  | .error _ => true
  | .status _ => false

/-- A `PEEROF` that does not come to use its gid replies an error. -/
theorem peerofCommand_refuses {r : Reply × CrdtServer} (hnone : peerofGid env s argv = none)
    (h : (peerofCommand env s argv).result = .ok r) : r.1.isError = true := by
  match argv, hnone, h with
  | [], _, h | [_], _, h | [_, _], _, h | [_, _, _], _, h => cases h
  | cmd :: gidText :: host :: portText :: words, hnone, h =>
    simp only [peerofCommand, peerofGid] at h hnone
    split at h
    · cases h
      rfl
    rename_i hcluster
    rw [if_neg hcluster] at hnone
    cases hgid : string2ll gidText with
    | none =>
      simp only [hgid] at h
      cases h
      rfl
    | some gid =>
      simp only [hgid] at h hnone
      split at h
      · cases h
        rfl
      rename_i hown
      simp only [Option.filter, hown, ne_eq, not_false_iff, true_and, decide_eq_true_eq,
        ite_eq_right_iff, reduceCtorEq, imp_false, not_or] at hnone
      obtain ⟨hone, hopts⟩ := hnone
      rw [if_neg (by simpa using hone)] at h
      cases hport : string2ll portText with
      | none =>
        simp only [hport] at h
        cases h
        rfl
      | some port =>
        simp only [hport, isSome_some, true_and] at h hopts
        have hloop := peerofOptions_server s words
        obtain ⟨⟨e, o⟩, ho, h⟩ := bind_result_ok.1 h
        rw [hloop] at ho
        cases hread : optionsOf s.crdtGid words with
        | error e => simp [hread, Except.map] at ho
        | ok eo =>
          obtain ⟨e', o'⟩ := eo
          simp only [hread, Except.map, Except.ok.injEq, Prod.mk.injEq] at ho
          cases e' with
          | none => exact absurd (by rw [optionsAccepted, hread]) hopts
          | some text =>
            rw [← ho.1] at h
            cases h
            rfl

/-- The gid is no gid, or not that of a configured peer. -/
def NoSuchPeer (s : CrdtServer) (argv : Argv) : Prop :=
  ∀ gid ∈ namedGid argv, checkGid gid = true → peerAt s gid = none

/-- A slot without a peer. -/
theorem peerAt_none (hi : (slot gid).result = .ok i) (h : peerAt s gid = none) :
    s.crdtMasters i = none := by
  rw [peerAt, hi] at h
  exact h

theorem Names.crdtMasters_eq_none {gid : Clock.Gid} {sourceGid : Int}
    (h : Names argv sourceGid gid i) (hno : NoSuchPeer s argv) : s.crdtMasters i = none := by
  have hgid : checkGid sourceGid = true := by
    rw [checkGid_eq, h.isGid]
    rfl
  exact peerAt_none h.slot (hno sourceGid h.read hgid)

theorem crdtMergeStartCommand_refuses {uninitialized : Bytes} (hno : NoSuchPeer s argv)
    (h : (crdtMergeStartCommand uninitialized s argv).result = .ok r) : r.1 = .error := by
  rcases readsGid_ok h with h | ⟨_, -, -, h⟩ | ⟨_, _, _, hi, h⟩
  · exact (mergeError_ok h).1
  · exact (mergeError_ok h).1
  · obtain ⟨p, hp, -⟩ := bind_result_ok.1 h
    rw [deref_result_ok, hi.crdtMasters_eq_none hno] at hp
    cases hp

theorem crdtMergeEndCommand_refuses (hno : NoSuchPeer s argv)
    (h : (crdtMergeEndCommand clientGid qps s argv).result = .ok r) : r.1 = .error := by
  rcases crdtMergeEndCommand_ok h with ⟨he, -⟩ | ⟨_, _, _, _, hi, hp, -⟩
  · exact he
  · cases (hi.crdtMasters_eq_none hno).symm.trans hp

theorem peerChangeCommand_refuses (hno : NoSuchPeer s argv)
    (h : (peerChangeCommand s argv).result = .ok r) : r.1 = .error := by
  rcases readsGid_ok h with h | ⟨_, -, -, h⟩ | ⟨_, _, _, hi, h⟩
  · cases h
    rfl
  · cases h
    rfl
  · obtain ⟨p, hp, -⟩ := bind_result_ok.1 h
    rw [deref_result_ok, hi.crdtMasters_eq_none hno] at hp
    cases hp

section objects

open Merge

variable {Obj : Type} {M : Module Obj} {s : CrdtServer} {db : Db Obj} {argv : Argv}

variable {r : Merged Obj}

theorem mergeFails_refuses {gid : Int} (h : (mergeFails s db gid).result = .ok r) :
    r.exit = .error := by
  unfold mergeFails at h
  split at h
  · obtain ⟨s', -, h⟩ := bind_result_ok.1 h
    cases h
    rfl
  · cases h
    rfl

theorem mergeCrdtObjectCommand_refuses {env : MergeEnv} (hno : NoSuchPeer s argv)
    (h : (mergeCrdtObjectCommand M env s db argv).result = .ok r) : r.exit = .error := by
  obtain ⟨text, ht, h⟩ := bind_result_ok.1 h
  rw [arg_ok] at ht
  cases hg : string2ll text with
  | none =>
    simp only [hg] at h
    split at h <;> cases h
    rfl
  | some gid =>
    have hnamed : namedGid argv = some gid := by rw [namedGid, ht]; exact hg
    simp only [hg] at h
    split at h
    · rename_i hyes
      obtain ⟨o, ho, h⟩ := bind_result_ok.1 h
      obtain ⟨i, hi, ho⟩ := bind_result_ok.1 ho
      cases ho
      simp only [peerAt_none hi (hno gid hnamed hyes)] at h
      exact mergeFails_refuses h
    · exact mergeFails_refuses h

theorem crdtMergeTomstoneCommand_refuses (hclean : (crdtMergeTomstoneCommand M s db argv).Clean)
    (hno : NoSuchPeer s argv) (h : (crdtMergeTomstoneCommand M s db argv).result = .ok r) :
    r.exit = .error := by
  obtain ⟨hread, hrange⟩ := clean_crdtMergeTomstoneCommand.1 hclean
  -- the gid is in range, so that it is the peer that is missing
  have hno' : ∀ gid ∈ namedGid argv, peerAt s gid = none := fun gid hg => hno gid hg (hrange gid hg)
  obtain ⟨text, ht, h⟩ := bind_result_ok.1 h
  rw [arg_ok] at ht
  cases hg : string2ll text with
  | none => exact absurd ⟨text, ht, hg⟩ hread
  | some gid =>
    have hnamed : namedGid argv = some gid := by rw [namedGid, ht]; exact hg
    simp only [hg] at h
    obtain ⟨o, ho, h⟩ := bind_result_ok.1 h
    obtain ⟨i, hi, ho⟩ := bind_result_ok.1 ho
    cases ho
    simp only [peerAt_none hi (hno' gid hnamed)] at h
    obtain ⟨s', -, h⟩ := bind_result_ok.1 h
    cases h
    rfl

end objects

/-! ## The gid of a client -/

section client

variable {σ : Type} (P : Net.Procs σ) {n : Net.Node σ}

theorem crdtMergeEndCommand_clientGid (n : Net.Node σ) (argv : Argv) :
    (Net.crdtMergeEndCommand n argv).c.gid = n.c.gid := by
  have hset : ∀ (n : Net.Node σ) g off, (Net.setPeerOffset n g off).c.gid = n.c.gid := by
    intro n g off
    unfold Net.setPeerOffset
    split <;> rfl
  have hconnect : ∀ (n : Net.Node σ) g, (Net.connectPeer n g).c.gid = n.c.gid := by
    intro n g
    unfold Net.connectPeer
    split <;> rfl
  unfold Net.crdtMergeEndCommand
  repeat' split
  all_goals first | rfl | rw [hconnect, hset]

/-- A client that has a gid keeps it through every command that is no transaction. -/
theorem callPlain_clientGid (h : n.c.gid ≠ -1) (cmd : Net.Command) (argv : Argv) :
    (callPlain P n cmd argv).c.gid = n.c.gid := by
  have hverbatim : ∀ g, verbatimGid n.c.gid g = n.c.gid := fun g => if_neg h
  unfold callPlain
  dsimp only
  split
  · rw [crdtMergeEndCommand_clientGid]
    exact hverbatim _
  · exact hverbatim _

theorem execTransaction_clientGid (h : n.c.gid ≠ -1) :
    (execTransaction P n).c.gid = n.c.gid := by
  -- by induction on the queue, from any node
  have hqueue : ∀ (queue : List (Net.Command × Argv)) (n : Net.Node σ), n.c.gid ≠ -1 →
      (queue.foldl (fun n q => callPlain P n q.1 q.2) n).c.gid = n.c.gid := by
    intro queue
    induction queue with
    | nil => intro n _; rfl
    | cons q queue ih =>
      intro n hn
      have hq := callPlain_clientGid P hn q.1 q.2
      rw [List.foldl_cons, ih _ (by rwa [hq]), hq]
  unfold execTransaction
  show (if _ then n else _ : Net.Node σ).c.gid = _
  split
  · rfl
  · exact hqueue _ n h

/-- The gid that `CRDT.EXEC` gives the executing client. -/
def execSetsGid (c : Net.Client) (argv : Argv) : Option Int :=
  if c.multi then Net.execGid argv else none

/-- Without a gid that passes `check_gid` a `CRDT.EXEC` does nothing. -/
theorem crdtExecCommand_cases (n : Net.Node σ) (argv : Argv) :
    (execSetsGid n.c argv = none ∧ Net.crdtExecCommand P n argv = n) ∨
      ∃ g, execSetsGid n.c argv = some g ∧ g ≠ -1 ∧ Net.crdtExecCommand P n argv =
          Net.execTransaction P { n with c := { n.c with gid := g } } := by
  unfold Net.crdtExecCommand execSetsGid
  by_cases hm : n.c.multi = true
  · rw [if_neg (not_not_intro hm), if_pos hm]
    cases hg : Net.execGid argv with
    | none => exact .inl ⟨rfl, rfl⟩
    | some g =>
      obtain ⟨_, _, -, -, hok⟩ := Net.execGid_eq_some hg
      exact .inr ⟨g, rfl, Net.ne_neg_one_of_checkGid hok, rfl⟩
  · exact .inl ⟨if_neg hm, if_pos hm⟩

/-- The only command that gives a client with a gid another one is `CRDT.EXEC`. -/
theorem call_clientGid (h : n.c.gid ≠ -1) (cmd : Net.Command) (argv : Argv) :
    (call P n cmd argv).c.gid = n.c.gid ↔
      (cmd.proc = .crdtExecCommand → ∀ g ∈ execSetsGid n.c argv, g = n.c.gid) := by
  unfold call
  cases hproc : cmd.proc with
  | crdtExecCommand =>
    simp only [forall_const]
    rcases crdtExecCommand_cases P n argv with ⟨hnone, hsame⟩ | ⟨g, hg, hne, hrun⟩
    · simp [hnone, hsame]
    · have hgid : (execTransaction P { n with c := { n.c with gid := g } }).c.gid = g :=
        execTransaction_clientGid P (n := { n with c := { n.c with gid := g } }) hne
      simp [hg, hrun, hgid]
  | execCommand =>
    refine iff_of_true ?_ (by simp)
    show (execCommand P n).c.gid = _
    unfold execCommand
    split
    · rfl
    · exact execTransaction_clientGid P h
  | discardCommand =>
    refine iff_of_true ?_ (by simp)
    dsimp only
    split <;> rfl
  | multiCommand => exact iff_of_true rfl (by simp)
  | _ => exact iff_of_true (callPlain_clientGid P h cmd argv) (by simp)

end client

/-! ## The seven commands -/

/-- The commands that take a gid. `client` is any command with its effect on the
executing client; it stands for `CRDT.EXEC` too. -/
inductive GidCommand (Obj σ : Type)
  | peerof (env : PeerofEnv)
  | mergeStart (uninitialized : Bytes)
  | mergeEnd (qps : Nat)
  | merge (M : Merge.Module Obj) (env : Merge.MergeEnv) (db : Merge.Db Obj)
  | mergeDel (M : Merge.Module Obj) (db : Merge.Db Obj)
  | peerChange
  | client (P : Net.Procs σ) (cmd : Net.Command)

/-- A handler uses indices in range and what exists, and where its gid is of no use
it ends in its error exit. -/
structure Guarded {α : Type} (t : Trace α) (useless : Prop) (refused : α → Prop) : Prop where
  clean : t.Clean
  refuses : useless → ∀ a, t.result = .ok a → refused a

theorem guarded_iff {α : Type} {t : Trace α} {useless cond : Prop} {refused : α → Prop}
    (hclean : t.Clean ↔ cond) (href : t.Clean → useless → ∀ a, t.result = .ok a → refused a) :
    Guarded t useless refused ↔ cond :=
  ⟨fun h => hclean.1 h.clean, fun h => ⟨hclean.2 h, href (hclean.2 h)⟩⟩

namespace GidCommand

variable {Obj σ : Type}

/-- What is asked of a command: a gid is used only after it was found to be one, and
the gid of the client of a peer stays as it is. -/
def Safe (s : CrdtServer) (n : Net.Node σ) (argv : Argv) : GidCommand Obj σ → Prop
  | peerof env => Guarded (peerofCommand env s argv)
      (∀ gid ∈ namedGid argv, checkGid gid = false) fun r => r.1.isError = true
  | mergeStart uninitialized => Guarded (crdtMergeStartCommand uninitialized s argv)
      (NoSuchPeer s argv) fun r => r.1 = .error
  | mergeEnd qps => Guarded (crdtMergeEndCommand n.c.gid qps s argv)
      (NoSuchPeer s argv) fun r => r.1 = .error
  | merge M env db => Guarded (Merge.mergeCrdtObjectCommand M env s db argv)
      (NoSuchPeer s argv) fun r => r.exit = .error
  | mergeDel M db => Guarded (Merge.crdtMergeTomstoneCommand M s db argv)
      (NoSuchPeer s argv) fun r => r.exit = .error
  | peerChange => Guarded (peerChangeCommand s argv) (NoSuchPeer s argv) fun r => r.1 = .error
  | client P cmd =>
    (cmd.proc = .crdtExecCommand → (∀ gid ∈ namedGid argv, checkGid gid = false) →
      Net.call P n cmd argv = n) ∧
    (n.c.isCrdtMaster = true → (Net.call P n cmd argv).c.gid = n.c.gid)

/-- When that is so. -/
def SafeWhen (s : CrdtServer) (n : Net.Node σ) (argv : Argv) : GidCommand Obj σ → Prop
  | peerof env => ∀ gid ∈ peerofGid env s argv, checkGid gid = true
  | mergeStart _ =>
    (GidUnreadable argv → s.iAmMaster = false) ∧
      ∀ gid ∈ namedGid argv, (s.iAmMaster = true → checkGid gid = true) ∧
        (checkGid gid = true → (peerAt s gid).isSome)
  | mergeEnd _ =>
    (GidUnreadable argv → s.iAmMaster = false) ∧
      ∀ gid ∈ namedGid argv, (s.iAmMaster = true → checkGid gid = true) ∧
        (checkGid gid = true → ∀ p ∈ peerAt s gid, ClockAndOffset argv → p.master.isSome ∧
          (ReplidFits argv → s.iAmMaster = true →
            checkGid n.c.gid = true ∧ (peerAt s n.c.gid).isSome))
  | merge _ _ _ =>
    (GidUnreadable argv → s.iAmMaster = false) ∧
      ∀ gid ∈ namedGid argv, s.iAmMaster = true → checkGid gid = true
  | mergeDel _ _ => ¬ GidUnreadable argv ∧ ∀ gid ∈ namedGid argv, checkGid gid = true
  | peerChange =>
    ∀ gid ∈ namedGid argv, checkGid gid = true → ∃ p, peerAt s gid = some p ∧ p.master.isSome
  | client _ cmd => n.c.isCrdtMaster = true → cmd.proc = .crdtExecCommand →
      ∀ g ∈ execSetsGid n.c argv, g = n.c.gid

end GidCommand

/-- A gid that `PEEROF` uses is the one in its arguments. -/
theorem peerofGid_named (h : peerofGid env s argv = some gid) : namedGid argv = some gid := by
  match argv, h with
  | cmd :: gidText :: host :: portText :: words, h =>
    simp only [peerofGid] at h
    split at h
    · cases h
    · exact (filter_eq_some_iff.1 h).1

/-- Exactly when a command uses its gid, and that of its client, as it should. -/
theorem gid_checked_iff {Obj σ : Type} (x : GidCommand Obj σ) (s : CrdtServer) (n : Net.Node σ)
    (argv : Argv) (hlink : n.c.isCrdtMaster = true → n.c.gid ≠ -1) :
    x.Safe s n argv ↔ x.SafeWhen s n argv := by
  cases x with
  | peerof env =>
    refine guarded_iff clean_peerofCommand fun hclean huseless r hr => ?_
    refine peerofCommand_refuses ?_ hr
    cases hused : peerofGid env s argv with
    | none => rfl
    | some gid =>
      have hyes := clean_peerofCommand.1 hclean gid hused
      rw [huseless gid (peerofGid_named hused)] at hyes
      cases hyes
  | mergeStart uninitialized =>
    exact guarded_iff clean_crdtMergeStartCommand fun _ hno r hr =>
      crdtMergeStartCommand_refuses hno hr
  | mergeEnd qps =>
    exact guarded_iff clean_crdtMergeEndCommand fun _ hno r hr =>
      crdtMergeEndCommand_refuses hno hr
  | merge M env db =>
    exact guarded_iff clean_mergeCrdtObjectCommand fun _ hno r hr =>
      mergeCrdtObjectCommand_refuses hno hr
  | mergeDel M db =>
    exact guarded_iff clean_crdtMergeTomstoneCommand fun hclean hno r hr =>
      crdtMergeTomstoneCommand_refuses hclean hno hr
  | peerChange =>
    exact guarded_iff clean_peerChangeCommand fun _ hno r hr => peerChangeCommand_refuses hno hr
  | client P cmd =>
    have hidle : cmd.proc = .crdtExecCommand → (∀ gid ∈ namedGid argv, checkGid gid = false) →
        call P n cmd argv = n := by
      intro hproc huseless
      have hrun : call P n cmd argv = crdtExecCommand P n argv := by
        rw [call, hproc]
      rw [hrun]
      rcases crdtExecCommand_cases P n argv with ⟨-, hsame⟩ | ⟨g, hg, -, -⟩
      · exact hsame
      · unfold execSetsGid at hg
        split at hg
        · obtain ⟨_, _, rfl, htext, hok⟩ := Net.execGid_eq_some hg
          obtain ⟨gid, hnamed, rfl⟩ := map_eq_some_iff.1 htext
          cases hok.symm.trans (huseless gid hnamed)
        · cases hg
    refine (and_iff_right hidle).trans (forall_congr' fun hc => ?_)
    exact call_clientGid P (hlink hc) cmd argv

/-- `CRDT.EXEC 2` on the link to the peer 2 leaves the gid alone. -/
theorem gid_checked_own_link :
    (GidCommand.client Net.noModule (Net.tableEntry "crdt.exec" .crdtExecCommand 2 "sM") :
      GidCommand Unit Unit).Safe loneNode
      { Net.connectedNode with c := { Net.connectedNode.c with multi := true } }
      [ascii "CRDT.EXEC", ascii "2"] := by
  refine (gid_checked_iff _ _ _ _ (fun _ => by decide)).2 ?_
  show _ → _ → _
  intro _ _
  decide

/-- `PEEROF 100 10.0.0.2 6379` writes beyond the end of `crdtMasters`. -/
theorem peerof_index_out_of_range :
    ¬ ∀ (x : GidCommand Unit Unit) s n argv, (n.c.isCrdtMaster = true → n.c.gid ≠ -1) →
      x.Safe s n argv := by
  intro h
  have hsafe := h (.peerof ⟨false, none, []⟩) loneNode connectedNode
    [ascii "PEEROF", ascii "100", ascii "10.0.0.2", ascii "6379"] (fun _ => by decide)
  have hrange := hsafe.clean.1 100 (by decide +kernel)
  omega

end XredisCrdt.Peer
