import XredisCrdt.Peer.Link
import XredisCrdt.Peer.Recovery

/-!
# Closed for writes while a recovery is pending

`crdtServer.loading` closes a node for writes; it is to be set while some peer has a
`backstream_vc` that is not null, that is, while it has to send back data of this
node. `closing` is the system of everything that touches the flag or a
`backstream_vc`: `PEEROF`, the commands of a full sync, the links to peers, changes of
the role, the load of an RDB file, and `peerBackStream` at the start of the process.
The texts of clocks name no gid twice, see `parseClock`.
-/

namespace XredisCrdt.Peer

open Clock Function Option PeerMaster VectorClock

/-! ## The start of the process -/

/-- `get_min_backstream_vcu`; `none` is -1. -/
def getMinBackstreamVcu (s : CrdtServer) : Option Nat :=
  ((List.finRange 16).filterMap fun i =>
    (s.crdtMasters i).bind fun p =>
      if p.backstreaming then some (p.backstreamVc.time s.crdtGid) else none).min?

/-- The larger of the clocks that two peers know of this node, the first of equal
ones. -/
def laterPeer (acc : Option (Fin 16 × Nat)) (i : Fin 16) : Option Nat → Option (Fin 16 × Nat)
  | none => acc
  | some v => if acc.any fun m => v ≤ m.2 then acc else some (i, v)

/-- `max_gid` and `max_vcu` of `peerBackStream`; `vcus` are the answers of the peers,
`none` for one that gave none. -/
def maxPeer (s : CrdtServer) (vcus : Fin 16 → Option Nat) : Option (Fin 16 × Nat) :=
  (List.finRange 16).foldl
    (fun acc i => laterPeer acc i (if (s.crdtMasters i).isSome then vcus i else none)) none

/-- The `backstream_vc` of the peer gets the own gid with the clock `t`. -/
def PeerMaster.backstreamFrom (p : PeerMaster) (own : Gid) (t : Nat) : PeerMaster :=
  { p with backstreamVc := p.backstreamVc.add own t }

/-- A peer that gave no answer is to send everything. -/
def markSilent (s : CrdtServer) (vcus : Fin 16 → Option Nat) : CrdtServer :=
  { s with
    crdtMasters := fun i => (s.crdtMasters i).map fun p =>
      if vcus i = none then p.backstreamFrom s.crdtGid 0 else p }

/-- The peer that knows most is to send everything, the others what is later. -/
def markOthers (s : CrdtServer) (g : Fin 16) (m : Nat) : CrdtServer :=
  { s with
    crdtMasters := fun i => (s.crdtMasters i).map fun p =>
      if i = g then p.backstreamFrom s.crdtGid 0
      else if p.backstreaming then p else p.backstreamFrom s.crdtGid m }

/-- `peerBackStream`, and whether it dropped the data set. -/
def peerBackStream (s : CrdtServer) (nullDb : Bool) (vcus : Fin 16 → Option Nat) :
    CrdtServer × Bool :=
  let loading : Bool := decide (∃ i, (s.crdtMasters i).isSome)
  let latest := maxPeer s vcus
  let s := markSilent s vcus
  let keepable : Bool := !nullDb && s.iAmMaster
  if keepable && latest.all fun m => m.2 ≤ s.vectorClock.time s.crdtGid then
    (cleanSlavePeerBackStream s, false)
  else
    let s := { (if keepable then resetClocks s else s) with loading := loading }
    match latest with
    | none => (s, keepable)
    | some (g, m) => (markOthers s g m, keepable)

/-- `SLAVEOF NO ONE`, and whether it dropped the data set. `connected` says that the
link to the master was up. -/
def slaveofNoOne (s : CrdtServer) (connected nullDb : Bool) (qps : Nat) : CrdtServer × Bool :=
  if s.iAmMaster then (s, false)
  else
    let s := (if connected then jumpVectorClock s qps else s).becomeMaster
    if getMinBackstreamVcu s = some 0 ∧ nullDb = false then (resetClocks s, true) else (s, false)

/-! ## Runs -/

inductive ClosingAct
  | peerof (env : PeerofEnv) (argv : Argv)
  | mergeStart (uninitialized : Bytes) (argv : Argv)
  | mergeEnd (clientGid : Int) (qps : Nat) (argv : Argv)
  | peerChange (argv : Argv)
  | link (i : Fin 16) (act : LinkAct)
  | slaveof (uninitialized : Bytes)
  | slaveofNoOne (connected nullDb : Bool) (qps : Nat)
  /-- The own master answered `+CONTINUE`. -/
  | slaveContinue
  | rdbLoad (uninitialized : Bytes) (file : List PeerAux)
  | peerBackStream (nullDb : Bool) (vcus : Fin 16 → Option Nat)

/-- The state that a handler leaves, unless it faults. -/
def Trace.state? {α : Type} (t : Trace (α × CrdtServer)) : Option CrdtServer :=
  t.result.toOption.map Prod.snd

/-- One step on the link to a peer, which only a master has. -/
def linkNext (s : CrdtServer) (i : Fin 16) (act : LinkAct) : Option CrdtServer :=
  if s.iAmMaster then
    (s.crdtMasters i).bind fun p => (p.linkStep act).map fun q => s.setPeer i (some q)
  else none

def closingNext (s : CrdtServer) : ClosingAct → Option CrdtServer
  | .peerof env argv => (peerofCommand env s argv).state?
  | .mergeStart uninitialized argv => (crdtMergeStartCommand uninitialized s argv).state?
  | .mergeEnd clientGid qps argv => (crdtMergeEndCommand clientGid qps s argv).state?
  | .peerChange argv => (peerChangeCommand s argv).state?
  | .link i act => linkNext s i act
  | .slaveof uninitialized => some (s.becomeSlave uninitialized)
  | .slaveofNoOne connected nullDb qps => some (slaveofNoOne s connected nullDb qps).1
  | .slaveContinue => some (cleanSlavePeerBackStream s)
  | .rdbLoad uninitialized file => rdbLoadPeers uninitialized s file
  | .peerBackStream nullDb vcus => some (peerBackStream s nullDb vcus).1

/-- Runs from the configured peers, none of which has a `backstream_vc`. -/
def closing : Lib.System CrdtServer ClosingAct where
  init s := s.loading = false ∧ ∀ i p, s.crdtMasters i = some p → p.backstreaming = false
  next := closingNext

/-- The peer that the gid of a command names. -/
def peerNamed (s : CrdtServer) (gidText : Bytes) : Option PeerMaster :=
  (string2ll gidText).bind fun gid => (slot gid).result.toOption.bind s.crdtMasters

/-- A `backstream` of a `PEEROF` to a node that is not closed is followed by no option
that is refused, and by no early exit for a connection that is kept. -/
def TakesEffect (s : CrdtServer) : ClosingAct → Prop
  | .peerof _ (_ :: gidText :: host :: portText :: words) =>
    s.loading = true ∨ isNoOne host portText = true ∨
    match optionsOf s.crdtGid words with
    | .error _ => True
    | .ok (some _, o) => o.loading = false
    | .ok (none, o) =>
      o.loading = false ∨ ∀ p ∈ peerNamed s gidText, ∀ port ∈ string2ll portText,
        p.sameMaster host port = true → keepConnected p o.proxy = none
  | _ => True

/-! ## Steps -/

section steps

variable {s s' : CrdtServer}

variable {argv : Argv} {e : Exit} {i : Fin 16} {p q : PeerMaster} {uninitialized : Bytes}

theorem recovering_iff :
    s.recovering = true ↔ ∃ i p, s.crdtMasters i = some p ∧ p.backstreamVc.units ≠ [] := by
  simp [CrdtServer.recovering, Option.any_eq_true, backstreaming]

theorem setPeer_none_some {j : Fin 16} (h : (s.setPeer i none).crdtMasters j = some p) :
    s.crdtMasters j = some p := by
  rcases update_eq_some h with ⟨-, ⟨⟩⟩ | ⟨-, h⟩
  exact h

/-- The flag is right. -/
def CrdtServer.FlagRight (s : CrdtServer) : Prop := s.loading = s.recovering

/-- A peer that waits in `s'` is one that waits in `s`. -/
theorem recovering_mono (h : ∀ i p, s'.crdtMasters i = some p → p.backstreamVc.units ≠ [] → ∃ q,
      s.crdtMasters i = some q ∧ q.backstreamVc.units ≠ [])
    (hr : s'.recovering = true) : s.recovering = true := by
  obtain ⟨i, p, hp, hb⟩ := recovering_iff.1 hr
  obtain ⟨q, hq, hbq⟩ := h i p hp hb
  exact recovering_iff.2 ⟨i, q, hq, hbq⟩

/-- A step that changes neither the flag nor a `backstream_vc`; peers that do not wait
may come and go. -/
theorem CrdtServer.FlagRight.frame (h : s.FlagRight) (hl : s'.loading = s.loading)
    (hto : ∀ i p, s.crdtMasters i = some p → p.backstreamVc.units ≠ [] → ∃ q,
      s'.crdtMasters i = some q ∧ q.backstreamVc.units ≠ [])
    (hfrom : ∀ i p, s'.crdtMasters i = some p → p.backstreamVc.units ≠ [] → ∃ q,
      s.crdtMasters i = some q ∧ q.backstreamVc.units ≠ []) : s'.FlagRight := by
  unfold FlagRight at *
  rw [hl, h, Bool.eq_iff_iff]
  exact ⟨recovering_mono hto, recovering_mono hfrom⟩

theorem tryClean_flagRight (h : s.recovering = true → s.loading = true) :
    (tryCleanCrdtServerLoading s).FlagRight := by
  unfold CrdtServer.FlagRight
  rw [tryClean_eq]
  show (s.recovering && s.loading) = s.recovering
  cases hr : s.recovering with
  | false => rfl
  | true => simp [h hr]

/-- One peer replaced by one with the same `backstream_vc`. -/
theorem CrdtServer.FlagRight.setPeer (h : s.FlagRight) (hp : s.crdtMasters i = some p)
    (hq : q.backstreamVc = p.backstreamVc)
    (hs' : s'.crdtMasters = update s.crdtMasters i (some q)) (hl : s'.loading = s.loading) :
    s'.FlagRight := by
  refine h.frame hl ?_ ?_
  · intro j p' hj hb
    rw [hs']
    by_cases hji : j = i
    · subst hji
      cases hp.symm.trans hj
      exact ⟨q, update_self .., hq ▸ hb⟩
    · exact ⟨p', by rw [update_of_ne hji, hj], hb⟩
  · intro j p' hj hb
    rw [hs'] at hj
    rcases update_eq_some hj with ⟨rfl, ⟨⟩⟩ | ⟨-, hj⟩
    · exact ⟨p, hp, hq ▸ hb⟩
    · exact ⟨p', hj, hb⟩

/-- A peer added that does not wait. -/
theorem CrdtServer.FlagRight.newPeer (h : s.FlagRight) (hp : s.crdtMasters i = none)
    (hq : q.backstreamVc.units = []) (hs' : s'.crdtMasters = update s.crdtMasters i (some q))
    (hl : s'.loading = s.loading) : s'.FlagRight := by
  refine h.frame hl ?_ ?_
  · intro j p hj hb
    have hji : j ≠ i := fun hji => by rw [hji, hp] at hj; cases hj
    exact ⟨p, by rw [hs', update_of_ne hji, hj], hb⟩
  · intro j p hj hb
    rw [hs'] at hj
    rcases update_eq_some hj with ⟨rfl, ⟨⟩⟩ | ⟨-, hj⟩
    · exact absurd hq hb
    · exact ⟨p, hj, hb⟩

/-- Every peer replaced by one with the same `backstream_vc`. -/
theorem CrdtServer.FlagRight.mapPeers (h : s.FlagRight) {f : PeerMaster → PeerMaster}
    (hf : ∀ p, (f p).backstreamVc = p.backstreamVc)
    (hs' : s'.crdtMasters = fun i => (s.crdtMasters i).map f)
    (hl : s'.loading = s.loading) : s'.FlagRight := by
  refine h.frame hl ?_ ?_
  · intro i p hp hb
    exact ⟨f p, by simp only [hs', hp, map_some], by rw [hf]; exact hb⟩
  · intro i p hp hb
    rw [hs'] at hp
    obtain ⟨q, hq, rfl⟩ := map_eq_some_iff.1 hp
    exact ⟨q, hq, by rw [← hf]; exact hb⟩

/-- A peer removed: it is not waited for any more. -/
theorem CrdtServer.FlagRight.unsetMaster (h : s.FlagRight) (i : Fin 16) :
    (crdtReplicationUnsetMaster s i).FlagRight := by
  unfold crdtReplicationUnsetMaster
  split
  · exact h
  · refine tryClean_flagRight fun hr => ?_
    have hl : (s.setPeer i none).loading = s.loading := rfl
    rw [hl, h]
    refine recovering_mono ?_ hr
    intro j p hj hb
    exact ⟨p, setPeer_none_some hj, hb⟩

theorem freeMaster_sameClocks (p : PeerMaster) : p.freeMaster.SameClocks p := by
  unfold freeMaster cacheMaster
  split
  · exact ⟨rfl, rfl⟩
  · split
    · split <;> exact ⟨rfl, rfl⟩
    · exact ⟨rfl, rfl⟩

theorem readPsync_sameClocks {reply : PsyncReply} (h : p.readPsync uninitialized reply = some q) :
    q.SameClocks p := by
  cases reply with
  | fullResync replid offset =>
    cases h
    unfold startTransfer
    split <;> exact ⟨rfl, rfl⟩
  | resume text =>
    obtain ⟨c, -, rfl⟩ := map_eq_some_iff.1 h
    exact ⟨rfl, rfl⟩
  | tryLater =>
    cases h
    exact ⟨rfl, rfl⟩
  | other =>
    cases h
    exact ⟨rfl, rfl⟩

/-- Nothing on a link touches the clocks of the peer. -/
theorem linkStep_sameClocks {act : LinkAct} (h : p.linkStep act = some q) : q.SameClocks p := by
  cases act with
  | advance =>
    simp only [linkStep] at h
    split at h <;> cases h <;> exact ⟨rfl, rfl⟩
  | sendPsync =>
    obtain ⟨-, h⟩ := ite_none_right_eq_some.1 h
    cases h
    exact ⟨rfl, rfl⟩
  | readPsync uninitialized reply =>
    simp only [linkStep, ite_none_right_eq_some] at h
    exact readPsync_sameClocks h.2
  | giveUp =>
    obtain ⟨-, h⟩ := ite_none_right_eq_some.1 h
    cases h
    exact ⟨rfl, rfl⟩
  | cancel =>
    cases h
    exact cancelHandshake_sameClocks p
  | close =>
    cases h
    exact ⟨rfl, rfl⟩
  | disconnect =>
    cases h
    exact freeMaster_sameClocks p

theorem cacheForRole_sameClocks (p : PeerMaster) : p.cacheForRole.SameClocks p := by
  unfold cacheForRole cacheMaster
  split
  · exact ⟨rfl, rfl⟩
  · split <;> exact ⟨rfl, rfl⟩

theorem CrdtServer.FlagRight.mergeStart (h : s.FlagRight)
    (hres : (crdtMergeStartCommand uninitialized s argv).result = .ok (e, s')) : s'.FlagRight := by
  rcases crdtMergeStartCommand_ok hres with ⟨-, rfl | ⟨i, p, hp, rfl⟩⟩ |
    ⟨i, p, gid, vclock, hp, -, -, -, rfl⟩
  · exact h
  · exact h.setPeer hp (cancelHandshake_sameClocks p).backstreamVc rfl rfl
  · exact h.setPeer (q := { p with
      cachedMaster := none
      master := if s.iAmMaster then p.master else some (createFakeClient uninitialized) })
      hp rfl rfl rfl

/-- The end of a sync with a peer that was waited for: the flag is recomputed. -/
theorem finishBackstream_flagRight (h : s.FlagRight) (i : Fin 16) (p : PeerMaster) (qps : Nat) :
    (finishBackstream s i p qps).FlagRight := by
  obtain ⟨v, w, heq⟩ := finishBackstream_eq s i p qps
  rw [heq]
  refine tryClean_flagRight fun hrec => ?_
  -- whoever is still waited for was so before
  refine h.trans (recovering_mono ?_ hrec)
  intro j q hj hb
  rcases update_eq_some hj with ⟨rfl, ⟨⟩⟩ | ⟨-, hj⟩
  · exact absurd rfl hb
  · exact ⟨q, hj, hb⟩

/-- The state of a link is not looked at. -/
theorem CrdtServer.FlagRight.connectPeer (h : s.FlagRight) (i : Fin 16) :
    (Peer.connectPeer s i).FlagRight := by
  unfold Peer.connectPeer
  split
  · cases hp : s.crdtMasters i with
    | none =>
      have hid : update s.crdtMasters i none = s.crdtMasters := by
        rw [← hp, update_eq_self]
      simp only [map_none, hid]
      exact h
    | some p => exact h.setPeer (q := { p with replState := .connected }) hp rfl rfl rfl
  · exact h

theorem CrdtServer.FlagRight.mergeEnd (h : s.FlagRight) {clientGid : Int} {qps : Nat}
    (hres : (crdtMergeEndCommand clientGid qps s argv).result = .ok (e, s')) : s'.FlagRight := by
  rcases crdtMergeEndCommand_ok hres with ⟨-, rfl | ⟨i, p, hp, rfl⟩⟩ |
    ⟨sourceGid, gid, i, p, -, hp, text, vclock, -, -, ⟨-, -, rfl⟩ |
      ⟨m, id, id₁, id₂, off, -, -, -, -, -, rfl⟩⟩
  · exact h
  · exact h.setPeer hp (cancelHandshake_sameClocks p).backstreamVc rfl rfl
  · exact h.setPeer (q := { p with vectorClock := vclock }) hp rfl rfl rfl
  · have hsynced : ((takeMergedClock s i p gid vclock).setPeer i
        (some (p.synced m vclock id₁ id₂ off))).FlagRight := by
      refine h.setPeer (q := p.synced m vclock id₁ id₂ off) hp rfl ?_ rfl
      exact update_idem ..
    apply CrdtServer.FlagRight.connectPeer
    unfold syncedServer
    dsimp only
    split
    · exact finishBackstream_flagRight hsynced i _ qps
    · exact hsynced

theorem CrdtServer.FlagRight.peerChange (h : s.FlagRight)
    (hres : (peerChangeCommand s argv).result = .ok (e, s')) : s'.FlagRight := by
  rcases peerChangeCommand_ok hres with rfl | ⟨i, p, m, text, id₁, id₂, hp, -, -, -, -, rfl⟩
  · exact h
  · exact h.setPeer (q := { p with
      master := some { m with replid := id₁ }
      masterReplid := id₂ }) hp rfl rfl rfl

theorem CrdtServer.FlagRight.link (h : s.FlagRight) {act : LinkAct}
    (hnext : linkNext s i act = some s') : s'.FlagRight := by
  simp only [linkNext, ite_none_right_eq_some, bind_eq_some_iff, map_eq_some_iff] at hnext
  obtain ⟨-, p, hp, q, hq, rfl⟩ := hnext
  exact h.setPeer hp (linkStep_sameClocks hq).backstreamVc rfl rfl

theorem CrdtServer.FlagRight.becomeSlave (h : s.FlagRight) (uninitialized : Bytes) :
    (s.becomeSlave uninitialized).FlagRight := by
  unfold CrdtServer.becomeSlave
  split
  · exact h.mapPeers (f := (·.stateReset uninitialized)) (fun _ => rfl) rfl rfl
  · exact h

theorem CrdtServer.FlagRight.becomeMaster (h : s.FlagRight) : s.becomeMaster.FlagRight := by
  unfold CrdtServer.becomeMaster
  split
  · exact h
  · exact h.mapPeers (fun p => (cacheForRole_sameClocks p).backstreamVc) rfl rfl

theorem CrdtServer.FlagRight.noOne (h : s.FlagRight) (connected nullDb : Bool) (qps : Nat) :
    (slaveofNoOne s connected nullDb qps).1.FlagRight := by
  unfold slaveofNoOne
  split
  · exact h
  · have hjump : (if connected then jumpVectorClock s qps else s).FlagRight := by
      split <;> exact h
    generalize (if connected then jumpVectorClock s qps else s) = t at hjump
    dsimp only
    split <;> exact hjump.becomeMaster

theorem cleanSlavePeerBackStream_flagRight : (cleanSlavePeerBackStream s).FlagRight := by
  show false = (cleanSlavePeerBackStream s).recovering
  refine (Bool.eq_false_iff.2 fun hr => ?_).symm
  obtain ⟨i, p, hp, hb⟩ := recovering_iff.1 hr
  obtain ⟨q, -, rfl⟩ := map_eq_some_iff.1 (show (s.crdtMasters i).map _ = some p from hp)
  exact hb rfl

/-- The fields about one peer: it does not wait, or waits as before. -/
theorem CrdtServer.FlagRight.loadPeerAux (h : s.FlagRight) {a : PeerAux}
    (hload : Peer.loadPeerAux uninitialized s a = some s') : s'.FlagRight := by
  rcases loadPeerAux_cases hload with rfl | ⟨hp, rfl⟩ | ⟨p, hp, -, rfl⟩
  · exact h
  · refine h.newPeer (q := (createPeerMaster uninitialized).fromAux uninitialized a) hp rfl ?_ ?_
    · rw [CrdtServer.setPeer, addPeerSet_crdtMasters]
    · exact addPeerSet_loading s a.gid
  · exact h.setPeer (q := p.fromAux uninitialized a) hp rfl rfl rfl

theorem CrdtServer.FlagRight.rdbLoad (h : s.FlagRight) {file : List PeerAux}
    (hload : rdbLoadPeers uninitialized s file = some s') :
    s'.FlagRight := by
  refine rdbLoadPeers_invariant ?_ (fun _ => h) ?_ hload
  · intro t a t' _ ht hnext
    exact ht.loadPeerAux hnext
  · -- a slave starts without peers and open
    intro _
    refine (Bool.eq_false_iff.2 fun hr => ?_).symm
    obtain ⟨i, p, hp, -⟩ := recovering_iff.1 hr
    cases hp

theorem foldl_laterPeer (f : Fin 16 → Option Nat) (l : List (Fin 16))
    (acc : Option (Fin 16 × Nat)) :
    (l.foldl (fun acc i => laterPeer acc i (f i)) acc = none ↔ acc = none ∧ ∀ i ∈ l, f i = none) ∧
    ∀ g m, l.foldl (fun acc i => laterPeer acc i (f i)) acc = some (g, m) →
      acc = some (g, m) ∨ f g = some m := by
  induction l generalizing acc with
  | nil => exact ⟨by simp, fun g m h => .inl h⟩
  | cons i l ih =>
    obtain ⟨hnone, hsome⟩ := ih (laterPeer acc i (f i))
    cases hf : f i with
    | none =>
      simp only [hf, laterPeer] at hnone hsome
      simp only [List.foldl_cons, hf, laterPeer, hnone, List.mem_cons, forall_eq_or_imp, true_and]
      exact hsome
    | some v =>
      simp only [hf, laterPeer] at hnone hsome
      simp only [List.foldl_cons, hf, laterPeer, hnone, List.mem_cons, forall_eq_or_imp]
      refine ⟨?_, ?_⟩
      · cases acc with
        | none => simp
        | some a => by_cases hv : v ≤ a.2 <;> simp [hv]
      · intro g m hg
        rcases hsome g m hg with hacc | hfg
        · split at hacc
          · exact .inl hacc
          · cases hacc
            exact .inr hf
        · exact .inr hfg

/-- Whoever is present and gave an answer is considered. -/
theorem maxPeer_eq_none {vcus : Fin 16 → Option Nat} (h : maxPeer s vcus = none)
    (hi : (s.crdtMasters i).isSome) : vcus i = none := by
  have hall := ((foldl_laterPeer _ _ _).1.1 h).2 i (List.mem_finRange i)
  rwa [if_pos hi] at hall

theorem maxPeer_eq_some {vcus : Fin 16 → Option Nat} {g : Fin 16} {m : Nat}
    (h : maxPeer s vcus = some (g, m)) : (s.crdtMasters g).isSome := by
  rcases (foldl_laterPeer _ _ _).2 g m h with hnone | hg
  · cases hnone
  · split at hg
    · assumption
    · cases hg

theorem markOthers_waits {g : Fin 16} (h : (s.crdtMasters g).isSome) (m : Nat) :
    ∃ p, (markOthers s g m).crdtMasters g = some p ∧ p.backstreamVc.units ≠ [] := by
  obtain ⟨p, hp⟩ := isSome_iff_exists.1 h
  refine ⟨p.backstreamFrom s.crdtGid 0, ?_, add_units_ne_nil _ _ _⟩
  simp [markOthers, hp]

/-- At the start the flag is set if there are peers, unless the data are kept. -/
theorem peerBackStream_flagRight (nullDb : Bool) (vcus : Fin 16 → Option Nat) :
    (Peer.peerBackStream s nullDb vcus).1.FlagRight := by
  unfold Peer.peerBackStream
  dsimp only
  split
  · exact cleanSlavePeerBackStream_flagRight
  generalize hkeep : (!nullDb && (markSilent s vcus).iAmMaster) = keep
  -- the peers, and the flag, are the same whether the clocks were reset or not
  have hpeers :
      ∀ t : CrdtServer, (if keep then resetClocks t else t).crdtMasters = t.crdtMasters := by
    intro t
    split <;> rfl
  cases hmax : maxPeer s vcus with
  | none =>
    dsimp only
    show decide (∃ i, (s.crdtMasters i).isSome) = _
    rw [Bool.eq_iff_iff, recovering_iff, decide_eq_true_iff]
    dsimp only
    rw [hpeers]
    constructor
    · rintro ⟨i, hi⟩
      obtain ⟨p, hp⟩ := isSome_iff_exists.1 hi
      refine ⟨i, p.backstreamFrom s.crdtGid 0, ?_, add_units_ne_nil _ _ _⟩
      simp [markSilent, hp, maxPeer_eq_none hmax hi]
    · rintro ⟨i, p, hp, -⟩
      obtain ⟨q, hq, -⟩ := map_eq_some_iff.1 hp
      exact ⟨i, by rw [hq]; rfl⟩
  | some r =>
    obtain ⟨g, m⟩ := r
    dsimp only
    obtain ⟨p, hp⟩ := isSome_iff_exists.1 (maxPeer_eq_some hmax)
    show decide (∃ i, (s.crdtMasters i).isSome) = _
    have hany : ∃ i, (s.crdtMasters i).isSome := ⟨g, by rw [hp]; rfl⟩
    rw [decide_eq_true hany]
    refine (recovering_iff.2 ?_).symm
    obtain ⟨q, hq, hb⟩ := markOthers_waits
      (s := { (if keep then resetClocks (markSilent s vcus) else markSilent s vcus) with
        loading := decide (∃ i, (s.crdtMasters i).isSome) }) (g := g)
      (by rw [hpeers, markSilent]; simp [hp]) m
    exact ⟨g, q, hq, hb⟩

/-- The options set the flag together with the clock. -/
theorem peerofOptions_loading (own : Gid) (words : List Bytes) (o : PeerofOptions)
    (ws : List Bytes) (ho : o.loading = true ↔ o.backstreamVc.units ≠ []) :
    ∀ e o', (peerofOptions own words o ws).result = .ok (e, o') →
      (o'.loading = true ↔ o'.backstreamVc.units ≠ []) := by
  fun_induction peerofOptions own words o ws with
  | case1 o => rintro e o' ⟨⟩; exact ho
  | case2 o word h => rintro e o' ⟨⟩
  | case3 o word h => rintro e o' ⟨⟩; exact ho
  | case4 o word value rest h hv => rintro e o' ⟨⟩; exact ho
  | case5 o word value rest h vcu hv ih =>
    apply ih
    simp [add_units_ne_nil]
  | case6 o word value rest h ht hv ih =>
    intro e o' hres
    obtain ⟨proxy, -, hres⟩ := Trace.bind_result_ok.1 hres
    cases proxy with
    | none =>
      cases hres
      exact ho
    | some proxy => exact ih proxy ho e o' hres
  | case7 o word value rest h ht hv => rintro e o' ⟨⟩; exact ho
  | case8 o word value rest h ht ih => exact ih ho

theorem optionsOf_loading {own : Gid} {words : List Bytes} {e : Option Bytes} {o : PeerofOptions}
    (h : optionsOf own words = .ok (e, o)) : o.loading = true ↔ o.backstreamVc.units ≠ [] :=
  peerofOptions_loading own words _ words (by simp [null]) e o h

/-- The peer that is set up has the clocks of the one that was there, or null ones. -/
theorem setMaster_peers (s : CrdtServer) (i : Fin 16) (ip : Bytes) (port : Int)
    (uninitialized : Bytes) :
    (crdtReplicationSetMaster s i ip port uninitialized).loading = s.loading ∧
    ∃ q, (crdtReplicationSetMaster s i ip port uninitialized).crdtMasters =
        update s.crdtMasters i (some q) ∧
      q.SameClocks ((s.crdtMasters i).getD (createPeerMaster uninitialized)) := by
  have hif : ∀ (c : Bool) (p p' : PeerMaster), p.SameClocks p' →
      (if c then { p.freeMaster.cancelHandshake with replState := .connect } else p).SameClocks
        p' := by
    intro c p p' h
    split
    · have hfree := (cancelHandshake_sameClocks p.freeMaster).trans (freeMaster_sameClocks p)
      exact ⟨(hfree.trans h).vectorClock, (hfree.trans h).backstreamVc⟩
    · exact h
  unfold crdtReplicationSetMaster CrdtServer.setPeer
  cases hp : s.crdtMasters i with
  | none =>
    exact ⟨addPeerSet_loading s i, _, congrArg (update · i _) (addPeerSet_crdtMasters s i),
      hif _ _ _ ⟨rfl, rfl⟩⟩
  | some p => exact ⟨rfl, _, rfl, hif _ _ _ ⟨rfl, rfl⟩⟩

/-- The peer that is set up waits if the options say so, or if it did. -/
theorem attachPeer_peers (env : PeerofEnv) (s : CrdtServer) (i : Fin 16) (host : Bytes) (port : Int)
    (o : PeerofOptions) :
    (attachPeer env s i host port o).loading = s.loading ∧
    ∃ q, (attachPeer env s i host port o).crdtMasters = update s.crdtMasters i (some q) ∧
      q.vectorClock = ((s.crdtMasters i).map vectorClock).getD null ∧
      q.backstreamVc = if o.backstreamVc.units = [] then
        ((s.crdtMasters i).map backstreamVc).getD null
        else o.backstreamVc := by
  obtain ⟨hload, q, hq, hclocks⟩ := setMaster_peers s i host port env.uninitialized
  have hv : q.vectorClock = ((s.crdtMasters i).map vectorClock).getD null := by
    rw [hclocks.vectorClock]
    cases s.crdtMasters i <;> rfl
  have hb : q.backstreamVc =
      ((s.crdtMasters i).map backstreamVc).getD null := by
    rw [hclocks.backstreamVc]
    cases s.crdtMasters i <;> rfl
  refine ⟨hload, q.withOptions o, ?_, hv, ?_⟩
  · simp only [attachPeer, hq, update_self, map_some, update_idem]
  · simp only [withOptions, hb]

theorem CrdtServer.FlagRight.attach (h : s.FlagRight) {env : PeerofEnv} {host : Bytes}
    {port : Int} {o : PeerofOptions} (ho : o.loading = true ↔ o.backstreamVc.units ≠ [])
    (hs' : s'.crdtMasters = (attachPeer env { s with loading := s.loading || o.loading } i host
      port o).crdtMasters) (hl : s'.loading = (s.loading || o.loading)) : s'.FlagRight := by
  obtain ⟨-, q, hq, -, hb⟩ := attachPeer_peers env { s with loading := s.loading || o.loading } i
    host port o
  rw [hq] at hs'
  cases hload : o.loading with
  | false =>
    have hnil : o.backstreamVc.units = [] := by
      by_contra hne
      rw [ho.2 hne] at hload
      cases hload
    rw [if_pos hnil] at hb
    rw [hload, Bool.or_false] at hl
    cases hp : s.crdtMasters i with
    | none =>
      simp only [hp, map_none, getD_none] at hb
      exact h.newPeer hp (by rw [hb]; rfl) hs' hl
    | some p =>
      simp only [hp, map_some, getD_some] at hb
      exact h.setPeer hp hb hs' hl
  | true =>
    have hne := ho.1 hload
    rw [if_neg hne] at hb
    rw [hload, Bool.or_true] at hl
    unfold FlagRight
    rw [hl]
    exact (recovering_iff.2 ⟨i, q, by rw [hs', update_self], by rw [hb]; exact hne⟩).symm

theorem reattached_sameClocks (p : PeerMaster) (o : PeerofOptions) :
    (p.reattached o).SameClocks p := by
  unfold reattached
  split <;> exact ⟨rfl, rfl⟩

/-- A `PEEROF` whose `backstream` takes effect. -/
theorem CrdtServer.FlagRight.peerof (h : s.FlagRight) {env : PeerofEnv} {reply : Reply}
    (hok : TakesEffect s (.peerof env argv))
    (hres : (peerofCommand env s argv).result = .ok (reply, s')) : s'.FlagRight := by
  rcases peerofCommand_ok hres with rfl | ⟨i, d, rfl⟩ |
    ⟨cmd, gidText, host, portText, words, gid, port, e, o, rfl, hone, hgid, hport, hread, hend⟩
  · exact h
  · exact h.unsetMaster i
  have ho := optionsOf_loading hread
  have hfalse : s.loading = true ∨ o.loading = false →
      ({ s with loading := s.loading || o.loading } : CrdtServer) = s := by
    intro hor
    refine (orLoading_eq_self_iff s o.loading).2 fun hl => hor.resolve_right ?_
    rw [hl]
    simp
  simp only [TakesEffect, hone, hread, Bool.false_eq_true, false_or] at hok
  rcases hend with ⟨hsome, rfl⟩ | ⟨rfl, i, hi, ⟨p, d, hp, hup, rfl⟩ | ⟨hnot, rfl | ⟨d, rfl⟩⟩⟩
  · -- refused at an option
    obtain ⟨text, rfl⟩ := isSome_iff_exists.1 hsome
    rw [hfalse hok]
    exact h
  · -- the peer is attached to that master already
    have hp' : s.crdtMasters i = some p := hp
    by_cases hkeep : s.loading = true ∨ o.loading = false
    · rw [hfalse hkeep]
      exact h.setPeer (q := p.reattached o) hp' (reattached_sameClocks p o).backstreamVc rfl rfl
    · -- a `backstream` was given, and the peer waits with that clock already
      simp only [not_or, Bool.not_eq_true, Bool.not_eq_false] at hkeep
      simp only [hkeep.1, hkeep.2, Bool.false_eq_true, Bool.true_eq_false, false_or] at hok
      have hnamed : p ∈ peerNamed s gidText := by
        simp [peerNamed, hgid, hi, Except.toOption, hp']
      simp only [upToDate, Bool.and_eq_true, Bool.or_eq_true, beq_iff_eq] at hup
      have hnone := hok p hnamed port hport hup.1
      rw [hnone] at hup
      have heq : p.backstreamVc = o.backstreamVc := by simpa using (hup.2.resolve_left (by simp)).1
      have hrec : s.recovering = true :=
        recovering_iff.2 ⟨i, p, hp', by rw [heq]; exact ho.1 hkeep.2⟩
      rw [← h, hkeep.1] at hrec
      cases hrec
  · -- the rewrite failed
    rw [crdtReplicationUnsetMaster_attachPeer]
    refine tryClean_flagRight fun hr => ?_
    have hsame : ∀ t : CrdtServer, (if t.crdtMasters i = none then addPeerSet t i else t).loading =
        t.loading ∧ (if t.crdtMasters i = none then addPeerSet t i else t).crdtMasters =
        t.crdtMasters := by
      intro t
      split <;> simp
    have hrec : s.recovering = true := by
      refine recovering_mono ?_ hr
      intro j q hj hb
      have hj' := setPeer_none_some hj
      rw [(hsame _).2] at hj'
      exact ⟨q, hj', hb⟩
    show (if _ then _ else _ : CrdtServer).loading = true
    rw [(hsame _).1, h.trans hrec, Bool.true_or]
  · refine h.attach ho (by rw [addPeerSet_crdtMasters]) ?_
    exact (addPeerSet_loading _ i).trans (attachPeer_peers env _ i host port o).1

theorem Trace.state?_eq_some {α : Type} {t : Trace (α × CrdtServer)} (h : t.state? = some s') :
    ∃ a, t.result = .ok (a, s') := by
  unfold Trace.state? at h
  cases hr : t.result with
  | error e =>
    rw [hr] at h
    cases h
  | ok r =>
    rw [hr] at h
    cases h
    exact ⟨r.1, rfl⟩

/-- Every step keeps the flag right. -/
theorem closingNext_flagRight {a : ClosingAct} (h : s.FlagRight) (hok : TakesEffect s a)
    (hnext : closingNext s a = some s') : s'.FlagRight := by
  cases a with
  | peerof env argv =>
    obtain ⟨reply, hres⟩ := Trace.state?_eq_some hnext
    exact h.peerof hok hres
  | mergeStart uninitialized argv =>
    obtain ⟨e, hres⟩ := Trace.state?_eq_some hnext
    exact h.mergeStart hres
  | mergeEnd clientGid qps argv =>
    obtain ⟨e, hres⟩ := Trace.state?_eq_some hnext
    exact h.mergeEnd hres
  | peerChange argv =>
    obtain ⟨e, hres⟩ := Trace.state?_eq_some hnext
    exact h.peerChange hres
  | link i act => exact h.link hnext
  | slaveof uninitialized =>
    cases hnext
    exact h.becomeSlave uninitialized
  | slaveofNoOne connected nullDb qps =>
    cases hnext
    exact h.noOne connected nullDb qps
  | slaveContinue =>
    cases hnext
    exact cleanSlavePeerBackStream_flagRight
  | rdbLoad uninitialized file => exact h.rdbLoad hnext
  | peerBackStream nullDb vcus =>
    cases hnext
    exact peerBackStream_flagRight nullDb vcus

end steps

/-- In every run in which each `backstream` of a `PEEROF` takes effect, the node is
closed for writes exactly while some peer has a `backstream_vc` that is not null. -/
theorem loading_iff_recovering {s : CrdtServer} (h : closing.Reachable TakesEffect s) :
    s.loading = true ↔ ∃ i p, s.crdtMasters i = some p ∧ p.backstreamVc.units ≠ [] := by
  have hinv : s.FlagRight := by
    refine h.invariant ?_ ?_
    · rintro t ⟨hload, hpeers⟩
      unfold CrdtServer.FlagRight
      rw [hload]
      refine (Bool.eq_false_iff.2 fun hr => ?_).symm
      obtain ⟨i, p, hp, hb⟩ := recovering_iff.1 hr
      have hnot := hpeers i p hp
      simp [backstreaming, hb] at hnot
    · intro t a t' ht hok hnext
      exact closingNext_flagRight ht hok hnext
  rw [← recovering_iff, hinv]

/-- Node 1 with the peer 2 in its configuration. -/
def configuredNode : CrdtServer :=
  loneNode.setPeer slotTwo (some { createPeerMaster (List.replicate 41 0) with
    masterhost := ascii "10.0.0.2"
    masterport := 6379 })

/-- At the start peer 2 gives no answer and is waited for; then it is removed. -/
theorem loading_iff_recovering_restart : ∃ s t, closing.Reachable TakesEffect s ∧ s.loading = true ∧
      (∃ i p, s.crdtMasters i = some p ∧ p.backstreamVc.units ≠ []) ∧
      closing.Reachable TakesEffect t ∧ t.loading = false ∧
      ¬ ∃ i p, t.crdtMasters i = some p ∧ p.backstreamVc.units ≠ [] := by
  have hinit : closing.Reachable TakesEffect configuredNode := by
    refine .init ⟨rfl, fun i p hp => ?_⟩
    rcases update_eq_some hp with ⟨rfl, ⟨⟩⟩ | ⟨-, ⟨⟩⟩
    rfl
  have hstart : closing.Reachable TakesEffect
      (peerBackStream configuredNode true fun _ => none).1 :=
    .step hinit (a := .peerBackStream true fun _ => none) trivial rfl
  have hclosed : (peerBackStream configuredNode true fun _ => none).1.loading = true := by
    decide +kernel
  have hnext : ((closingNext (peerBackStream configuredNode true fun _ => none).1
      (.peerof ⟨false, none, []⟩ [ascii "PEEROF", ascii "2", ascii "no", ascii "one"])).any
        fun t => !t.loading) = true := by
    decide +kernel
  obtain ⟨t, ht, hopen⟩ := (Option.any_eq_true _ _).1 hnext
  have hok : TakesEffect (peerBackStream configuredNode true fun _ => none).1
      (.peerof ⟨false, none, []⟩ [ascii "PEEROF", ascii "2", ascii "no", ascii "one"]) :=
    Or.inl hclosed
  have hremoved : closing.Reachable TakesEffect t := .step hstart hok ht
  simp only [Bool.not_eq_true'] at hopen
  refine ⟨_, t, hstart, hclosed, (loading_iff_recovering hstart).1 hclosed, hremoved, hopen, ?_⟩
  intro hwaits
  rw [(loading_iff_recovering hremoved).2 hwaits] at hopen
  cases hopen

/-- `PEEROF 2 10.0.0.2 6379 backstream 5 proxy-type socks` closes a node that waits for
nobody. -/
theorem loading_without_recovery : ∃ s, closing.Reachable Lib.System.anyStep s ∧ s.loading = true ∧
      ¬ ∃ i p, s.crdtMasters i = some p ∧ p.backstreamVc.units ≠ [] := by
  refine ⟨{ loneNode with loading := true }, ?_, rfl, by simp [loneNode]⟩
  have hinit : closing.Reachable Lib.System.anyStep loneNode := .init ⟨rfl, by simp [loneNode]⟩
  refine .step hinit (a := .peerof ⟨false, none, []⟩
    [ascii "PEEROF", ascii "2", ascii "10.0.0.2", ascii "6379", ascii "backstream", ascii "5",
      ascii "proxy-type", ascii "socks"]) trivial rfl

end XredisCrdt.Peer
