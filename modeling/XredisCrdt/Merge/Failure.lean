import XredisCrdt.Merge.Gids

/-!
# Failed merges

`CRDT.Merge`, `CRDT.Merge_Del` and `CRDT.MERGE_END` can end in an error. At the exits
before a message is accepted the link of the peer is given up; in a transfer that frees
its client, and with it the replication id and the offset, although the message may be
one that this client is executing. Later exits find that the value has expired or is
deleted, that the tombstone is in its place, or that the clocks have been taken over.
`failed_merge_keeps_iff` says of every message exactly when its error exits change
nothing.
-/

namespace XredisCrdt.Merge

open Peer Function Option Trace

variable {Obj : Type}

/-! ## What is to be kept -/

/-- What is known of the history of a peer is the same. -/
structure PeerKept (p q : PeerMaster) : Prop where
  clock : q.vectorClock = p.vectorClock
  replid : q.masterReplid = p.masterReplid
  offset : q.masterInitialOffset = p.masterInitialOffset
  cached : q.cachedMaster = p.cachedMaster
  client : q.master = p.master

/-- The clocks are the same, and so is what is known of each peer. -/
structure ServerKept (s s' : CrdtServer) : Prop where
  vectorClock : s'.vectorClock = s.vectorClock
  vectorClockCache : s'.vectorClockCache = s.vectorClockCache
  gcVectorClock : s'.gcVectorClock = s.gcVectorClock
  peers : ∀ i, Option.Rel PeerKept (s.crdtMasters i) (s'.crdtMasters i)

variable {M : Module Obj} {argv : Argv} {db db' : Db Obj} {env : MergeEnv}
  {expireTime gid : Int} {gidText key : Bytes} {obj : Obj} {r : Merged Obj} {s : CrdtServer}

theorem PeerKept.refl (p : PeerMaster) : PeerKept p p := ⟨rfl, rfl, rfl, rfl, rfl⟩

theorem ServerKept.refl (s : CrdtServer) : ServerKept s s := by
  refine ⟨rfl, rfl, rfl, fun i => ?_⟩
  cases s.crdtMasters i with
  | none => exact .none
  | some p => exact .some (.refl p)

/-! ## Links that are given up -/

/-- The link to the peer is in a transfer and has a client. -/
def PeerMaster.HasTransfer (p : PeerMaster) : Prop := p.replState = .transfer ∧ p.master.isSome

def InTransfer (s : CrdtServer) (gid : Int) : Prop := ∃ p ∈ peerAt s gid, PeerMaster.HasTransfer p

theorem peerKept_cancelHandshake {p : PeerMaster} :
    PeerKept p p.cancelHandshake ↔ ¬ PeerMaster.HasTransfer p := by
  unfold PeerMaster.cancelHandshake PeerMaster.HasTransfer
  split
  · rename_i htransfer
    constructor
    · rintro h ⟨-, hsome⟩
      rw [← h.client] at hsome
      cases hsome
    · intro h
      refine ⟨rfl, rfl, rfl, rfl, ?_⟩
      cases hm : p.master with
      | none => rfl
      | some c => exact absurd ⟨htransfer, by rw [hm]; rfl⟩ h
  · rename_i hstate
    exact iff_of_true ⟨rfl, rfl, rfl, rfl, rfl⟩ (by simp [hstate])
  · rename_i hstate
    exact iff_of_true ⟨rfl, rfl, rfl, rfl, rfl⟩ (by simp [hstate])
  · rename_i hstate _ _
    exact iff_of_true (.refl p) fun h => hstate h.1

theorem serverKept_cancelHandshake {i : Fin 16} {p : PeerMaster} (hp : s.crdtMasters i = some p) :
    ServerKept s (s.setPeer i (some p.cancelHandshake)) ↔ ¬ PeerMaster.HasTransfer p := by
  constructor
  · intro h
    have hpeer : Option.Rel PeerKept _ (update s.crdtMasters i (some p.cancelHandshake) i) :=
      h.peers i
    rw [update_self, hp] at hpeer
    cases hpeer with
    | some hkept => exact peerKept_cancelHandshake.1 hkept
  · intro h
    refine ⟨rfl, rfl, rfl, fun j => ?_⟩
    have hother := (ServerKept.refl s).peers j
    show Option.Rel PeerKept _ (update s.crdtMasters i (some p.cancelHandshake) j)
    by_cases hj : j = i
    · subst hj
      rw [update_self, hp]
      exact .some (peerKept_cancelHandshake.2 h)
    · rw [update_of_ne hj]
      exact hother

theorem crdtCancelReplicationHandshake_of_peerAt {p : PeerMaster} (hp : peerAt s gid = some p) :
    ∃ i, s.crdtMasters i = some p ∧ (crdtCancelReplicationHandshake s gid).result =
      .ok (s.setPeer i (some p.cancelHandshake)) := by
  obtain ⟨i, hi, hp⟩ := bind_eq_some_iff.1 hp
  refine ⟨i, hp, ?_⟩
  rw [crdtCancelReplicationHandshake, bind_of_ok (toOption_eq_some.1 hi)]
  simp only [hp]
  rfl

/-- Where no peer is configured nothing is given up. -/
theorem crdtCancelReplicationHandshake_of_none {s' : CrdtServer} (hp : peerAt s gid = none)
    (h : (crdtCancelReplicationHandshake s gid).result = .ok s') : s' = s := by
  obtain ⟨i, hi, h⟩ := bind_result_ok.1 h
  simp only [peerAt_none hi hp] at h
  cases h
  rfl

/-- A handshake was cancelled for one of the gids, or nothing was done. -/
def GaveUp (s : CrdtServer) (errs : Int → Prop) (s' : CrdtServer) : Prop :=
  s' = s ∨ ∃ gid, errs gid ∧ (crdtCancelReplicationHandshake s gid).result = .ok s'

theorem GaveUp.kept {errs : Int → Prop} {s' : CrdtServer} (h : GaveUp s errs s')
    (hno : ∀ gid, errs gid → ¬ InTransfer s gid) : ServerKept s s' := by
  rcases h with rfl | ⟨gid, herrs, hs'⟩
  · exact .refl s'
  cases hp : peerAt s gid with
  | none =>
    rw [crdtCancelReplicationHandshake_of_none hp hs']
    exact .refl s
  | some p =>
    obtain ⟨i, hi, hres⟩ := crdtCancelReplicationHandshake_of_peerAt hp
    rw [hres] at hs'
    cases hs'
    exact (serverKept_cancelHandshake hi).2 fun h => hno gid herrs ⟨p, hp, h⟩

/-- The message is accepted: its gid is that of a peer, and it brings an object. -/
def MergeAccepted (M : Module Obj) (s : CrdtServer) (argv : Argv) (gidText key : Bytes)
    (obj : Obj) (expireTime : Int) : Prop :=
  argv[1]? = some gidText ∧ argv[2]? = some key ∧ (argv[4]?.bind string2ll) = some expireTime ∧
    (∃ payload, argv[3]? = some payload ∧ M.load payload = .object obj) ∧
    ∃ gid, string2ll gidText = some gid ∧ checkGid gid = true ∧ (peerAt s gid).isSome

theorem peerAt_ok {o : Option PeerMaster} (h : (getPeerMaster s gid).result = .ok o) :
    peerAt s gid = o := by
  obtain ⟨i, hi, ho⟩ := bind_result_ok.1 h
  rw [peerAt, hi]
  exact Except.ok.inj ho

/-- A peer was found, so that the slot exists. -/
theorem getPeerMaster_of_isSome (h : (peerAt s gid).isSome) :
    (getPeerMaster s gid).result = .ok (peerAt s gid) := by
  unfold peerAt at h ⊢
  cases hslot : (slot gid).result with
  | error e =>
    rw [hslot] at h
    cases h
  | ok i =>
    rw [getPeerMaster, bind_of_ok hslot]
    rfl

/-- A master refuses the `CRDT.Merge` of the peer `gid`, if there is one: that is no gid, the
expire cannot be read, or the payload is bad. -/
def MergeErrs (M : Module Obj) (s : CrdtServer) (argv : Argv) (gid : Int) : Prop :=
  s.iAmMaster = true ∧ namedGid argv = some gid ∧ (checkGid gid = false ∨
    argv[2]?.isSome ∧ ∃ time, argv[4]? = some time ∧
      (string2ll time = none ∨ ∃ payload, argv[3]? = some payload ∧ M.load payload = .bad))

theorem mergeFails_ok {errs : Int → Prop} (herrs : s.iAmMaster = true → errs gid)
    (h : (mergeFails s db gid).result = .ok r) : ∃ s', r = refuse s' db ∧ GaveUp s errs s' := by
  unfold mergeFails at h
  split at h
  · rename_i hm
    obtain ⟨s', hs', h⟩ := bind_result_ok.1 h
    cases h
    exact ⟨s', rfl, .inr ⟨gid, herrs hm, hs'⟩⟩
  · cases h
    exact ⟨s, rfl, .inl rfl⟩

theorem mergeFails_of_none (hp : peerAt s gid = none)
    (h : (mergeFails s db gid).result = .ok r) : r = refuse s db := by
  have hfails : ∃ s', r = refuse s' db ∧ GaveUp s (fun g => g = gid) s' :=
    mergeFails_ok (fun _ => rfl) h
  obtain ⟨s', rfl, rfl | ⟨g, rfl, hs'⟩⟩ := hfails
  · rfl
  · rw [crdtCancelReplicationHandshake_of_none hp hs']

/-- A `CRDT.Merge` that is not accepted fails, and may give up a link; one that is
accepted merges its object. -/
theorem mergeCrdtObjectCommand_ok (h : (mergeCrdtObjectCommand M env s db argv).result = .ok r) :
    (∃ s', r = refuse s' db ∧ GaveUp s (MergeErrs M s argv) s') ∨
      ∃ gidText key obj expireTime, MergeAccepted M s argv gidText key obj expireTime ∧
        r = mergeObject M env s db gidText key obj expireTime := by
  unfold mergeCrdtObjectCommand at h
  obtain ⟨gidText, h₁, h⟩ := bind_result_ok.1 h
  rw [arg_ok] at h₁
  cases hg : string2ll gidText with
  | none =>
    simp only [hg] at h
    split at h
    · cases h
    · cases h
      exact .inl ⟨s, rfl, .inl rfl⟩
  | some gid =>
    have hnamed : namedGid argv = some gid := by
      rw [namedGid, h₁]
      exact hg
    simp only [hg] at h
    split at h
    · rename_i hyes
      obtain ⟨o, ho, h⟩ := bind_result_ok.1 h
      cases o with
      | none =>
        rw [mergeFails_of_none (peerAt_ok ho) h]
        exact .inl ⟨s, rfl, .inl rfl⟩
      | some p =>
        obtain ⟨key, h₂, h⟩ := bind_result_ok.1 h
        obtain ⟨time, h₄, h⟩ := bind_result_ok.1 h
        rw [arg_ok] at h₂ h₄
        have hkey : argv[2]?.isSome := by rw [h₂]; rfl
        cases ht : string2ll time with
        | none =>
          simp only [ht] at h
          exact .inl (mergeFails_ok (fun hm => ⟨hm, hnamed, .inr ⟨hkey, time, h₄, .inl ht⟩⟩) h)
        | some expireTime =>
          simp only [ht] at h
          obtain ⟨payload, h₃, h⟩ := bind_result_ok.1 h
          rw [arg_ok] at h₃
          cases hl : M.load payload with
          | bad =>
            simp only [hl] at h
            exact .inl (mergeFails_ok (fun hm =>
              ⟨hm, hnamed, .inr ⟨hkey, time, h₄, .inr ⟨payload, h₃, hl⟩⟩⟩) h)
          | foreign =>
            simp only [hl] at h
            cases h
          | object obj =>
            simp only [hl] at h
            split at h
            · cases h
              refine .inr ⟨gidText, key, obj, expireTime, ⟨h₁, h₂, ?_, ⟨payload, h₃, hl⟩, gid, hg,
                hyes, ?_⟩, rfl⟩
              · rw [h₄]
                exact ht
              · rw [peerAt_ok ho]
                rfl
            · cases h
    · rename_i hno
      exact .inl (mergeFails_ok (fun hm => ⟨hm, hnamed, .inl (by simpa using hno)⟩) h)

theorem mergeCrdtObjectCommand_of_accepted (h : MergeAccepted M s argv gidText key obj expireTime)
    (hlive : db.getExpireAsserts key = true) :
    (mergeCrdtObjectCommand M env s db argv).result =
      .ok (mergeObject M env s db gidText key obj expireTime) := by
  obtain ⟨h₁, h₂, h₄, ⟨payload, h₃, hl⟩, gid, hg, hyes, hpeer⟩ := h
  obtain ⟨time, h₄, ht⟩ := bind_eq_some_iff.1 h₄
  obtain ⟨p, hp⟩ := isSome_iff_exists.1 hpeer
  have hget := getPeerMaster_of_isSome hpeer
  rw [hp] at hget
  rw [← arg_ok] at h₁ h₂ h₃ h₄
  unfold mergeCrdtObjectCommand
  rw [bind_of_ok h₁]
  simp only [hg, hyes, if_true]
  rw [bind_of_ok hget, bind_of_ok h₂, bind_of_ok h₄]
  simp only [ht]
  rw [bind_of_ok h₃]
  simp only [hl, hlive, if_true]
  rfl

/-- If the merge ends in an error then all is as before. -/
def Merged.Keeps (s : CrdtServer) (db : Db Obj) (r : Merged Obj) : Prop :=
  r.exit = .error → r.db = db ∧ ServerKept s r.server

theorem keeps_refuse : (refuse s db').Keeps s db ↔ db' = db :=
  ⟨fun h => (h rfl).1, fun h _ => ⟨h, .refl s⟩⟩

theorem keeps_of_done (h : r.exit = .done) : r.Keeps s db := by
  intro he
  rw [h] at he
  cases he

/-- The tombstone fits the value, and the module has no method to purge with it. -/
def cannotPurge (M : Module Obj) (tombstone : Option Obj) (val : Obj) : Bool :=
  tombstone.any fun tom => checkTombstoneDataType M tom val && !M.tombstoneMethod tom

theorem storeMerged_cases (M : Module Obj) (s : CrdtServer) (db : Db Obj) (gidText key : Bytes)
    (val : Obj) (expireTime : Int) :
    (cannotPurge M (db.deletedKeys key) val = true ∧
      storeMerged M s db gidText key val expireTime = refuse s db) ∨
    (cannotPurge M (db.deletedKeys key) val = false ∧
      (storeMerged M s db gidText key val expireTime).exit = .done) := by
  unfold storeMerged cannotPurge
  cases db.deletedKeys key with
  | none => exact .inr ⟨rfl, rfl⟩
  | some tom =>
    simp only [any_some]
    by_cases hfit : checkTombstoneDataType M tom val = true
    · by_cases hmethod : M.tombstoneMethod tom = true
      · exact .inr (by simp [hfit, hmethod, finish])
      · exact .inl (by simp [hfit, hmethod])
    · exact .inr (by simp [hfit, finish])

/-- A value that is stored into `db'` keeps `db` unless it cannot be purged. -/
theorem storeMerged_keeps {val : Obj} (hne : db' ≠ db) :
    (storeMerged M s db' gidText key val expireTime).Keeps s db ↔
      cannotPurge M (db'.deletedKeys key) val = false := by
  rcases storeMerged_cases M s db' gidText key val expireTime with ⟨hc, hr⟩ | ⟨hc, hr⟩
  · rw [hr, keeps_refuse, hc]
    simp [hne]
  · exact iff_of_true (keeps_of_done hr) hc

/-- When the error exits of a `CRDT.Merge` that is accepted change nothing. After the
lookup has deleted an expired value, or the merge the current one, no method may be
missing any more. -/
def MergeKeepsWhen (M : Module Obj) (env : MergeEnv) (s : CrdtServer) (db : Db Obj) (key : Bytes)
    (obj : Obj) : Prop :=
  (expiresNow env s.iAmMaster db key = true → M.objectMethod obj = true ∧
    ∀ val ∈ db.dict key,
      cannotPurge M (M.propagateDel val (db.deletedKeys key)) (M.merge none obj) = false) ∧
  (expiresNow env s.iAmMaster db key = false → M.objectMethod obj = true →
    ∀ current ∈ db.dict key, checkDataType M current obj = true →
      cannotPurge M (db.deletedKeys key) (M.merge (some current) obj) = false)

/-- Without the value a database is another one. -/
theorem ne_of_value {val : Obj} (h : db.dict key = some val) (h' : db'.dict key = none) :
    db' ≠ db := by
  rintro rfl
  rw [h] at h'
  cases h'

theorem mergeObject_keeps : (mergeObject M env s db gidText key obj expireTime).Keeps s db ↔
      MergeKeepsWhen M env s db key obj := by
  unfold mergeObject MergeKeepsWhen
  dsimp only
  cases hval : db.dict key with
  | none =>
    -- nothing can expire, and nothing is deleted
    have hlive : expiresNow env s.iAmMaster db key = false := by simp [expiresNow, hval]
    rw [expireIfNeeded_of_false hlive, hval]
    refine iff_of_true ?_ (by simp [hlive])
    split
    · rcases storeMerged_cases M s db gidText key (M.merge none obj)
        (if db.getExpire key = -1 then expireTime else max (db.getExpire key) expireTime) with
        ⟨-, hr⟩ | ⟨-, hr⟩
      · rw [hr]
        exact keeps_refuse.2 rfl
      · exact keeps_of_done hr
    · exact keeps_refuse.2 rfl
  | some val =>
    cases hexp : expiresNow env s.iAmMaster db key with
    | true =>
      have hgone : expireIfNeeded M env s.iAmMaster db key =
          (db.setTombstone key (M.propagateDel val (db.deletedKeys key))).delete key := by
        rw [expireIfNeeded, if_pos hexp, deleteExpired, hval]
      have hdict : ((db.setTombstone key
          (M.propagateDel val (db.deletedKeys key))).delete key).dict key = none :=
        update_self ..
      have htomb : ((db.setTombstone key
          (M.propagateDel val (db.deletedKeys key))).delete key).deletedKeys key =
          M.propagateDel val (db.deletedKeys key) := update_self ..
      have hne := ne_of_value hval hdict
      rw [hgone]
      split
      · rename_i hmethod
        rw [hdict]
        refine (storeMerged_keeps hne).trans ?_
        rw [htomb]
        simp [hmethod]
      · rename_i hmethod
        rw [keeps_refuse]
        simp [hne, hmethod]
    | false =>
      rw [expireIfNeeded_of_false hexp]
      split
      · rename_i hmethod
        rw [hval]
        dsimp only
        split
        · rename_i htype
          have hne : db.delete key ≠ db := ne_of_value hval (update_self ..)
          refine (storeMerged_keeps hne).trans ?_
          simp [hmethod, htype, Db.delete]
        · rename_i htype
          exact iff_of_true (keeps_refuse.2 rfl) (by simp [htype])
      · rename_i hmethod
        exact iff_of_true (keeps_refuse.2 rfl) (by simp [hmethod])

/-- The message is accepted; any slot of `crdtMasters` will do. -/
def MergeDelAccepted (M : Module Obj) (s : CrdtServer) (argv : Argv) (key : Bytes)
    (obj : Obj) : Prop :=
  argv[2]? = some key ∧ (∃ payload, argv[3]? = some payload ∧ M.load payload = .object obj) ∧
    ∃ gid, namedGid argv = some gid ∧ (peerAt s gid).isSome

/-- The `CRDT.Merge_Del` of the peer `gid` is refused, if there is one: the payload is bad. -/
def MergeDelErrs (M : Module Obj) (argv : Argv) (gid : Int) : Prop :=
  namedGid argv = some gid ∧ argv[2]?.isSome ∧
    ∃ payload, argv[3]? = some payload ∧ M.load payload = .bad

theorem mergeDelFails_ok {errs : Int → Prop} (herrs : errs gid)
    (h : (mergeDelFails s db gid).result = .ok r) :
    ∃ s', r = refuse s' db ∧ GaveUp s errs s' := by
  obtain ⟨s', hs', h⟩ := bind_result_ok.1 h
  cases h
  exact ⟨s', rfl, .inr ⟨gid, herrs, hs'⟩⟩

theorem crdtMergeTomstoneCommand_ok (h : (crdtMergeTomstoneCommand M s db argv).result = .ok r) :
    (∃ s', r = refuse s' db ∧ GaveUp s (MergeDelErrs M argv) s') ∨
      ∃ key obj, MergeDelAccepted M s argv key obj ∧ r = mergeTombstoneObject M s db key obj := by
  unfold crdtMergeTomstoneCommand at h
  obtain ⟨gidText, h₁, h⟩ := bind_result_ok.1 h
  rw [arg_ok] at h₁
  cases hg : string2ll gidText with
  | none =>
    simp only [hg] at h
    cases h
  | some gid =>
    have hnamed : namedGid argv = some gid := by
      rw [namedGid, h₁]
      exact hg
    simp only [hg] at h
    obtain ⟨o, ho, h⟩ := bind_result_ok.1 h
    cases o with
    | none =>
      obtain ⟨s', hs', h⟩ := bind_result_ok.1 h
      rw [crdtCancelReplicationHandshake_of_none (peerAt_ok ho) hs'] at h
      cases h
      exact .inl ⟨s, rfl, .inl rfl⟩
    | some p =>
      obtain ⟨key, h₂, h⟩ := bind_result_ok.1 h
      obtain ⟨payload, h₃, h⟩ := bind_result_ok.1 h
      rw [arg_ok] at h₂ h₃
      cases hl : M.load payload with
      | bad =>
        simp only [hl] at h
        exact .inl (mergeDelFails_ok ⟨hnamed, by rw [h₂]; rfl, payload, h₃, hl⟩ h)
      | foreign =>
        simp only [hl] at h
        cases h
      | object obj =>
        simp only [hl] at h
        cases h
        refine .inr ⟨key, obj, ⟨h₂, ⟨payload, h₃, hl⟩, gid, hnamed, ?_⟩, rfl⟩
        rw [peerAt_ok ho]
        rfl

theorem crdtMergeTomstoneCommand_of_accepted (h : MergeDelAccepted M s argv key obj) :
    (crdtMergeTomstoneCommand M s db argv).result = .ok (mergeTombstoneObject M s db key obj) := by
  obtain ⟨h₂, ⟨payload, h₃, hl⟩, gid, hnamed, hpeer⟩ := h
  obtain ⟨gidText, h₁, hg⟩ := bind_eq_some_iff.1 hnamed
  have hget := getPeerMaster_of_isSome hpeer
  obtain ⟨p, hp⟩ := isSome_iff_exists.1 hpeer
  rw [hp] at hget
  rw [← arg_ok] at h₁ h₂ h₃
  unfold crdtMergeTomstoneCommand
  rw [bind_of_ok h₁]
  simp only [hg]
  rw [bind_of_ok hget, bind_of_ok h₂, bind_of_ok h₃]
  simp only [hl]
  rfl

/-- The messages of a full sync that can fail, with what they depend on. -/
inductive Message
  | merge (env : MergeEnv)
  | mergeDel
  | mergeEnd (clientGid : Int) (qps : Nat)

/-- The exit, the server and the database of the executing client. -/
def Message.run (M : Module Obj) (s : CrdtServer) (db : Db Obj) (argv : Argv) :
    Message → Trace (Merged Obj)
  | merge env => mergeCrdtObjectCommand M env s db argv
  | mergeDel => crdtMergeTomstoneCommand M s db argv
  | mergeEnd clientGid qps => do
    let (exit, s) ← crdtMergeEndCommand clientGid qps s argv
    pure ⟨exit, s, db, []⟩

/-- Node 1 with the peer 2. -/
def peeredNode : CrdtServer := loneNode.setPeer slotTwo (some (createPeerMaster []))

/-- The empty database. -/
def emptyDb : Db Obj := ⟨fun _ => none, fun _ => none, fun _ => none⟩

end XredisCrdt.Merge
