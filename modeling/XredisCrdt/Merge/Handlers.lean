import XredisCrdt.Peer.FullSync

/-!
# CRDT.Merge and CRDT.Merge_Del

In a full sync every value arrives as `CRDT.Merge gid key payload expire` and every
tombstone as `CRDT.Merge_Del gid key payload`. `mergeCrdtObjectCommand` and
`crdtMergeTomstoneCommand` merge them into the two dictionaries of a database, `dict`
with its `expires`, and `deleted_keys`.

What an object is, and how objects are read from a payload, merged and purged, is a
matter of the CRDT module: the structure `Module` is a parameter. `purge` of the
module works on its arguments in place, so it returns them. An object in a payload
that is not one of the module ends in a fault.
-/

namespace XredisCrdt.Merge

open Peer Function

/-! ## The module -/

/-- `PURGE_VAL`, `PURGE_TOMBSTONE`, and any other result. -/
inductive Purge
  | value
  | tombstone
  | neither
  deriving DecidableEq, Repr

/-- What `verifyDumpPayload` and `rdbLoadObject` make of a payload. -/
inductive Payload (Obj : Type)
  | bad
  | foreign
  | object (o : Obj)

/-- The functions that the server gets from the CRDT module. `objectMethod` and
`tombstoneMethod` say whether the module has the methods for that object. -/
structure Module (Obj : Type) where
  load : Bytes → Payload Obj
  type : Obj → Nat
  getDataType : Obj → Int
  isData : Obj → Bool
  isTombstone : Obj → Bool
  objectMethod : Obj → Bool
  tombstoneMethod : Obj → Bool
  /-- `merge` of `CrdtObjectMethod`; there may be no current value. -/
  merge : Option Obj → Obj → Obj
  /-- `merge` of `CrdtTombstoneMethod`. -/
  mergeTombstone : Obj → Obj → Obj
  /-- `purge(tombstone, value)`, and what it leaves of the two. -/
  purge : Obj → Obj → Purge × Obj × Obj
  /-- `propagateDel`: the tombstone that takes the place of an expired value. -/
  propagateDel : Obj → Option Obj → Option Obj

/-! ## Databases -/

/-- A `redisDb`. -/
@[ext] structure Db (Obj : Type) where
  dict : Bytes → Option Obj
  expires : Bytes → Option Int
  deletedKeys : Bytes → Option Obj

variable {Obj : Type}

namespace Db

variable (db : Db Obj) (key : Bytes)

/-- `getExpire`, where its assertion holds. -/
def getExpire : Int := (db.expires key).getD (-1)

/-- The assertion in `getExpire`: a key with an expire has a value. -/
def getExpireAsserts : Bool := (db.expires key).isNone || (db.dict key).isSome

/-- `dbDelete`. -/
def delete : Db Obj :=
  { db with
    dict := update db.dict key none
    expires := update db.expires key none }

/-- `dbAdd`. -/
def add (val : Obj) : Db Obj := { db with dict := update db.dict key (some val) }

def setExpire (time : Int) : Db Obj :=
  { db with expires := update db.expires key (some time) }

/-- The tombstone of the key, put there or, with `none`, deleted. -/
def setTombstone (tombstone : Option Obj) : Db Obj :=
  { db with deletedKeys := update db.deletedKeys key tombstone }

end Db

/-- Time, `server.loading`, and whether the executing client is a link to a peer. -/
structure MergeEnv where
  now : Int
  loading : Bool
  peerLink : Bool

/-- The value of the key has expired, and it is for this node and this client to
delete it. -/
def expiresNow (env : MergeEnv) (iAmMaster : Bool) (db : Db Obj) (key : Bytes) : Bool :=
  0 ≤ db.getExpire key ∧ env.loading = false ∧ iAmMaster = true ∧ db.getExpire key < env.now ∧
    env.peerLink = false ∧ (db.dict key).isSome

/-- `crdtPropagateExpire` and the deletion after it, for a key that there is. -/
def deleteExpired (M : Module Obj) (db : Db Obj) (key : Bytes) : Db Obj :=
  match db.dict key with
  | none => db
  | some val => (db.setTombstone key (M.propagateDel val (db.deletedKeys key))).delete key

/-- `expireIfNeeded`. -/
def expireIfNeeded (M : Module Obj) (env : MergeEnv) (iAmMaster : Bool) (db : Db Obj)
    (key : Bytes) : Db Obj :=
  if expiresNow env iAmMaster db key then deleteExpired M db key else db

theorem expireIfNeeded_of_false {M : Module Obj} {env : MergeEnv} {iAmMaster : Bool} {db : Db Obj}
    {key : Bytes} (h : expiresNow env iAmMaster db key = false) :
    expireIfNeeded M env iAmMaster db key = db :=
  if_neg (by simp [h])

/-! ## Checks -/

/-- `checkDataType`. -/
def checkDataType (M : Module Obj) (current other : Obj) : Bool :=
  M.isData current && M.type current == M.type other

/-- `checkTombstoneType`. -/
def checkTombstoneType (M : Module Obj) (current other : Obj) : Bool :=
  M.isTombstone current && M.type current == M.type other

/-- `checkTombstoneDataType`. -/
def checkTombstoneDataType (M : Module Obj) (tombstone data : Obj) : Bool :=
  M.isTombstone tombstone && M.isData data && M.getDataType tombstone == M.getDataType data

/-! ## CRDT.Merge -/

/-- What a merge leaves: `signalled` are the keys given to `signalModifiedKey`. -/
structure Merged (Obj : Type) where
  exit : Exit
  server : CrdtServer
  db : Db Obj
  signalled : List Bytes

/-- A return without an effect on peers. -/
def refuse (s : CrdtServer) (db : Db Obj) : Merged Obj := ⟨.error, s, db, []⟩

/-- The end of a merge. -/
def finish (s : CrdtServer) (db : Db Obj) (signalled : List Bytes) : Merged Obj :=
  ⟨.done, { s with dirty := s.dirty + 1 }, db, signalled⟩

/-- The merged value takes its place, if there is one. -/
def putValue (db : Db Obj) (key : Bytes) (val : Option Obj) (expireTime : Int) : Db Obj :=
  match val with
  | none => db
  | some val =>
    if expireTime = -1 then db.add key val else (db.add key val).setExpire key expireTime

/-- What a purge leaves in the two dictionaries. -/
def purged : Purge × Obj × Obj → Option Obj × Option Obj
  | (.value, tombstone, _) => (some tombstone, none)
  | (.tombstone, _, val) => (none, some val)
  | (.neither, tombstone, val) => (some tombstone, some val)

/-- `mergeCrdtObjectCommand` after the merge of the two values; the old one is
deleted. -/
def storeMerged (M : Module Obj) (s : CrdtServer) (db : Db Obj) (gidText key : Bytes)
    (mergedVal : Obj) (expireTime : Int) : Merged Obj :=
  match db.deletedKeys key with
  | none => finish s (putValue db key (some mergedVal) expireTime) [gidText]
  | some tom =>
    if checkTombstoneDataType M tom mergedVal then
      if M.tombstoneMethod tom then
        let rest := purged (M.purge tom mergedVal)
        finish s (putValue (db.setTombstone key rest.1) key rest.2 expireTime) [gidText]
      else refuse s db
    else finish s (putValue db key (some mergedVal) expireTime) [gidText]

/-- `mergeCrdtObjectCommand` once its arguments are read. -/
def mergeObject (M : Module Obj) (env : MergeEnv) (s : CrdtServer) (db : Db Obj)
    (gidText key : Bytes) (obj : Obj) (expireTime : Int) : Merged Obj :=
  let et := db.getExpire key
  let expireTime := if et = -1 then expireTime else max et expireTime
  let db := expireIfNeeded M env s.iAmMaster db key
  if M.objectMethod obj then
    match db.dict key with
    | some current =>
      if checkDataType M current obj then
        storeMerged M s (db.delete key) gidText key (M.merge (some current) obj) expireTime
      else refuse s db
    | none => storeMerged M s db gidText key (M.merge none obj) expireTime
  else refuse s db

/-- The label `error`: a master cancels the handshake with the peer of the gid, a
slave gives up the client. -/
def mergeFails (s : CrdtServer) (db : Db Obj) (sourceGid : Int) : Trace (Merged Obj) :=
  if s.iAmMaster then do
    let s ← crdtCancelReplicationHandshake s sourceGid
    pure (refuse s db)
  else pure (refuse s db)

/-- `CRDT.Merge gid key payload expire`. -/
def mergeCrdtObjectCommand (M : Module Obj) (env : MergeEnv) (s : CrdtServer) (db : Db Obj)
    (argv : Argv) : Trace (Merged Obj) := do
  let gidText ← arg argv 1
  match string2ll gidText with
  | none => if s.iAmMaster then Trace.fail .unsetGid else pure (refuse s db)
  | some sourceGid =>
    if checkGid sourceGid then
      match ← getPeerMaster s sourceGid with
      | none => mergeFails s db sourceGid
      | some _ =>
        let key ← arg argv 2
        match string2ll (← arg argv 4) with
        | none => mergeFails s db sourceGid
        | some expireTime =>
          match M.load (← arg argv 3) with
          | .bad => mergeFails s db sourceGid
          | .foreign => Trace.fail .notModule
          | .object obj =>
            if db.getExpireAsserts key then
              pure (mergeObject M env s db gidText key obj expireTime)
            else Trace.fail .expireWithoutValue
    else mergeFails s db sourceGid

/-! ## CRDT.Merge_Del -/

/-- `crdtMergeTomstoneCommand` once the tombstone is in place. -/
def purgeValue (M : Module Obj) (s : CrdtServer) (db : Db Obj) (key : Bytes) (tombstone : Obj) :
    Merged Obj :=
  match db.dict key with
  | none => finish s db []
  | some current =>
    if checkTombstoneDataType M tombstone current then
      if M.tombstoneMethod tombstone then
        match M.purge tombstone current with
        | (.value, tombstone, _) => finish s ((db.setTombstone key (some tombstone)).delete key) []
        | (.tombstone, _, val) => finish s ((db.add key val).setTombstone key none) []
        | (.neither, tombstone, val) =>
          finish s ((db.add key val).setTombstone key (some tombstone)) []
      else refuse s db
    else finish s db []

/-- `crdtMergeTomstoneCommand` once its arguments are read. -/
def mergeTombstoneObject (M : Module Obj) (s : CrdtServer) (db : Db Obj) (key : Bytes)
    (obj : Obj) : Merged Obj :=
  match db.deletedKeys key with
  | some old =>
    if checkTombstoneType M obj old then
      if M.tombstoneMethod obj then
        let mergedVal := M.mergeTombstone obj old
        purgeValue M s (db.setTombstone key (some mergedVal)) key mergedVal
      else refuse s db
    else refuse s db
  | none => purgeValue M s (db.setTombstone key (some obj)) key obj

/-- The label `error`: the handshake is cancelled in any role. -/
def mergeDelFails (s : CrdtServer) (db : Db Obj) (sourceGid : Int) : Trace (Merged Obj) := do
  let s ← crdtCancelReplicationHandshake s sourceGid
  pure (refuse s db)

/-- `CRDT.Merge_Del gid key payload`; the gid is not checked. -/
def crdtMergeTomstoneCommand (M : Module Obj) (s : CrdtServer) (db : Db Obj)
    (argv : Argv) : Trace (Merged Obj) := do
  match string2ll (← arg argv 1) with
  | none => Trace.fail .unsetGid
  | some sourceGid =>
    match ← getPeerMaster s sourceGid with
    | none => mergeDelFails s db sourceGid
    | some _ =>
      let key ← arg argv 2
      match M.load (← arg argv 3) with
      | .bad => mergeDelFails s db sourceGid
      | .foreign => Trace.fail .notModule
      | .object obj => pure (mergeTombstoneObject M s db key obj)

/-! ## Expires belong to keys -/

/-- Every key with an expire has a value. -/
def Live (db : Db Obj) : Prop := ∀ key, (db.expires key).isSome → (db.dict key).isSome

section Live

variable {db : Db Obj} {key : Bytes} {M : Module Obj}

theorem getExpireAsserts_of_live (h : Live db) (key : Bytes) : db.getExpireAsserts key = true := by
  unfold Db.getExpireAsserts
  cases hexp : db.expires key with
  | none => rfl
  | some t => exact h key (by rw [hexp]; rfl)

theorem Live.delete (h : Live db) (key : Bytes) : Live (db.delete key) := by
  intro k hk
  by_cases hkey : k = key
  · subst hkey
    change (update db.expires k none k).isSome at hk
    rw [update_self] at hk
    cases hk
  · change (update db.expires key none k).isSome at hk
    show (update db.dict key none k).isSome
    rw [update_of_ne hkey] at hk ⊢
    exact h k hk

theorem isSome_add (db : Db Obj) (key : Bytes) (val : Obj) :
    ((db.add key val).dict key).isSome := by
  show (update db.dict key (some val) key).isSome
  rw [update_self]
  rfl

theorem Live.add (h : Live db) (key : Bytes) (val : Obj) : Live (db.add key val) := by
  intro k hk
  by_cases hkey : k = key
  · subst hkey
    exact isSome_add db k val
  · show (update db.dict key (some val) k).isSome
    rw [update_of_ne hkey]
    exact h k hk

theorem Live.setExpire (h : Live db) (hkey : (db.dict key).isSome) (time : Int) :
    Live (db.setExpire key time) := by
  intro k hk
  by_cases heq : k = key
  · subst heq
    exact hkey
  · change (update db.expires key (some time) k).isSome at hk
    rw [update_of_ne heq] at hk
    exact h k hk

theorem Live.setTombstone (h : Live db) (key : Bytes) (tom : Option Obj) :
    Live (db.setTombstone key tom) := h

theorem Live.putValue (h : Live db) (key : Bytes) (val : Option Obj) (time : Int) :
    Live (putValue db key val time) := by
  cases val with
  | none => exact h
  | some val =>
    rw [Merge.putValue]
    split_ifs
    · exact h.add key val
    · exact (h.add key val).setExpire (isSome_add db key val) time

theorem Live.deleteExpired (h : Live db) (key : Bytes) : Live (deleteExpired M db key) := by
  rw [Merge.deleteExpired]
  split
  · exact h
  · exact (h.setTombstone key _).delete key

theorem Live.expireIfNeeded (h : Live db) (env : MergeEnv) (iAmMaster : Bool) (key : Bytes) :
    Live (expireIfNeeded M env iAmMaster db key) := by
  rw [Merge.expireIfNeeded]
  split_ifs
  · exact h.deleteExpired key
  · exact h

theorem Live.storeMerged (h : Live db) (s : CrdtServer) (gidText key : Bytes) (val : Obj)
    (time : Int) :
    Live (storeMerged M s db gidText key val time).db := by
  rw [Merge.storeMerged]
  split
  · exact h.putValue key _ time
  · split_ifs
    · exact (h.setTombstone key _).putValue key _ time
    · exact h
    · exact h.putValue key _ time

theorem Live.mergeObject (h : Live db) (env : MergeEnv) (s : CrdtServer) (gidText key : Bytes)
    (obj : Obj) (time : Int) : Live (mergeObject M env s db gidText key obj time).db := by
  have hexp := h.expireIfNeeded (M := M) env s.iAmMaster key
  rw [Merge.mergeObject]
  generalize (if db.getExpire key = -1 then time else max (db.getExpire key) time) = merged
  split_ifs
  · split
    · split_ifs
      · exact (hexp.delete key).storeMerged s gidText key _ _
      · exact hexp
    · exact hexp.storeMerged s gidText key _ _
  · exact hexp

theorem Live.purgeValue (h : Live db) (s : CrdtServer) (key : Bytes) (tom : Obj) :
    Live (purgeValue M s db key tom).db := by
  rw [Merge.purgeValue]
  split
  · exact h
  · split_ifs
    · split
      · exact (h.setTombstone key _).delete key
      · exact (h.add key _).setTombstone key none
      · exact (h.add key _).setTombstone key _
    · exact h
    · exact h

theorem Live.mergeTombstoneObject (h : Live db) (s : CrdtServer) (key : Bytes) (obj : Obj) :
    Live (mergeTombstoneObject M s db key obj).db := by
  rw [Merge.mergeTombstoneObject]
  split
  · split_ifs
    · exact (h.setTombstone key _).purgeValue s key _
    · exact h
    · exact h
  · exact (h.setTombstone key _).purgeValue s key _

end Live

end XredisCrdt.Merge
