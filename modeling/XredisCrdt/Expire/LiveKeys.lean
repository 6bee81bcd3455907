import XredisCrdt.Expire.Ownership
import XredisCrdt.Lib.System
import XredisCrdt.Merge.Failure

/-!
# Expires belong to keys

`db->expires` shares the strings of its keys with `db->dict`, so a key must leave both. Of the
functions that the CRDT module is given, `RM_DbDelete` deletes from `db->dict` only.

`KeyOp` has the calls of the module, merges, expiration, eviction, flushes and loading, each with
the arguments it is called with. Assertions that fail and uses of a freed entry or of a NULL
value end the run.
-/

namespace XredisCrdt.LiveKeys

open Peer Merge Function Option

variable {Obj : Type}

/-- A `RedisModuleKey`: whether it has a value, and whether it was opened for writing. -/
structure KeyHandle where
  db : Nat
  key : Bytes
  value : Bool
  write : Bool
  deriving DecidableEq, Repr

/-- The node, with the handles that are open. -/
structure KeyWorld (Obj : Type) where
  server : CrdtServer
  dbs : Nat → Db Obj
  handles : Nat → Option KeyHandle

namespace KeyWorld

def setDb (w : KeyWorld Obj) (d : Nat) (db : Db Obj) : KeyWorld Obj :=
  { w with dbs := update w.dbs d db }

def setHandle (w : KeyWorld Obj) (h : Nat) (k : KeyHandle) : KeyWorld Obj :=
  { w with handles := update w.handles h (some k) }

end KeyWorld

/-- What changes the two dictionaries. `handle` is a number for the `RedisModuleKey`. -/
inductive KeyOp (Obj : Type)
  | openKey (handle d : Nat) (key : Bytes) (write : Bool) (env : MergeEnv)
  | dbAddOrFind (d : Nat) (key : Bytes)
  | dbEntrySetVal (d : Nat) (key : Bytes) (val : Obj)
  | dbSetValue (d : Nat) (key : Bytes) (val : Obj) (env : MergeEnv)
  | dbDelete (d : Nat) (key : Bytes)
  | deleteKey (handle : Nat)
  | unlinkKey (handle : Nat)
  | setExpire (handle : Nat) (expire now : Int)
  | setExpireAt (handle : Nat) (expire : Int)
  | merge (d : Nat) (env : MergeEnv) (argv : Argv)
  | mergeDel (d : Nat) (argv : Argv)
  | lookup (d : Nat) (key : Bytes) (env : MergeEnv)
  | activeExpire (d : Nat) (key : Bytes) (now : Int)
  | evict (d : Nat) (key : Bytes)
  | flush (d : Option Nat)
  | loadCrdtData (d : Nat) (key : Bytes) (expire : Int)
  | loadPlain (d : Nat) (key : Bytes) (val : Obj) (expire : Int)

section Step

variable (M : Module Obj) (null : Obj) [DecidableEq Obj]

/-- `lookupKeyWrite`: the database after it, and whether there is a value. A value that is NULL
is read through. -/
def lookupKeyWrite (s : CrdtServer) (env : MergeEnv) (db : Db Obj) (key : Bytes) :
    Option (Db Obj × Bool) :=
  if db.getExpireAsserts key then
    let db := expireIfNeeded M env s.iAmMaster db key
    if db.dict key = some null then none else some (db, (db.dict key).isSome)
  else none

/-- `setExpire`, whose assertion is that there is the key. -/
def setExpireAsserted (db : Db Obj) (key : Bytes) (time : Int) : Option (Db Obj) :=
  if (db.dict key).isSome then some (db.setExpire key time) else none

/-- `removeExpire`, with the same assertion. -/
def removeExpire (db : Db Obj) (key : Bytes) : Option (Db Obj) :=
  if (db.dict key).isSome then some { db with expires := update db.expires key none } else none

/-- `setKey`. -/
def setKey (s : CrdtServer) (env : MergeEnv) (db : Db Obj) (key : Bytes) (val : Obj) :
    Option (Db Obj) :=
  (lookupKeyWrite M null s env db key).bind fun r => removeExpire (r.1.add key val) key

/-- `RM_DbDelete`. -/
def rmDbDelete (db : Db Obj) (key : Bytes) : Db Obj :=
  { db with dict := update db.dict key none }

/-- `RM_DeleteKey` and `RM_UnlinkKey`, which differ in how the value is freed. -/
def deleteByHandle (w : KeyWorld Obj) (handle : Nat) : Option (KeyWorld Obj) :=
  (w.handles handle).map fun k =>
    if k.write && k.value then
      (w.setDb k.db ((w.dbs k.db).delete k.key)).setHandle handle { k with value := false }
    else w

/-- `RM_SetExpire` and `RM_SetExpireAt`: `f` changes the database of a handle that is open for
writing and has a value. -/
def onHandle (w : KeyWorld Obj) (handle : Nat) (f : Db Obj → Bytes → Option (Db Obj)) :
    Option (KeyWorld Obj) :=
  (w.handles handle).bind fun k =>
    if k.write && k.value then (f (w.dbs k.db) k.key).map (w.setDb k.db) else some w

def merged (w : KeyWorld Obj) (d : Nat) (t : Trace (Merged Obj)) : Option (KeyWorld Obj) :=
  t.result.toOption.map fun m => { w.setDb d m.db with server := m.server }

def KeyOp.apply (w : KeyWorld Obj) : KeyOp Obj → Option (KeyWorld Obj)
  | .openKey handle d key write env =>
    (lookupKeyWrite M null w.server env (w.dbs d) key).map fun r =>
      (w.setDb d r.1).setHandle handle ⟨d, key, r.2, write⟩
  | .dbAddOrFind d key =>
    some (if ((w.dbs d).dict key).isSome then w else w.setDb d ((w.dbs d).add key null))
  | .dbEntrySetVal d key val =>
    -- the entry is one that `RM_DbAddOrFind` has returned
    if ((w.dbs d).dict key).isSome then some (w.setDb d ((w.dbs d).add key val)) else none
  | .dbSetValue d key val env => (setKey M null w.server env (w.dbs d) key val).map (w.setDb d)
  | .dbDelete d key => some (w.setDb d (rmDbDelete (w.dbs d) key))
  | .deleteKey handle => deleteByHandle w handle
  | .unlinkKey handle => deleteByHandle w handle
  | .setExpire handle expire now =>
    onHandle w handle fun db key =>
      if expire = -1 then removeExpire db key else setExpireAsserted db key (expire + now)
  | .setExpireAt handle expire => onHandle w handle fun db key => setExpireAsserted db key expire
  | .merge d env argv =>
    merged w d (mergeCrdtObjectCommand M env w.server (w.dbs d) argv)
  | .mergeDel d argv => merged w d (crdtMergeTomstoneCommand M w.server (w.dbs d) argv)
  | .lookup d key env =>
    (lookupKeyWrite M null w.server env (w.dbs d) key).map fun r => w.setDb d r.1
  | .activeExpire d key now =>
    some (if ((w.dbs d).expires key).any (· < now) then
      w.setDb d (deleteExpired M (w.dbs d) key) else w)
  | .evict d key =>
    some (if ((w.dbs d).dict key).isSome then
      w.setDb d (((w.dbs d).setTombstone key none).delete key) else w)
  | .flush (some d) => some (w.setDb d emptyDb)
  | .flush none => some { w with dbs := fun _ => emptyDb }
  | .loadCrdtData d key expire =>
    -- after the module has loaded the data of the key
    if ((w.dbs d).dict key).isSome ∧ expire ≠ -1 then
      (setExpireAsserted (w.dbs d) key expire).map (w.setDb d)
    else some w
  | .loadPlain d key val expire =>
    if ((w.dbs d).dict key).isSome then none
    else
      let db := (w.dbs d).add key val
      if expire = -1 then some (w.setDb d db) else (setExpireAsserted db key expire).map (w.setDb d)

/-- A node without data and without open handles. -/
def keySystem : Lib.System (KeyWorld Obj) (KeyOp Obj) where
  init w := (∀ d, w.dbs d = emptyDb) ∧ ∀ h, w.handles h = none
  next w op := op.apply M null w

end Step

/-! ## What keeps expires with their keys -/

section Live

variable {db : Db Obj} {key : Bytes} {M : Module Obj}

theorem live_emptyDb : Live (emptyDb : Db Obj) := by
  intro key h
  cases h

theorem live_rmDbDelete_iff (h : Live db) : Live (rmDbDelete db key) ↔ db.expires key = none := by
  constructor
  · intro hlive
    by_contra hne
    have hgone : (update db.dict key none key).isSome := hlive key (isSome_iff_ne_none.2 hne)
    rw [update_self] at hgone
    cases hgone
  · intro hnone k hk
    have hkey : k ≠ key := by
      rintro rfl
      change (db.expires k).isSome at hk
      rw [hnone] at hk
      cases hk
    show (update db.dict key none k).isSome
    rw [update_of_ne hkey]
    exact h k hk

theorem live_setExpireAsserted {db' : Db Obj} {time : Int} (h : Live db)
    (hdb : setExpireAsserted db key time = some db') : Live db' := by
  obtain ⟨hkey, hdb⟩ := ite_none_right_eq_some.1 hdb
  obtain rfl := some.inj hdb
  exact h.setExpire hkey time

theorem live_removeExpire {db' : Db Obj} (h : Live db) (hdb : removeExpire db key = some db') :
    Live db' := by
  obtain ⟨hkey, hdb⟩ := ite_none_right_eq_some.1 hdb
  obtain rfl := some.inj hdb
  intro k hk
  by_cases heq : k = key
  · subst heq
    exact hkey
  · exact h k (by simpa [update_of_ne heq] using hk)

theorem live_lookupKeyWrite {null : Obj} [DecidableEq Obj] {s : CrdtServer} {env : MergeEnv}
    {r : Db Obj × Bool} (h : Live db) (hr : lookupKeyWrite M null s env db key = some r) :
    Live r.1 := by
  obtain ⟨-, hr⟩ := ite_none_right_eq_some.1 hr
  obtain ⟨-, hr⟩ := ite_none_left_eq_some.1 hr
  obtain rfl := some.inj hr
  exact h.expireIfNeeded env s.iAmMaster key

end Live

/-! ## Who deletes an expired key

`Expire.expireIfNeeded` and the active cycle decide which site deletes a key. What they do to
the dictionaries is what `expireIfNeeded` does for an executing client, and the operation
`activeExpire`. -/

section Sites

variable {db : Db Obj} {M : Module Obj} {site : Expire.Site} {value : Obj → Expire.Value}

/-- A database as the sites see it; `value` says what its objects are. -/
def siteDb (value : Obj → Expire.Value) (db : Db Obj) : Expire.Db :=
  ⟨fun key => (db.dict key).map value, db.expires⟩

theorem siteDb_deleteExpired {key : Bytes} (h : (db.dict key).isSome) :
    siteDb value (deleteExpired M db key) = (siteDb value db).delete key := by
  obtain ⟨val, hval⟩ := isSome_iff_exists.1 h
  have hdict : (fun k => (update db.dict key none k).map value) =
      update (fun k => (db.dict k).map value) key none := by
    funext k
    by_cases hk : k = key
    · rw [hk, update_self, update_self]
      rfl
    · rw [update_of_ne hk, update_of_ne hk]
  rw [deleteExpired, hval]
  exact congrArg (Expire.Db.mk · (update db.expires key none)) hdict

/-- A command is executed by the link of a peer or by another client. -/
def executingClient (env : MergeEnv) : Expire.CurrentClient :=
  if env.peerLink then .crdtMaster else .other

theorem expireIfNeeded_siteDb (env : MergeEnv) (iAmMaster : Bool) (key : Expire.Sds) :
    ∃ result, Expire.expireIfNeeded site (executingClient env) env.loading iAmMaster env.now
        (siteDb value db) key =
      some (result, siteDb value (expireIfNeeded M env iAmMaster db key.text)) := by
  have hkeeps : expiresNow env iAmMaster db key.text = false →
      siteDb value (expireIfNeeded M env iAmMaster db key.text) = siteDb value db := by
    intro h
    rw [expireIfNeeded_of_false h]
  unfold Expire.expireIfNeeded
  cases hexp : (siteDb value db).expires key.text with
  | none =>
    have hnone : db.getExpire key.text = -1 := congrArg (fun o => o.getD (-1)) hexp
    exact ⟨false, by rw [hkeeps (by simp [expiresNow, hnone])]⟩
  | some t =>
    have hsome : db.getExpire key.text = t := congrArg (fun o => o.getD (-1)) hexp
    dsimp only
    split_ifs with hneg hload hslave hnow
    · exact ⟨false, by rw [hkeeps (by simp [expiresNow, hsome]; omega)]⟩
    · exact ⟨false, by rw [hkeeps (by simp [expiresNow, hload])]⟩
    · have hm : iAmMaster ≠ true := by simpa using hslave
      exact ⟨_, by rw [hkeeps (by simpa [expiresNow] using fun _ _ h => absurd h hm)]⟩
    · exact ⟨false, by rw [hkeeps (by simp [expiresNow, hsome]; omega)]⟩
    · cases hlink : env.peerLink with
      | true =>
        refine ⟨false, ?_⟩
        rw [hkeeps (by simp [expiresNow, hlink])]
        simp [Expire.crdtPropagateExpire, executingClient, hlink]
      | false =>
        cases hval : db.dict key.text with
        | none =>
          refine ⟨false, ?_⟩
          rw [hkeeps (by simp [expiresNow, hval])]
          simp [Expire.crdtPropagateExpire, executingClient, hlink, siteDb, hval]
        | some val =>
          have hyes : expiresNow env iAmMaster db key.text = true := by
            simp [expiresNow, hsome, hlink, hval]
            simp at hload hslave
            exact ⟨by omega, hload, hslave, by omega⟩
          refine ⟨true, ?_⟩
          rw [expireIfNeeded, if_pos hyes, siteDb_deleteExpired (by rw [hval]; rfl)]
          cases hv : value val with
          | plain => simp [Expire.crdtPropagateExpire, executingClient, hlink, siteDb, hval, hv]
          | crdt lastGid =>
            simp [Expire.crdtPropagateExpire, Expire.isNeedDelayExpire, executingClient, hlink,
              siteDb, hval, hv]

/-- The active cycle leaves the key, or its time has passed and it is deleted. -/
theorem tryExpire_siteDb {client : Expire.CurrentClient} {key : Bytes} {t now : Int}
    {result : Bool} {db' : Expire.Db}
    (h : Expire.activeExpireCycleTryExpire site client (siteDb value db) key t now =
      some (result, db')) :
    db' = siteDb value db ∨ t < now ∧ db' = siteDb value (deleteExpired M db key) := by
  unfold Expire.activeExpireCycleTryExpire at h
  split_ifs at h with hnow
  · obtain ⟨ok, hok, h⟩ := bind_eq_some_iff.1 h
    split_ifs at h with hyes
    · have hval : (db.dict key).isSome := by
        rw [hyes] at hok
        unfold Expire.crdtPropagateExpire at hok
        cases hd : db.dict key with
        | none => simp [siteDb, Expire.createStringObject, hd] at hok
        | some val => rfl
      cases h
      exact .inr ⟨hnow, (siteDb_deleteExpired hval).symm⟩
    · cases h
      exact .inl rfl
  · cases h
    exact .inl rfl

end Sites

/-! ## Runs -/

/-- In every database each key with an expire has a value, and the assertion in `getExpire` would
hold for every key. -/
structure AllLive (w : KeyWorld Obj) : Prop where
  live : ∀ d, Live (w.dbs d)
  asserts : ∀ d key, (w.dbs d).getExpireAsserts key = true

/-- `RM_DbDelete` is called for keys without an expire only. -/
def Permitted (w : KeyWorld Obj) : KeyOp Obj → Prop
  | .dbDelete d key => (w.dbs d).expires key = none
  | _ => True

section Runs

variable {M : Module Obj} {null : Obj} {w w' : KeyWorld Obj}

theorem allLive_of_live (h : ∀ d, Live (w.dbs d)) : AllLive w :=
  ⟨h, fun d => getExpireAsserts_of_live (h d)⟩

theorem AllLive.setDb (h : AllLive w) (d : Nat) {db : Db Obj} (hdb : Live db) :
    AllLive (w.setDb d db) := by
  refine allLive_of_live fun e => ?_
  show Live (update w.dbs d db e)
  by_cases he : e = d
  · rw [he, update_self]
    exact hdb
  · rw [update_of_ne he]
    exact h.live e

theorem AllLive.onHandle {handle : Nat} {f : Db Obj → Bytes → Option (Db Obj)} (h : AllLive w)
    (hf : ∀ db key db', Live db → f db key = some db' → Live db')
    (hw : onHandle w handle f = some w') :
    AllLive w' := by
  obtain ⟨k, -, hw⟩ := bind_eq_some_iff.1 hw
  split_ifs at hw
  · obtain ⟨db', hdb', rfl⟩ := map_eq_some_iff.1 hw
    exact h.setDb k.db (hf _ _ _ (h.live k.db) hdb')
  · exact some.inj hw ▸ h

theorem AllLive.deleteByHandle {handle : Nat} (h : AllLive w)
    (hw : deleteByHandle w handle = some w') :
    AllLive w' := by
  obtain ⟨k, -, rfl⟩ := map_eq_some_iff.1 hw
  split_ifs
  · have hdb := h.setDb k.db ((h.live k.db).delete k.key)
    exact ⟨hdb.live, hdb.asserts⟩
  · exact h

theorem AllLive.merged {d : Nat} {t : Trace (Merged Obj)} (h : AllLive w)
    (ht : ∀ m, t.result = .ok m → Live m.db) (hw : merged w d t = some w') : AllLive w' := by
  obtain ⟨m, hm, rfl⟩ := map_eq_some_iff.1 hw
  have hdb := h.setDb d (ht m (Trace.toOption_eq_some.1 hm))
  exact ⟨hdb.live, hdb.asserts⟩

variable [DecidableEq Obj]

/-- A permitted call keeps expires with their keys. -/
theorem keyOp_live {op : KeyOp Obj} (h : AllLive w) (hok : Permitted w op)
    (hw : op.apply M null w = some w') : AllLive w' := by
  cases op with
  | openKey handle d key write env =>
    obtain ⟨r, hr, rfl⟩ := map_eq_some_iff.1 hw
    have hdb := h.setDb d (live_lookupKeyWrite (h.live d) hr)
    exact ⟨hdb.live, hdb.asserts⟩
  | dbAddOrFind d key =>
    obtain rfl := some.inj hw
    split_ifs
    · exact h
    · exact h.setDb d ((h.live d).add key null)
  | dbEntrySetVal d key val =>
    obtain ⟨-, hw⟩ := ite_none_right_eq_some.1 hw
    obtain rfl := some.inj hw
    exact h.setDb d ((h.live d).add key val)
  | dbSetValue d key val env =>
    obtain ⟨db', hdb', rfl⟩ := map_eq_some_iff.1 hw
    obtain ⟨r, hr, hdb'⟩ := bind_eq_some_iff.1 hdb'
    exact h.setDb d (live_removeExpire ((live_lookupKeyWrite (h.live d) hr).add key val) hdb')
  | dbDelete d key =>
    obtain rfl := some.inj hw
    exact h.setDb d ((live_rmDbDelete_iff (h.live d)).2 hok)
  | deleteKey handle => exact h.deleteByHandle hw
  | unlinkKey handle => exact h.deleteByHandle hw
  | setExpire handle expire now =>
    rw [KeyOp.apply] at hw
    refine h.onHandle (fun db key db' hdb hdb' => ?_) hw
    split_ifs at hdb'
    · exact live_removeExpire hdb hdb'
    · exact live_setExpireAsserted hdb hdb'
  | setExpireAt handle expire =>
    rw [KeyOp.apply] at hw
    exact h.onHandle (fun db key db' hdb hdb' => live_setExpireAsserted hdb hdb') hw
  | merge d env argv =>
    refine h.merged (fun m hm => ?_) hw
    rcases mergeCrdtObjectCommand_ok hm with ⟨s', rfl, -⟩ | ⟨gidText, key, obj, time, -, rfl⟩
    · exact h.live d
    · exact (h.live d).mergeObject env w.server gidText key obj time
  | mergeDel d argv =>
    refine h.merged (fun m hm => ?_) hw
    rcases crdtMergeTomstoneCommand_ok hm with ⟨s', rfl, -⟩ | ⟨key, obj, -, rfl⟩
    · exact h.live d
    · exact (h.live d).mergeTombstoneObject w.server key obj
  | lookup d key env =>
    obtain ⟨r, hr, rfl⟩ := map_eq_some_iff.1 hw
    exact h.setDb d (live_lookupKeyWrite (h.live d) hr)
  | activeExpire d key now =>
    obtain rfl := some.inj hw
    split_ifs
    · exact h.setDb d ((h.live d).deleteExpired key)
    · exact h
  | evict d key =>
    obtain rfl := some.inj hw
    split_ifs
    · exact h.setDb d (((h.live d).setTombstone key none).delete key)
    · exact h
  | flush d =>
    cases d with
    | some d =>
      obtain rfl := some.inj hw
      exact h.setDb d live_emptyDb
    | none =>
      obtain rfl := some.inj hw
      exact allLive_of_live fun _ => live_emptyDb
  | loadCrdtData d key expire =>
    rw [KeyOp.apply] at hw
    split_ifs at hw
    · obtain ⟨db', hdb', rfl⟩ := map_eq_some_iff.1 hw
      exact h.setDb d (live_setExpireAsserted (h.live d) hdb')
    · exact some.inj hw ▸ h
  | loadPlain d key val expire =>
    rw [KeyOp.apply] at hw
    obtain ⟨-, hw⟩ := ite_none_left_eq_some.1 hw
    split_ifs at hw
    · exact some.inj hw ▸ h.setDb d ((h.live d).add key val)
    · obtain ⟨db', hdb', rfl⟩ := map_eq_some_iff.1 hw
      exact h.setDb d (live_setExpireAsserted ((h.live d).add key val) hdb')

/-- One that is not permitted does not. -/
theorem not_live_of_not_permitted {op : KeyOp Obj} (h : AllLive w) (hok : ¬ Permitted w op)
    (hw : op.apply M null w = some w') : ¬ AllLive w' := by
  cases op with
  | dbDelete d key =>
    obtain rfl := some.inj hw
    intro hlive
    refine hok ((live_rmDbDelete_iff (h.live d)).1 ?_)
    have hdb := hlive.live d
    change Live (update w.dbs d (rmDbDelete (w.dbs d) key) d) at hdb
    rwa [update_self] at hdb
  | _ => exact absurd trivial hok

end Runs

/-- In every run in which `RM_DbDelete` is called only for keys without an expire, expires belong
to keys in every state; and any other call of it, from such a state, loses that. -/
theorem expires_belong_to_keys (M : Module Obj) (null : Obj) [DecidableEq Obj] :
    (∀ w, (keySystem M null).Reachable Permitted w → AllLive w) ∧
      ∀ w op w', AllLive w → ¬ Permitted w op → (keySystem M null).next w op = some w' →
        ¬ AllLive w' := by
  refine ⟨fun w h => ?_, fun w op w' h hok hw => not_live_of_not_permitted h hok hw⟩
  refine h.invariant (P := AllLive) ?_ ?_
  · rintro w ⟨hempty, -⟩
    exact allLive_of_live fun d => by
      rw [hempty d]
      exact live_emptyDb
  · exact fun w op w' hlive hok hw => keyOp_live hlive hok hw

/-! ## A run of the module -/

/-- A module without methods, whose objects are numbers. -/
def plainModule : Module Nat where
  load _ := .bad
  type _ := 0
  getDataType _ := 0
  isData _ := false
  isTombstone _ := false
  objectMethod _ := false
  tombstoneMethod _ := false
  merge _ x := x
  mergeTombstone y _ := y
  purge t v := (.neither, t, v)
  propagateDel _ t := t

def emptyKeys : KeyWorld Nat := ⟨loneNode, fun _ => emptyDb, fun _ => none⟩

/-- A key is written, opened, and given an expire. -/
def writeWithExpire : List (KeyOp Nat) :=
  [.dbSetValue 0 (ascii "a") 1 ⟨0, false, false⟩, .openKey 0 0 (ascii "a") true ⟨0, false, false⟩,
    .setExpireAt 0 1000]

/-- The key can be deleted through its handle. -/
theorem expires_belong_after_deleteKey :
    ∃ w, (keySystem plainModule 0).run emptyKeys (writeWithExpire ++ [.deleteKey 0]) = some w ∧
      AllLive w := by
  obtain ⟨w, hw⟩ := isSome_iff_exists.1 (show ((keySystem plainModule 0).run emptyKeys
    (writeWithExpire ++ [.deleteKey 0])).isSome by decide)
  refine ⟨w, hw, (expires_belong_to_keys plainModule 0).1 w ?_⟩
  refine Lib.System.reachable_of_run_of_forall (.init ⟨fun _ => rfl, fun _ => rfl⟩) ?_ hw
  intro op hop s
  simp only [writeWithExpire, List.cons_append, List.nil_append, List.mem_cons, List.not_mem_nil,
    or_false] at hop
  rcases hop with rfl | rfl | rfl | rfl <;> trivial

/-- With `RM_DbDelete` the expire stays behind, and `getExpire` fails for the key. -/
theorem dbDelete_leaves_expire :
    ∃ w, (keySystem plainModule 0).run emptyKeys (writeWithExpire ++ [.dbDelete 0 (ascii "a")]) =
      some w ∧
      (keySystem plainModule 0).Reachable Lib.System.anyStep w ∧ ¬ AllLive w ∧
      (w.dbs 0).getExpireAsserts (ascii "a") = false := by
  obtain ⟨w, hw⟩ := isSome_iff_exists.1 (show ((keySystem plainModule 0).run emptyKeys
    (writeWithExpire ++ [.dbDelete 0 (ascii "a")])).isSome by decide)
  have hassert : (w.dbs 0).getExpireAsserts (ascii "a") = false := by
    have hrun : ((keySystem plainModule 0).run emptyKeys
        (writeWithExpire ++ [.dbDelete 0 (ascii "a")])).map
          (fun w => (w.dbs 0).getExpireAsserts (ascii "a")) = some false := by decide
    rw [hw] at hrun
    exact some.inj hrun
  refine ⟨w, hw, Lib.System.reachable_of_run (.init ⟨fun _ => rfl, fun _ => rfl⟩) hw, ?_, hassert⟩
  intro hlive
  have := hlive.asserts 0 (ascii "a")
  rw [hassert] at this
  cases this

end XredisCrdt.LiveKeys
