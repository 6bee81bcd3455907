import XredisCrdt.Rdb.Keyspace

/-!
# Loading a saved keyspace

The bytes of a saved database are those of its records (`saveDb_eq`), one for each key. A
record is one turn of the loader's loop (`reads_record`) and stores the key in the selected
database; as no key has two records, what is loaded at a key is what its record holds.
-/

namespace XredisCrdt.Rdb

open Lib.Loading Peer List Option

variable {Obj : Type}

/-! ## Records -/

/-- A key as the file holds it. -/
structure KeyRecord (Obj : Type) where
  key : Bytes
  expire : Int
  value : Option Obj
  tombstone : Option Obj

section Records

variable (K : Codec Obj) (S : SaveEnv)

def KeyRecord.bytes (r : KeyRecord Obj) : Bytes :=
  saveExpire r.expire ++ rdbSaveType rdbCrdtValue ++ (saveString K S r.key).written ++
    K.save r.key r.value r.tombstone

/-- The tombstones that are not collected. -/
def kept (tombstone : Obj) : Bool := S.loading || !K.gc tombstone

/-- The record of a key that has a value. -/
def liveRecord (db : RedisDb Obj) (e : Sigma fun _ : Bytes => Obj) : KeyRecord Obj :=
  ⟨e.1, db.getExpire e.1, some e.2, (db.deletedKeys.lookup e.1).filter (kept K S)⟩

/-- The record of a key that has only a tombstone. -/
def deletedRecord (e : Sigma fun _ : Bytes => Obj) : KeyRecord Obj := ⟨e.1, -1, none, some e.2⟩

/-- The database after the loop over these entries of its `dict`. -/
def collected (entries : List (Sigma fun _ : Bytes => Obj)) (db : RedisDb Obj) : RedisDb Obj :=
  entries.foldl (fun db e => db.gcIfNeeded K S.loading e.1) db

/-- The entries of `deleted_keys` that the second loop writes. -/
def onlyDeleted (db : RedisDb Obj) : List (Sigma fun _ : Bytes => Obj) :=
  db.deletedKeys.entries.filter fun e => (db.dict.lookup e.1).isNone

/-- The records of a database. -/
def dbRecords (db : RedisDb Obj) : List (KeyRecord Obj) :=
  db.dict.entries.map (liveRecord K S db) ++
    (onlyDeleted (collected K S db.dict.entries db)).map deletedRecord

end Records

variable {K : Codec Obj} {S : SaveEnv}

/-! ## Collecting tombstones -/

variable {dbs : List (RedisDb Obj)} {j : Nat} {r : KeyRecord Obj} {st : LoadState Obj}
  (db : RedisDb Obj) (l : Bool) (key : Bytes)

@[simp] theorem gcIfNeeded_dict : (db.gcIfNeeded K l key).dict = db.dict := by
  unfold RedisDb.gcIfNeeded
  split
  · rfl
  · split_ifs <;> rfl

@[simp] theorem gcIfNeeded_expires : (db.gcIfNeeded K l key).expires = db.expires := by
  unfold RedisDb.gcIfNeeded
  split
  · rfl
  · split_ifs <;> rfl

theorem gcIfNeeded_lookup_ne {key k : Bytes} (h : k ≠ key) :
    (db.gcIfNeeded K l key).deletedKeys.lookup k = db.deletedKeys.lookup k := by
  unfold RedisDb.gcIfNeeded
  split
  · rfl
  · split_ifs
    · rfl
    · exact AList.lookup_erase_ne h
    · rfl

theorem gcIfNeeded_lookup_self : (db.gcIfNeeded K S.loading key).deletedKeys.lookup key =
      (db.deletedKeys.lookup key).filter (kept K S) := by
  unfold RedisDb.gcIfNeeded
  cases h : db.deletedKeys.lookup key with
  | none => exact h
  | some t =>
    show (if S.loading = true then db else if K.gc t = true then _ else db).deletedKeys.lookup key =
      if kept K S t = true then some t else none
    unfold kept
    cases hl : S.loading with
    | true => exact h
    | false =>
      cases hg : K.gc t with
      | true => exact AList.lookup_erase _ _
      | false => exact h

theorem filter_kept_idem (t : Option Obj) :
    (t.filter (kept K S)).filter (kept K S) = t.filter (kept K S) := by
  rw [Option.filter_filter]
  simp only [Bool.and_self]

/-- Collecting at one key changes no record. -/
theorem liveRecord_gcIfNeeded (e : Sigma fun _ : Bytes => Obj) :
    liveRecord K S (db.gcIfNeeded K S.loading key) e = liveRecord K S db e := by
  have htomb : ((db.gcIfNeeded K S.loading key).deletedKeys.lookup e.1).filter (kept K S) =
      (db.deletedKeys.lookup e.1).filter (kept K S) := by
    by_cases h : e.1 = key
    · rw [h, gcIfNeeded_lookup_self, filter_kept_idem]
    · rw [gcIfNeeded_lookup_ne db _ h]
  rw [liveRecord, liveRecord, htomb, RedisDb.getExpire, gcIfNeeded_expires]
  rfl

variable (entries : List (Sigma fun _ : Bytes => Obj))

theorem collected_dict : (collected K S entries db).dict = db.dict := by
  induction entries generalizing db with
  | nil => rfl
  | cons e entries ih => exact (ih _).trans (gcIfNeeded_dict _ _ _)

theorem collected_expires : (collected K S entries db).expires = db.expires := by
  induction entries generalizing db with
  | nil => rfl
  | cons e entries ih => exact (ih _).trans (gcIfNeeded_expires _ _ _)

theorem collected_lookup (k : Bytes) : (collected K S entries db).deletedKeys.lookup k =
      if k ∈ entries.map Sigma.fst then (db.deletedKeys.lookup k).filter (kept K S)
      else db.deletedKeys.lookup k := by
  induction entries generalizing db with
  | nil => rfl
  | cons e entries ih =>
    show (collected K S entries (db.gcIfNeeded K S.loading e.1)).deletedKeys.lookup k = _
    rw [ih]
    by_cases hk : k = e.1
    · -- collected now; a later visit of the same key would not change it
      subst hk
      rw [gcIfNeeded_lookup_self, filter_kept_idem, ite_self, if_pos (by simp)]
    · rw [gcIfNeeded_lookup_ne db _ hk]
      have hmem : k ∈ (e :: entries).map Sigma.fst ↔ k ∈ entries.map Sigma.fst := by
        rw [map_cons, mem_cons, or_iff_right hk]
      simp only [hmem]

/-! ## The bytes of a database -/

theorem saveKey_eq {key : Bytes} {o : Obj} (h : K.isModuleCrdt o = true) : saveKey K S db key o =
      ((liveRecord K S db ⟨key, o⟩).bytes K S, db.gcIfNeeded K S.loading key) := by
  have htomb := @gcIfNeeded_lookup_self _ K S db key
  unfold saveKey
  simp only [h, if_true, htomb]
  rfl

theorem saveKeys_eq (h : ∀ e ∈ entries, K.isModuleCrdt e.2 = true) : saveKeys K S entries db =
      ((entries.map (liveRecord K S db)).flatMap (KeyRecord.bytes K S),
        collected K S entries db) := by
  induction entries generalizing db with
  | nil => rfl
  | cons e entries ih =>
    obtain ⟨key, o⟩ := e
    have hsame : entries.map (liveRecord K S (db.gcIfNeeded K S.loading key)) =
        entries.map (liveRecord K S db) :=
      map_congr_left fun e _ => liveRecord_gcIfNeeded db key e
    rw [saveKeys, saveKey_eq db (h _ mem_cons_self),
      ih _ fun e he => h e (mem_cons_of_mem _ he), hsame]
    rfl

theorem saveDeletedKeys_eq : saveDeletedKeys K S db entries =
      ((entries.filter fun e => (db.dict.lookup e.1).isNone).map deletedRecord).flatMap
        (KeyRecord.bytes K S) := by
  induction entries with
  | nil => rfl
  | cons e entries ih =>
    obtain ⟨key, o⟩ := e
    rw [saveDeletedKeys, ih]
    cases h : (db.dict.lookup key).isSome with
    | true =>
      have hnone : (db.dict.lookup key).isNone = false := by
        rw [← not_isSome, h]
        rfl
      rw [filter_cons_of_neg (by simp [hnone])]
      rfl
    | false =>
      have hnone : (db.dict.lookup key).isNone = true := by
        rw [← not_isSome, h]
        rfl
      rw [filter_cons_of_pos (by simp [hnone])]
      rfl

/-- The section of a database in the file. -/
def dbBytes (K : Codec Obj) (S : SaveEnv) (j : Nat) (db : RedisDb Obj) : Bytes :=
  if db.dict.entries.isEmpty && db.deletedKeys.entries.isEmpty then []
  else saveSelect j db ++ (dbRecords K S db).flatMap (KeyRecord.bytes K S)

theorem saveDb_eq (j : Nat) (db : RedisDb Obj)
    (h : ∀ e ∈ db.dict.entries, K.isModuleCrdt e.2 = true) :
    saveDb K S j db = (dbBytes K S j db, collected K S db.dict.entries db) := by
  unfold saveDb dbBytes
  cases hempty : db.dict.entries.isEmpty && db.deletedKeys.entries.isEmpty with
  | true =>
    have hnil : db.dict.entries = [] := List.isEmpty_iff.1 (Bool.and_eq_true_iff.1 hempty).1
    rw [if_pos rfl, if_pos rfl, hnil]
    rfl
  | false =>
    rw [if_neg (by simp), if_neg (by simp), saveKeys_eq db _ h]
    show (saveSelect j db ++ _ ++ saveDeletedKeys K S _ _, _) = _
    rw [saveDeletedKeys_eq, append_assoc, dbRecords, flatMap_append]
    rfl

/-! ## The keys of the records -/

theorem dbRecords_keys : (dbRecords K S db).map KeyRecord.key =
      db.dict.keys ++ (onlyDeleted (collected K S db.dict.entries db)).map Sigma.fst := by
  rw [dbRecords, map_append, List.map_map, List.map_map]
  rfl

theorem mem_onlyDeleted {db : RedisDb Obj} {e : Sigma fun _ : Bytes => Obj} :
    e ∈ onlyDeleted db ↔ db.deletedKeys.lookup e.1 = some e.2 ∧ db.dict.lookup e.1 = none := by
  rw [onlyDeleted, mem_filter, isNone_iff_eq_none]
  exact and_congr_left fun _ => AList.mem_lookup_iff.symm

/-- No key has two records. -/
theorem dbRecords_nodup : ((dbRecords K S db).map KeyRecord.key).Nodup := by
  rw [dbRecords_keys]
  refine List.Nodup.append db.dict.nodupKeys ?_ ?_
  · exact ((collected K S db.dict.entries db).deletedKeys.nodupKeys).sublist filter_sublist
  · intro k hlive hdeleted
    obtain ⟨e, he, rfl⟩ := mem_map.1 hdeleted
    have hnone := (mem_onlyDeleted.1 he).2
    rw [collected_dict] at hnone
    have hsome := AList.lookup_isSome.2 hlive
    rw [hnone] at hsome
    cases hsome

theorem mem_dbRecords_keys (k : Bytes) :
    k ∈ (dbRecords K S db).map KeyRecord.key ↔ (db.dict.lookup k).isSome ∨
      ((collected K S db.dict.entries db).deletedKeys.lookup k).isSome := by
  rw [dbRecords_keys, mem_append]
  constructor
  · rintro (h | h)
    · exact .inl (AList.lookup_isSome.2 h)
    · obtain ⟨e, he, rfl⟩ := mem_map.1 h
      exact .inr (isSome_iff_exists.2 ⟨e.2, (mem_onlyDeleted.1 he).1⟩)
  · rintro (h | h)
    · exact .inl (AList.lookup_isSome.1 h)
    · cases hlive : db.dict.lookup k with
      | some o => exact .inl (AList.lookup_isSome.1 (by rw [hlive]; rfl))
      | none =>
        obtain ⟨t, ht⟩ := isSome_iff_exists.1 h
        refine .inr (mem_map.2 ⟨⟨k, t⟩, mem_onlyDeleted.2 ⟨ht, ?_⟩, rfl⟩)
        rw [collected_dict]
        exact hlive

/-! ## Restoring records -/

namespace RedisDb

variable {key : Bytes}

theorem put_slot_ne (db : RedisDb Obj) {k : Bytes} (h : k ≠ key) (value tombstone : Option Obj) :
    (db.put key value tombstone).slot k = db.slot k := by
  cases value <;> cases tombstone <;> simp only [put, elim_none, elim_some, slot, add, setTombstone,
      AList.lookup_insert_ne h]

theorem put_slot_self {db : RedisDb Obj} (h : db.slot key = (none, none, none))
    (value tombstone : Option Obj) :
    (db.put key value tombstone).slot key = (value, none, tombstone) := by
  obtain ⟨hdict, hexpires, hdeleted⟩ : db.dict.lookup key = none ∧ db.expires.lookup key = none ∧
      db.deletedKeys.lookup key = none := by
    simpa only [slot, Prod.mk.injEq] using h
  cases value <;> cases tombstone <;> simp only [put, elim_none, elim_some, slot, add, setTombstone,
      AList.lookup_insert, hdict, hexpires, hdeleted]

theorem restoreExpire_slot_ne (db : RedisDb Obj) {k : Bytes} (h : k ≠ key) (time : Int) :
    (db.restoreExpire key time).slot k = db.slot k := by
  unfold restoreExpire
  split_ifs
  · simp only [slot, setExpire, AList.lookup_insert_ne h]
  · rfl

end RedisDb

namespace KeyRecord

/-- What a record adds to the selected database. -/
def restore (db : RedisDb Obj) (r : KeyRecord Obj) : RedisDb Obj :=
  (db.put r.key r.value r.tombstone).restoreExpire r.key r.expire

/-- The expire time that is stored with a record. -/
def storedExpire (r : KeyRecord Obj) : Option Int :=
  if r.value.isSome ∧ r.expire ≠ -1 then some r.expire else none

variable {db : RedisDb Obj} {r : KeyRecord Obj}

theorem restore_slot_ne (db : RedisDb Obj) {k : Bytes} (h : k ≠ r.key) :
    (r.restore db).slot k = db.slot k := by
  rw [restore, RedisDb.restoreExpire_slot_ne _ h, RedisDb.put_slot_ne _ h]

theorem restore_slot_self (h : db.slot r.key = (none, none, none)) :
    (r.restore db).slot r.key = (r.value, r.storedExpire, r.tombstone) := by
  have hput := RedisDb.put_slot_self h r.value r.tombstone
  obtain ⟨hdict, hexpires, hdeleted⟩ :
      (db.put r.key r.value r.tombstone).dict.lookup r.key = r.value ∧
      (db.put r.key r.value r.tombstone).expires.lookup r.key = none ∧
      (db.put r.key r.value r.tombstone).deletedKeys.lookup r.key = r.tombstone := by
    simpa only [RedisDb.slot, Prod.mk.injEq] using hput
  unfold restore RedisDb.restoreExpire storedExpire
  split_ifs with hset hstored hstored
  · simp only [RedisDb.slot, RedisDb.setExpire, AList.lookup_insert, hdict, hdeleted]
  · exact absurd (hdict ▸ hset) hstored
  · exact absurd (hdict.symm ▸ hstored) hset
  · exact hput

variable {rs : List (KeyRecord Obj)}

theorem foldl_restore_slot_not_mem {k : Bytes} (h : k ∉ rs.map KeyRecord.key) :
    (rs.foldl restore db).slot k = db.slot k := by
  induction rs generalizing db with
  | nil => rfl
  | cons r rs ih =>
    rw [map_cons, mem_cons, not_or] at h
    rw [foldl_cons, ih h.2, restore_slot_ne db h.1]

/-- As no key has two records, the one it has decides what is loaded. -/
theorem foldl_restore_slot_mem (hr : r ∈ rs) (hnodup : (rs.map KeyRecord.key).Nodup)
    (h : db.slot r.key = (none, none, none)) :
    (rs.foldl restore db).slot r.key = (r.value, r.storedExpire, r.tombstone) := by
  induction rs generalizing db with
  | nil => cases hr
  | cons r' rs ih =>
    obtain ⟨hnew, hnodup⟩ := nodup_cons.1 hnodup
    rw [foldl_cons]
    rcases mem_cons.1 hr with rfl | hr
    · rw [foldl_restore_slot_not_mem hnew, restore_slot_self h]
    · have hne : r.key ≠ r'.key := by
        intro heq
        exact hnew (heq ▸ mem_map_of_mem hr)
      exact ih hr hnodup ((restore_slot_ne db hne).trans h)

end KeyRecord

/-! ## Reading one record -/

theorem reads_orFail {α : Type} {x : Option α} {a : α} (h : x = some a) :
    Reads (orFail x) [] a := by
  intro rest
  rw [h]
  rfl

/-- A record of CRDT data with a key below 2 GB and the expire time of a C program. -/
structure KeyRecord.Storable (K : Codec Obj) (r : KeyRecord Obj) : Prop where
  key : r.key.length < 2 ^ 31
  expire : -2 ^ 63 ≤ r.expire ∧ r.expire < 2 ^ 63
  value : ∀ o ∈ r.value, K.isModuleCrdt o = true
  tombstone : ∀ o ∈ r.tombstone, K.isModuleCrdt o = true
  present : r.value.isSome ∨ r.tombstone.isSome

variable {E : LoadEnv Obj}

theorem reads_loadKey (hK : K.Inverts) (hr : r.Storable K) {db : RedisDb Obj}
    (hdb : st.dbs[st.db]? = some db) (hnew : db.slot r.key = (none, none, none)) (crdt : Bool) :
    Reads (loadKey K E crdt st rdbCrdtValue r.expire)
      ((saveString K S r.key).written ++ K.save r.key r.value r.tombstone)
      { st with dbs := st.dbs.set st.db (r.restore db) } := by
  rw [loadKey, if_pos rfl]
  refine (reads_orFail hdb).bind (p := []) ?_
  have hdata : Reads (rdbLoadCrdtData K db r.expire)
      ((saveString K S r.key).written ++ K.save r.key r.value r.tombstone) (r.restore db) := by
    refine (@reads_rawString ⟨K.lzf, S.rdbCompression⟩ _ hr.key).bind ?_
    exact (hK db r.key r.value r.tombstone hnew hr.value hr.tombstone hr.present).bind_pure
  exact hdata.bind_pure

/-- A record is one turn of the loop. -/
theorem reads_record (hK : K.Inverts) (hr : r.Storable K) {db : RedisDb Obj}
    (hdb : st.dbs[st.db]? = some db) (hnew : db.slot r.key = (none, none, none)) (crdt : Bool) :
    Reads (loadStep K E crdt st) (r.bytes K S)
      (some { st with dbs := st.dbs.set st.db (r.restore db) }) := by
  have hkey := reads_loadKey (S := S) (E := E) hK hr hdb hnew crdt
  unfold KeyRecord.bytes saveExpire
  by_cases hexpire : r.expire = -1
  · -- no expire time, and the loader starts with the same `-1`
    rw [hexpire] at hkey
    rw [if_neg (not_not.2 hexpire), nil_append, append_assoc]
    refine (reads_type rdbCrdtValue).bind ?_
    rw [if_neg (by decide), if_neg (by decide), if_neg (by decide), if_neg (by decide),
      if_neg (by decide), if_neg (by decide)]
    exact hkey.bind_pure
  · rw [if_pos hexpire, append_assoc, append_assoc, append_assoc]
    refine (reads_type opcodeExpiretimeMs).bind ?_
    rw [if_neg (by decide), if_pos rfl]
    refine (reads_millisecondTime hr.expire.1 hr.expire.2).bind (Reads.after_check hexpire ?_)
    exact (reads_type rdbCrdtValue).bind hkey.bind_pure

/-- All records of a database are read into it, if each has a key of its own. -/
theorem steps_records (hK : K.Inverts) (crdt : Bool) {reader : AuxReader}
    {rs : List (KeyRecord Obj)} (hrs : ∀ r ∈ rs, r.Storable K)
    (hnodup : (rs.map KeyRecord.key).Nodup) {db : RedisDb Obj} (hdb : dbs[j]? = some db)
    (hnew : ∀ r ∈ rs, db.slot r.key = (none, none, none)) :
    Steps (loadStep K E crdt) ⟨dbs, j, reader⟩ (rs.flatMap (KeyRecord.bytes K S))
      ⟨dbs.set j (rs.foldl KeyRecord.restore db), j, reader⟩ := by
  induction rs generalizing dbs db with
  | nil =>
    obtain ⟨hj, rfl⟩ := List.getElem?_eq_some_iff.1 hdb
    rw [foldl_nil, set_getElem_self hj]
    exact .refl _
  | cons r rs ih =>
    have hfirst : Reads (loadStep K E crdt ⟨dbs, j, reader⟩) (r.bytes K S)
        (some ⟨dbs.set j (r.restore db), j, reader⟩) :=
      reads_record hK (hrs r mem_cons_self) hdb (hnew r mem_cons_self) crdt
    obtain ⟨hfresh, hnodup⟩ := nodup_cons.1 hnodup
    have hstill : ∀ r' ∈ rs, (r.restore db).slot r'.key = (none, none, none) := by
      intro r' hr'
      have hne : r'.key ≠ r.key := fun heq => hfresh (heq ▸ mem_map_of_mem hr')
      rw [KeyRecord.restore_slot_ne db hne]
      exact hnew r' (mem_cons_of_mem _ hr')
    have hj : j < dbs.length := (List.getElem?_eq_some_iff.1 hdb).1
    have hset : (dbs.set j (r.restore db))[j]? = some (r.restore db) := getElem?_set_self hj
    have hothers := ih (fun r' h => hrs r' (mem_cons_of_mem _ h)) hnodup hset hstill
    rw [set_set] at hothers
    exact .cons hfirst hothers

/-! ## Reading a database -/

theorem reads_select (hj : j < rdbLenErr) (hdbs : j < st.dbs.length) (crdt : Bool) :
    Reads (loadStep K E crdt st) (rdbSaveType opcodeSelectdb ++ rdbSaveLen j)
      (some { st with db := j }) := by
  refine (reads_type opcodeSelectdb).bind ?_
  rw [if_neg (by decide), if_neg (by decide), if_neg (by decide), if_pos rfl]
  have hcheck : Reads (check (j < st.dbs.length) >>= fun _ => pure (some { st with db := j })) []
      (some { st with db := j }) := Reads.after_check hdbs (reads_pure _)
  have hread := (reads_len hj).bind
    (f := fun dbid => check (dbid < st.dbs.length) >>= fun _ => pure (some { st with db := dbid }))
    hcheck
  rwa [append_nil] at hread

theorem reads_size (size : Nat) : Reads rdbLoadLen (saveSize size) (min size (2 ^ 32 - 1)) := by
  refine reads_len ?_
  have : min size (2 ^ 32 - 1) ≤ 2 ^ 32 - 1 := Nat.min_le_right _ _
  unfold rdbLenErr
  omega

/-- The three sizes are passed over. -/
theorem reads_resize (st : LoadState Obj) (dict expires deletedKeys : Nat) :
    Reads (loadStep K E true st)
      (rdbSaveType opcodeResizedb ++ saveSize dict ++ saveSize expires ++ saveSize deletedKeys)
      (some st) := by
  rw [append_assoc, append_assoc]
  refine (reads_type opcodeResizedb).bind ?_
  rw [if_neg (by decide), if_neg (by decide), if_neg (by decide), if_neg (by decide), if_pos rfl]
  refine (reads_size dict).bind ((reads_size expires).bind ?_)
  exact (reads_size deletedKeys).bind_pure (f := fun _ => some st)

/-- A database of CRDT data, with keys below 2 GB and the expire times of a C program. -/
structure RedisDb.Storable (K : Codec Obj) (db : RedisDb Obj) : Prop where
  dict : ∀ e ∈ db.dict.entries, K.isModuleCrdt e.2 = true ∧ e.1.length < 2 ^ 31
  expires : ∀ e ∈ db.expires.entries, -2 ^ 63 ≤ e.2 ∧ e.2 < 2 ^ 63
  deletedKeys : ∀ e ∈ db.deletedKeys.entries, K.isModuleCrdt e.2 = true ∧ e.1.length < 2 ^ 31

/-- A tombstone that is left was there before. -/
theorem lookup_of_collected {db : RedisDb Obj} {key : Bytes} {t : Obj}
    (h : (collected K S entries db).deletedKeys.lookup key = some t) :
    db.deletedKeys.lookup key = some t := by
  rw [collected_lookup] at h
  split_ifs at h
  · exact (filter_eq_some_iff.1 h).1
  · exact h

theorem dbRecords_storable {db : RedisDb Obj} (hdb : db.Storable K) (hr : r ∈ dbRecords K S db) :
    r.Storable K := by
  rcases mem_append.1 hr with hr | hr
  · obtain ⟨e, he, rfl⟩ := mem_map.1 hr
    obtain ⟨hcrdt, hkey⟩ := hdb.dict e he
    refine ⟨hkey, ?_, ?_, ?_, .inl rfl⟩
    · show -2 ^ 63 ≤ db.getExpire e.1 ∧ db.getExpire e.1 < 2 ^ 63
      unfold RedisDb.getExpire
      cases hexpire : db.expires.lookup e.1 with
      | none => decide
      | some t => exact hdb.expires ⟨e.1, t⟩ (AList.mem_lookup_iff.1 hexpire)
    · intro o ho
      obtain rfl := some.inj ho
      exact hcrdt
    · intro o ho
      have ho := (filter_eq_some_iff.1 ho).1
      exact (hdb.deletedKeys ⟨e.1, o⟩ (AList.mem_lookup_iff.1 ho)).1
  · obtain ⟨e, he, rfl⟩ := mem_map.1 hr
    have he := AList.mem_lookup_iff.2 (mem_filter.1 he).1
    obtain ⟨hcrdt, hkey⟩ := hdb.deletedKeys e (AList.mem_lookup_iff.1 (lookup_of_collected _ he))
    refine ⟨hkey, (by decide : -2 ^ 63 ≤ (-1 : Int) ∧ (-1 : Int) < 2 ^ 63), ?_, ?_, .inr rfl⟩
    · rintro o ⟨⟩
    · intro o ho
      obtain rfl := some.inj ho
      exact hcrdt

/-- The database that is loaded from the records of a saved one. -/
def loadedDb (K : Codec Obj) (S : SaveEnv) (db : RedisDb Obj) : RedisDb Obj :=
  (dbRecords K S db).foldl KeyRecord.restore RedisDb.empty

theorem dbRecords_of_empty {db : RedisDb Obj} (hdict : db.dict.entries = [])
    (hdeleted : db.deletedKeys.entries = []) : dbRecords K S db = [] := by
  rw [dbRecords, hdict]
  show (onlyDeleted db).map deletedRecord = []
  rw [onlyDeleted, hdeleted]
  rfl

theorem steps_db (hK : K.Inverts) {db : RedisDb Obj} (hdb : db.Storable K) (hj : j < rdbLenErr)
    (hempty : dbs[j]? = some RedisDb.empty) (cur : Nat) (reader : AuxReader) :
    ∃ cur', Steps (loadStep K E true) ⟨dbs, cur, reader⟩ (dbBytes K S j db)
      ⟨dbs.set j (loadedDb K S db), cur', reader⟩ := by
  unfold dbBytes
  split_ifs with hskip
  · -- nothing is written, and the database stays empty
    obtain ⟨hdict, hdeleted⟩ := Bool.and_eq_true_iff.1 hskip
    have hrecords := dbRecords_of_empty (K := K) (S := S) (List.isEmpty_iff.1 hdict)
      (List.isEmpty_iff.1 hdeleted)
    obtain ⟨hlen, hget⟩ := List.getElem?_eq_some_iff.1 hempty
    have hset : dbs.set j (loadedDb K S db) = dbs := by
      rw [loadedDb, hrecords, foldl_nil, ← hget, set_getElem_self hlen]
    rw [hset]
    exact ⟨cur, .refl _⟩
  · refine ⟨j, ?_⟩
    have hlen : j < dbs.length := (List.getElem?_eq_some_iff.1 hempty).1
    have hselect : Reads (loadStep K E true ⟨dbs, cur, reader⟩)
        (rdbSaveType opcodeSelectdb ++ rdbSaveLen j) (some ⟨dbs, j, reader⟩) :=
      reads_select hj hlen true
    have hrecords : Steps (loadStep K E true) ⟨dbs, j, reader⟩
        ((dbRecords K S db).flatMap (KeyRecord.bytes K S))
        ⟨dbs.set j (loadedDb K S db), j, reader⟩ :=
      steps_records hK true (fun r hr => dbRecords_storable hdb hr) (dbRecords_nodup db) hempty
        fun _ _ => rfl
    rw [saveSelect, append_assoc]
    exact .cons hselect (.cons (reads_resize _ _ _ _) hrecords)

/-- The loop over the databases, from number `done.length`. -/
theorem steps_dbs (hK : K.Inverts) (hdbs : ∀ db ∈ dbs, db.Storable K) (done : List (RedisDb Obj))
    (hlen : done.length + dbs.length < rdbLenErr) (cur : Nat) (reader : AuxReader) :
    ∃ cur', Steps (loadStep K E true)
      ⟨done ++ dbs.map fun _ => RedisDb.empty, cur, reader⟩ (saveDbs K S done.length dbs).1
      ⟨done ++ dbs.map (loadedDb K S), cur', reader⟩ := by
  induction dbs generalizing done cur with
  | nil => exact ⟨cur, .refl _⟩
  | cons db dbs ih =>
    have hdb := hdbs db mem_cons_self
    rw [length_cons] at hlen
    have hget : (done ++ (db :: dbs).map fun _ => (RedisDb.empty : RedisDb Obj))[done.length]? =
        some RedisDb.empty := by
      rw [map_cons, getElem?_append_right (Nat.le_refl _), Nat.sub_self]
      rfl
    obtain ⟨cur₁, hfirst⟩ := steps_db (S := S) (E := E) hK hdb (by omega) hget cur reader
    have hset : (done ++ (db :: dbs).map fun _ => (RedisDb.empty : RedisDb Obj)).set done.length
        (loadedDb K S db) = (done ++ [loadedDb K S db]) ++ dbs.map fun _ => RedisDb.empty := by
      rw [map_cons, set_append_right _ _ (Nat.le_refl _), Nat.sub_self, append_assoc]
      rfl
    rw [hset] at hfirst
    have hlen' : (done ++ [loadedDb K S db]).length = done.length + 1 := by simp
    obtain ⟨cur₂, hothers⟩ := ih (fun db' h => hdbs db' (mem_cons_of_mem _ h))
      (done ++ [loadedDb K S db]) (by omega) cur₁
    rw [hlen', append_assoc _ _ (dbs.map (loadedDb K S))] at hothers
    refine ⟨cur₂, ?_⟩
    rw [saveDbs, saveDb_eq _ _ fun e he => (hdb.dict e he).1]
    exact hfirst.trans hothers

/-! ## Reading the other fields -/

/-- A field whose strings are below 2 GB. -/
def SizedField (f : AuxField) : Prop := f.key.length < 2 ^ 31 ∧ f.val.length < 2 ^ 31

theorem reads_aux {f : AuxField} (hf : SizedField f) {st' : LoadState Obj} (crdt : Bool)
    (h : Reads (loadField E st f) [] st') :
    Reads (loadStep K E crdt st) (rdbSaveAuxField K S f) (some st') := by
  rw [rdbSaveAuxField, append_assoc]
  refine (reads_type opcodeAux).bind ?_
  rw [if_neg (by decide), if_neg (by decide), if_neg (by decide), if_neg (by decide),
    if_neg (by decide), if_pos rfl]
  have hload : Reads (loadAux K E st)
      ((saveString K S f.key).written ++ (saveString K S f.val).written) st' := by
    refine (@reads_rawString ⟨K.lzf, S.rdbCompression⟩ _ hf.1).bind ?_
    rw [← append_nil (saveString K S f.val).written]
    exact (@reads_rawString ⟨K.lzf, S.rdbCompression⟩ _ hf.2).bind h
  exact hload.bind_pure

/-- A field with one of the server's names. -/
def Named (f : AuxField) : Prop := ∃ k : AuxKey, f.key = k.text

theorem named_strStr (k : AuxKey) (val : Bytes) : Named (rdbSaveAuxFieldStrStr k val) := ⟨k, rfl⟩

theorem named_strInt (k : AuxKey) (val : Int) : Named (rdbSaveAuxFieldStrInt k val) := ⟨k, rfl⟩

theorem named_peer (gid : Fin 16) (p : PeerMaster) : ∀ f ∈ rdbSavePeer gid p, Named f := by
  unfold rdbSavePeer
  cases p.proxy <;> simp only [forall_mem_append, forall_mem_cons, not_mem_nil, false_implies,
      implies_true, named_strStr, named_strInt, and_self]

theorem named_peers (s : CrdtServer) (gids : List (Fin 16)) :
    ∀ f ∈ rdbSavePeers s gids, Named f := by
  intro f hf
  obtain ⟨gid, -, hf⟩ := mem_flatMap.1 hf
  cases hp : s.crdtMasters gid with
  | none =>
    rw [hp] at hf
    cases hf
  | some p =>
    rw [hp] at hf
    exact named_peer gid p f hf

theorem named_fields (i : SaveInfo) (n : RdbNode) : ∀ f ∈ rdbSaveInfoAuxFields i n, Named f := by
  have hpeers := named_peers n.server (List.finRange 16)
  unfold rdbSaveInfoAuxFields rdbSaveCrdtInfoAuxFields
  cases i.rsi <;> simpa only [forall_mem_append, forall_mem_cons, not_mem_nil, false_implies,
      implies_true, named_strStr, named_strInt, and_self, and_true, true_and] using hpeers

/-- No field of the server has a name that is only logged, or that of a script. -/
theorem loadField_named {f : AuxField} (hf : Named f) (st : LoadState Obj) :
    loadField E st f = (orFail (st.reader.read st.dbs.length E.uninitialized f) >>= fun reader =>
      pure { st with reader := reader }) := by
  obtain ⟨k, hk⟩ := hf
  have hother : k.text.head? ≠ some 37 ∧ ¬ strcaseeq k.text (ascii "lua") = true := by
    cases k <;> decide
  rw [loadField, hk, if_neg hother.1, if_neg hother.2]

/-- The fields are read as `rdbLoadAux` reads them. -/
theorem steps_fields {fields : List AuxField} (hnamed : ∀ f ∈ fields, Named f)
    (hsized : ∀ f ∈ fields, SizedField f) {cur : Nat} {reader reader' : AuxReader}
    (h : fields.foldlM (AuxReader.read dbs.length E.uninitialized) reader = some reader') :
    Steps (loadStep K E true) ⟨dbs, cur, reader⟩ (fields.flatMap (rdbSaveAuxField K S))
      ⟨dbs, cur, reader'⟩ := by
  induction fields generalizing reader with
  | nil =>
    obtain rfl := some.inj h
    exact .refl _
  | cons f fields ih =>
    rw [foldlM_cons] at h
    obtain ⟨next, hread, h⟩ := bind_eq_some_iff.1 h
    have hfield : Reads (loadField E ⟨dbs, cur, reader⟩ f) [] ⟨dbs, cur, next⟩ := by
      rw [loadField_named (hnamed f mem_cons_self)]
      exact (reads_orFail hread).bind_pure
    exact .cons (reads_aux (hsized f mem_cons_self) true hfield)
      (ih (fun g hg => hnamed g (mem_cons_of_mem _ hg))
        (fun g hg => hsized g (mem_cons_of_mem _ hg)) h)

theorem steps_scripts (hsized : ∀ body ∈ S.luaScripts, body.length < 2 ^ 31)
    (hlua : ∀ body ∈ S.luaScripts, E.luaCreateFunction body = true) (st : LoadState Obj) :
    Steps (loadStep K E true) st (saveScripts K S) st := by
  unfold saveScripts
  split_ifs with hrsi
  · generalize S.luaScripts = scripts at hsized hlua
    induction scripts with
    | nil => exact .refl _
    | cons body scripts ih =>
      have hlua' := hlua body mem_cons_self
      have hfield : Reads (loadField E st ⟨ascii "lua", body⟩) [] st := by
        have hname : (ascii "lua").head? ≠ some 37 ∧
            strcaseeq (ascii "lua") (ascii "lua") = true := by decide
        rw [loadField, if_neg hname.1, if_pos hname.2]
        exact Reads.after_check hlua' (reads_pure st)
      have hlen : SizedField ⟨ascii "lua", body⟩ :=
        ⟨(by decide : (ascii "lua").length < 2 ^ 31), hsized body mem_cons_self⟩
      exact .cons (reads_aux hlen true hfield) (ih (fun b hb => hsized b (mem_cons_of_mem _ hb))
          (fun b hb => hlua b (mem_cons_of_mem _ hb)))
  · exact .refl st

/-! ## Reading the file -/

theorem reads_eof (st : LoadState Obj) :
    Reads (loadStep K E true st) (rdbSaveType opcodeEof) none := by
  refine (reads_type opcodeEof).bind (q := []) ?_
  rw [if_neg (by decide), if_neg (by decide), if_pos rfl]
  exact reads_pure none

/-- All that is written besides the databases is below 2 GB. -/
structure SaveEnv.Sized (S : SaveEnv) : Prop where
  fields : ∀ f ∈ rdbSaveInfoAuxFields S.info S.node, SizedField f
  scripts : ∀ body ∈ S.luaScripts, body.length < 2 ^ 31

def rdbMagic : Bytes := ascii "REDIS" ++ ll2string rdbVersion

/-- A checksum of zero is not compared. -/
theorem reads_checksum {read footer : Bytes} (hlen : footer.length = 8)
    (h : ofLe footer = 0 ∨ ofLe footer = (K.crc64 read).toNat) :
    Reads (loadChecksum K read) footer () := by
  rw [← append_nil footer]
  exact (reads_takeBytes_of_length hlen).bind (reads_check h)

/-- What `rdbLoadRio` makes of a file with this body and footer. -/
theorem rdbLoadRio_of_loop {node : RdbNode} {body footer : Bytes}
    (hfooter : Reads (loadChecksum K (rdbMagic ++ body)) footer ())
    (h : ∀ fuel, body.length ≤ fuel → Reads (loop (loadStep K E true) fuel ⟨dbs, 0, ⟨node,
      none, 0⟩⟩) body st) :
    rdbLoadRio K E node dbs (rdbMagic ++ body ++ footer) = some st := by
  have hmagic :
      (takeBytes 9).run (rdbMagic ++ (body ++ footer)) = some (rdbMagic, body ++ footer) :=
    reads_takeBytes_of_length (by decide) _
  have hloop := h ((body ++ footer).length + 1) (by rw [length_append]; omega) footer
  have hver : atoi (rdbMagic.drop 5) = 1008 := by decide
  have hread : (rdbMagic ++ (body ++ footer)).take
      ((rdbMagic ++ (body ++ footer)).length - footer.length) = rdbMagic ++ body := by
    rw [← append_assoc, length_append, Nat.add_sub_cancel, take_left]
  have hcksum := hfooter []
  rw [append_nil] at hcksum
  rw [append_assoc, rdbLoadRio, hmagic]
  simp only [bind_eq_bind, bind_some, hver]
  have hcrdt : decide (ctripRdbPrefixVersion < 1008) = true := by decide
  rw [if_neg (by decide), if_neg (by decide), hcrdt, if_neg (by simp)]
  rw [hloop, bind_some, hread, hcksum]
  split_ifs <;> rfl

theorem saveDbs_eq (j : Nat) (hdbs : ∀ db ∈ dbs, db.Storable K) :
    saveDbs K S j dbs = ((dbs.zipIdx j).flatMap fun p => dbBytes K S p.2 p.1,
      dbs.map fun db => collected K S db.dict.entries db) := by
  induction dbs generalizing j with
  | nil => rfl
  | cons db dbs ih =>
    have hfirst := saveDb_eq (S := S) j db fun e he => ((hdbs db mem_cons_self).dict e he).1
    rw [saveDbs, hfirst, ih (j + 1) fun db' h => hdbs db' (mem_cons_of_mem _ h)]
    rfl

/-- Every file is read to its end, and each database from its own records. -/
theorem rdbLoadRio_rdbSaveRio (hK : K.Inverts) (hdbs : ∀ db ∈ dbs, db.Storable K)
    (hnum : dbs.length < 2 ^ 31) (hS : S.Sized)
    (hlua : ∀ body ∈ S.luaScripts, E.luaCreateFunction body = true) {node node' : RdbNode}
    (hnode : rdbLoadAux dbs.length E.uninitialized node (rdbSaveInfoAuxFields S.info S.node) =
      some node') :
    ∃ st, rdbLoadRio K E node (dbs.map fun _ => RedisDb.empty) (rdbSaveRio K S dbs).1 = some st ∧
      st.dbs = dbs.map (loadedDb K S) := by
  obtain ⟨reader, hreader, -⟩ := map_eq_some_iff.1 hnode
  have hlen : (dbs.map fun _ => (RedisDb.empty : RedisDb Obj)).length = dbs.length := by simp
  have hnum' : ([] : List (RedisDb Obj)).length + dbs.length < rdbLenErr := by
    show 0 + dbs.length < 2 ^ 64 - 1
    omega
  have hfields : Steps (loadStep K E true) ⟨dbs.map fun _ => RedisDb.empty, 0, ⟨node, none, 0⟩⟩
      ((rdbSaveInfoAuxFields S.info S.node).flatMap (rdbSaveAuxField K S))
      ⟨dbs.map fun _ => RedisDb.empty, 0, reader⟩ :=
    steps_fields (named_fields _ _) hS.fields (by rw [hlen]; exact hreader)
  obtain ⟨cur, hkeys⟩ := steps_dbs (S := S) (E := E) hK hdbs [] hnum' 0 reader
  have hall := hfields.trans (hkeys.trans (steps_scripts hS.scripts hlua _))
  refine ⟨⟨dbs.map (loadedDb K S), cur, reader⟩, ?_, rfl⟩
  generalize hitems : (rdbSaveInfoAuxFields S.info S.node).flatMap (rdbSaveAuxField K S) ++
    ((saveDbs K S ([] : List (RedisDb Obj)).length dbs).1 ++ saveScripts K S) = items at hall
  have hbody : ascii "REDIS" ++ ll2string rdbVersion ++
      (rdbSaveInfoAuxFields S.info S.node).flatMap (rdbSaveAuxField K S) ++ (saveDbs K S 0 dbs).1 ++
      saveScripts K S ++ rdbSaveType opcodeEof = rdbMagic ++ (items ++ rdbSaveType opcodeEof) := by
    rw [← hitems]
    simp only [rdbMagic, append_assoc, length_nil]
  unfold rdbSaveRio
  simp only [hbody]
  refine rdbLoadRio_of_loop (reads_checksum (leBytes_length 8 _) ?_) ?_
  · rw [ofLe_leBytes_of_lt (UInt64.toNat_lt _)]
    split_ifs
    · exact .inr rfl
    · exact .inl rfl
  · intro fuel hfuel
    rw [length_append] at hfuel
    have hone : (rdbSaveType opcodeEof).length = 1 := rfl
    exact hall.reads_loop (fun _ => rfl) (reads_eof _) (by omega)

/-! ## What is loaded at a key -/

/-- What is loaded at each key. -/
theorem loadedDb_slot (k : Bytes) :
    (loadedDb K S db).slot k = (db.dict.lookup k, (db.expires.lookup k).filter (· ≠ -1),
      (collected K S db.dict.entries db).deletedKeys.lookup k) := by
  have hnew : ∀ k, (RedisDb.empty : RedisDb Obj).slot k = (none, none, none) := fun _ => rfl
  cases hlive : db.dict.lookup k with
  | some o =>
    have hmem : (⟨k, o⟩ : Sigma fun _ : Bytes => Obj) ∈ db.dict.entries :=
      AList.mem_lookup_iff.1 hlive
    have hrecord : liveRecord K S db ⟨k, o⟩ ∈ dbRecords K S db :=
      mem_append_left _ (mem_map_of_mem hmem)
    have hslot := KeyRecord.foldl_restore_slot_mem hrecord (dbRecords_nodup db) (hnew _)
    have htomb : (collected K S db.dict.entries db).deletedKeys.lookup k =
        (db.deletedKeys.lookup k).filter (kept K S) := by
      rw [collected_lookup, if_pos (mem_map.2 ⟨_, hmem, rfl⟩)]
    have hexpire : (liveRecord K S db ⟨k, o⟩).storedExpire =
        (db.expires.lookup k).filter (· ≠ -1) := by
      show (if (some o).isSome ∧ (db.expires.lookup k).getD (-1) ≠ -1 then _ else none) = _
      cases hk : db.expires.lookup k with
      | none => rfl
      | some t =>
        show (if (some o).isSome ∧ t ≠ -1 then some (db.getExpire k) else none) = _
        rw [RedisDb.getExpire, hk]
        simp [Option.filter]
    rw [htomb, ← hexpire]
    exact hslot
  | none =>
    have hexpire : db.expires.lookup k = none := by
      cases h : db.expires.lookup k with
      | none => rfl
      | some t =>
        have := db.expires_live k (by rw [h]; rfl)
        rw [hlive] at this
        cases this
    rw [hexpire]
    cases htomb : (collected K S db.dict.entries db).deletedKeys.lookup k with
    | some t =>
      have hrecord : deletedRecord ⟨k, t⟩ ∈ dbRecords K S db := by
        refine mem_append_right _ (mem_map_of_mem (mem_onlyDeleted.2 ⟨htomb, ?_⟩))
        rw [collected_dict]
        exact hlive
      exact KeyRecord.foldl_restore_slot_mem hrecord (dbRecords_nodup db) (hnew _)
    | none =>
      have hno : k ∉ (dbRecords K S db).map KeyRecord.key := by
        rw [mem_dbRecords_keys, hlive, htomb]
        simp
      exact (KeyRecord.foldl_restore_slot_not_mem hno).trans (hnew k)

/-! ## The round trip -/

/-- What became of a database: `saved` is what the saving server has afterwards, and `loaded`
what another has from the file. A tombstone is missing only if its key has a value and the
`gcVectorClock` allows to collect it, and an expire time only if it is the `-1` that stands for
none. -/
structure RoundTrip (K : Codec Obj) (S : SaveEnv) (db saved loaded : RedisDb Obj) : Prop where
  dict : ∀ key, loaded.dict.lookup key = db.dict.lookup key
  expires : ∀ key, loaded.expires.lookup key = (db.expires.lookup key).filter (· ≠ -1)
  deletedKeys : ∀ key, loaded.deletedKeys.lookup key =
    if (db.dict.lookup key).isSome then
      (db.deletedKeys.lookup key).filter fun tombstone => S.loading || !K.gc tombstone
    else db.deletedKeys.lookup key
  written : ∀ key, ((dbRecords K S db).map KeyRecord.key).count key =
    if (loaded.dict.lookup key).isSome ∨ (loaded.deletedKeys.lookup key).isSome then 1 else 0
  unchanged : saved.dict = db.dict ∧ saved.expires = db.expires

theorem roundTrip_loadedDb :
    RoundTrip K S db (collected K S db.dict.entries db) (loadedDb K S db) := by
  have hslot : ∀ key, (loadedDb K S db).dict.lookup key = db.dict.lookup key ∧
      (loadedDb K S db).expires.lookup key = (db.expires.lookup key).filter (· ≠ -1) ∧
      (loadedDb K S db).deletedKeys.lookup key =
        (collected K S db.dict.entries db).deletedKeys.lookup key := by
    intro key
    have := loadedDb_slot (K := K) (S := S) db key
    simpa only [RedisDb.slot, Prod.mk.injEq] using this
  refine ⟨fun key => (hslot key).1, fun key => (hslot key).2.1, fun key => ?_, fun key => ?_,
    collected_dict db _, collected_expires db _⟩
  · rw [(hslot key).2.2, collected_lookup]
    have hmem : key ∈ db.dict.entries.map Sigma.fst ↔ (db.dict.lookup key).isSome :=
      AList.lookup_isSome.symm
    simp only [hmem]
    rfl
  · rw [(hslot key).1, (hslot key).2.2]
    split_ifs with h
    · exact count_eq_one_of_mem (dbRecords_nodup db) ((mem_dbRecords_keys db key).2 h)
    · exact count_eq_zero_of_not_mem fun hkey => h ((mem_dbRecords_keys db key).1 hkey)

/-- Saving and loading gives every database back, key by key. The file consists of one section
for each database, which consists of its records. Every count that a saver returns for a key or
a field is that of the bytes, so none of them gives up. -/
theorem rdb_round_trip (hK : K.Inverts) {dbs : List (RedisDb Obj)}
    (hdbs : ∀ db ∈ dbs, db.Storable K) (hnum : dbs.length < 2 ^ 31) (hS : S.Sized)
    (hlua : ∀ body ∈ S.luaScripts, E.luaCreateFunction body = true) {node node' : RdbNode}
    (hnode : rdbLoadAux dbs.length E.uninitialized node (rdbSaveInfoAuxFields S.info S.node) =
      some node') :
    (∃ st, rdbLoadRio K E node (dbs.map fun _ => RedisDb.empty) (rdbSaveRio K S dbs).1 = some st ∧
      st.dbs.length = dbs.length ∧
      ∀ (j : Nat) (db : RedisDb Obj), dbs[j]? = some db →
        ∃ saved loaded, (rdbSaveRio K S dbs).2[j]? = some saved ∧ st.dbs[j]? = some loaded ∧
          RoundTrip K S db saved loaded) ∧
    (∃ cksum, (rdbSaveRio K S dbs).1 =
      rdbMagic ++ (rdbSaveInfoAuxFields S.info S.node).flatMap (rdbSaveAuxField K S) ++
        (dbs.zipIdx.flatMap fun p => dbBytes K S p.2 p.1) ++ saveScripts K S ++
        rdbSaveType opcodeEof ++ cksum) ∧
    (∀ db ∈ dbs, ∀ r ∈ dbRecords K S db, (saveString K S r.key).Exact) ∧
    ∀ f ∈ rdbSaveInfoAuxFields S.info S.node,
      (saveString K S f.key).Exact ∧ (saveString K S f.val).Exact := by
  have hsaved := saveDbs_eq (S := S) 0 hdbs
  obtain ⟨st, hload, hst⟩ := rdbLoadRio_rdbSaveRio (E := E) hK hdbs hnum hS hlua hnode
  refine ⟨⟨st, hload, by rw [hst, length_map], ?_⟩, ?_,
    fun db hdb r hr => rawString_exact (dbRecords_storable (hdbs db hdb) hr).key,
    fun f hf => ⟨rawString_exact (hS.fields f hf).1, rawString_exact (hS.fields f hf).2⟩⟩
  · intro j db hdb
    refine ⟨collected K S db.dict.entries db, loadedDb K S db, ?_, ?_, roundTrip_loadedDb db⟩
    · show (saveDbs K S 0 dbs).2[j]? = _
      rw [hsaved, getElem?_map, hdb]
      rfl
    · rw [hst, getElem?_map, hdb]
      rfl
  · unfold rdbSaveRio
    simp only [hsaved]
    exact ⟨_, rfl⟩

/-! ## A module -/

/-- A byte that may be missing. -/
def optionalByte : Option UInt8 → Bytes
  | none => [0]
  | some b => [1, b]

def loadOptionalByte : Loader (Option UInt8) := do
  let present ← takeByte
  if present = 0 then return none
  else do
    let b ← takeByte
    return some b

theorem reads_optionalByte (o : Option UInt8) : Reads loadOptionalByte (optionalByte o) o := by
  cases o with
  | none => exact (reads_takeByte 0).bind (q := []) (reads_pure none)
  | some b => exact (reads_takeByte 1).bind (q := [b]) (reads_takeByte b).bind_pure

/-- A module whose values and tombstones are bytes; tombstones below 128 can be collected. -/
def byteCodec : Codec UInt8 where
  lzf := .never
  crc64 := fun bytes => UInt64.ofNat bytes.length
  isModuleCrdt := fun _ => true
  save := fun _ value tombstone => optionalByte value ++ optionalByte tombstone
  load := fun db key => do
    let value ← loadOptionalByte
    let tombstone ← loadOptionalByte
    return db.put key value tombstone
  gc := fun tombstone => tombstone.toNat < 128
  objectType := fun _ => 0
  saveObject := fun _ => []
  loadObject := fun _ => failure

theorem byteCodec_inverts : byteCodec.Inverts := fun _ _ value tombstone _ _ _ _ =>
  (reads_optionalByte value).bind (reads_optionalByte tombstone).bind_pure

/-- A server without peers. -/
def peerlessEnv : SaveEnv where
  rdbCompression := true
  rdbChecksum := true
  loading := false
  now := 5000
  info := someSaveInfo
  node := unloadedNode
  luaScripts := []

def plainLoadEnv : LoadEnv UInt8 where
  rdbChecksum := true
  now := 5000
  hasMaster := false
  initedCrdtServer := true
  uninitialized := []
  luaCreateFunction := fun _ => true
  convert := fun _ _ _ _ _ => none

theorem peerlessEnv_sized : peerlessEnv.Sized := by
  refine ⟨?_, fun body h => by cases h⟩
  unfold SizedField
  decide +kernel

theorem peerlessEnv_readable (dbnum : Nat) : ∃ node', rdbLoadAux dbnum [] unloadedNode
      (rdbSaveInfoAuxFields peerlessEnv.info peerlessEnv.node) = some node' := by
  have htyped : unloadedNode.Typed :=
    ⟨(by decide : -(2 ^ 63) ≤ (0 : Int) ∧ (0 : Int) < 2 ^ 63), (by decide : 0 < 2 ^ 32),
      fun i p h => by cases h⟩
  have hpeers : rdbSavePeers unloadedNode.server (List.finRange 16) = [] := by decide
  show ∃ node', rdbLoadAux dbnum [] unloadedNode (rdbSaveInfoAuxFields someSaveInfo unloadedNode) =
    some node'
  rw [rdbLoadAux_save htyped, hpeers]
  exact ⟨_, rfl⟩

/-- A key with a value, an expire time in the past and a tombstone that can be collected, and
one with a tombstone only. -/
def sampleDb : RedisDb UInt8 :=
  ((RedisDb.empty.put (ascii "007") (some 5) (some 3)).restoreExpire (ascii "007") 1000).put
    (ascii "b") none (some 4)

theorem sampleDb_storable : sampleDb.Storable byteCodec := ⟨by decide, by decide, by decide⟩

theorem rdb_round_trip_sample :
    byteCodec.Inverts ∧ sampleDb.Storable byteCodec ∧ peerlessEnv.Sized ∧
      ∃ st, rdbLoadRio byteCodec plainLoadEnv unloadedNode [RedisDb.empty, RedisDb.empty]
        (rdbSaveRio byteCodec peerlessEnv [RedisDb.empty, sampleDb]).1 = some st ∧
        ∃ saved loaded, (rdbSaveRio byteCodec peerlessEnv [RedisDb.empty, sampleDb]).2[1]? =
          some saved ∧ st.dbs[1]? = some loaded ∧
          RoundTrip byteCodec peerlessEnv sampleDb saved loaded := by
  refine ⟨byteCodec_inverts, sampleDb_storable, peerlessEnv_sized, ?_⟩
  have hempty : (RedisDb.empty : RedisDb UInt8).Storable byteCodec :=
    ⟨by decide, by decide, by decide⟩
  have hdbs : ∀ db ∈ [RedisDb.empty, sampleDb], db.Storable byteCodec := by
    intro db hdb
    simp only [mem_cons, not_mem_nil, or_false] at hdb
    rcases hdb with rfl | rfl
    · exact hempty
    · exact sampleDb_storable
  obtain ⟨node', hnode⟩ := peerlessEnv_readable 2
  obtain ⟨⟨st, hload, -, hround⟩, -⟩ := rdb_round_trip (E := plainLoadEnv) byteCodec_inverts hdbs
    (by decide) peerlessEnv_sized (fun body h => by cases h) hnode
  exact ⟨st, hload, hround 1 sampleDb rfl⟩

/-- A key whose expire time is one millisecond before 1970. -/
def minusOneDb : RedisDb UInt8 :=
  (RedisDb.empty.add (ascii "a") 5).setExpire (ascii "a") (-1) (by decide)

/-- `getExpire` returns `-1` for it, as for a key without an expire time, and the file does not
hold it. -/
theorem minus_one_expire_lost :
    ¬ ∀ dbs : List (RedisDb UInt8), (∀ db ∈ dbs, db.Storable byteCodec) → dbs.length < 2 ^ 31 →
      ∃ st, rdbLoadRio byteCodec plainLoadEnv unloadedNode (dbs.map fun _ => RedisDb.empty)
        (rdbSaveRio byteCodec peerlessEnv dbs).1 = some st ∧
        ∀ (j : Nat) (db : RedisDb UInt8), dbs[j]? = some db → ∃ loaded, st.dbs[j]? = some loaded ∧
          ∀ key, loaded.expires.lookup key = db.expires.lookup key := by
  intro h
  have hdbs : ∀ db ∈ [minusOneDb], db.Storable byteCodec := by
    intro db hdb
    obtain rfl := mem_singleton.1 hdb
    exact ⟨by decide, by decide, by decide⟩
  obtain ⟨st, hload, hall⟩ := h [minusOneDb] hdbs (by decide)
  obtain ⟨node', hnode⟩ := peerlessEnv_readable 1
  obtain ⟨st', hload', hst'⟩ := rdbLoadRio_rdbSaveRio (E := plainLoadEnv) byteCodec_inverts hdbs
    (by decide) peerlessEnv_sized (fun body h => by cases h) hnode
  obtain rfl : st = st' := some.inj (hload.symm.trans hload')
  obtain ⟨loaded, hloaded, hexpires⟩ := hall 0 minusOneDb rfl
  rw [hst'] at hloaded
  obtain rfl : loadedDb byteCodec peerlessEnv minusOneDb = loaded := some.inj hloaded
  have hlost :=
    (roundTrip_loadedDb (K := byteCodec) (S := peerlessEnv) minusOneDb).expires (ascii "a")
  rw [hexpires (ascii "a")] at hlost
  revert hlost
  decide

end XredisCrdt.Rdb
