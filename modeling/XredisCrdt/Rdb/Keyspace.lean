import Mathlib.Data.List.AList
import XredisCrdt.Peer.RdbAux
import XredisCrdt.Rdb.Counts

/-!
# The keyspace in an RDB file (`rdb.c`, `ctrip_crdt_rdb.c`)

`rdbSaveRio` writes every database as a selection, three sizes and one record for each key:
first the keys that have a value, with their expire time and tombstone, then those that have
only a tombstone. On its way it drops the tombstones of keys with a value that the present
`gcVectorClock` allows to collect. `rdbLoadRio` is the loop over opcodes that reads it back.

The functions of the CRDT module are parameters. Left out are failing writes, with the exits
on a count of -1 (no string below 2 GB has one), the diff of an AOF rewrite, and the sizes as
hints for the hash tables; how a key of a Redis file becomes CRDT data is a parameter here
(`Rdb/Convert`).
-/

namespace XredisCrdt.Rdb

open Lib.Loading Peer

variable {Obj : Type}

/-! ## Databases -/

/-- A `dict` with the keys of a database, in the order in which an iterator visits them. -/
abbrev Dict (α : Type) := AList fun _ : Bytes => α

/-- A `redisDb`. Only keys that have a value have an expire time. -/
structure RedisDb (Obj : Type) where
  dict : Dict Obj
  expires : Dict Int
  deletedKeys : Dict Obj
  expires_live : ∀ key, (expires.lookup key).isSome → (dict.lookup key).isSome

/-- The functions that a server has from its modules and libraries: LZF, CRC64, the CRDT
module, and the values of Redis itself. -/
structure Codec (Obj : Type) where
  lzf : Lzf
  crc64 : Bytes → UInt64
  isModuleCrdt : Obj → Bool
  /-- `SAVE_CRDT_VALUE` for a module key with this name, value and tombstone. -/
  save : Bytes → Option Obj → Option Obj → Bytes
  /-- `LOAD_CRDT_VALUE`, which stores what it reads. -/
  load : RedisDb Obj → Bytes → Loader (RedisDb Obj)
  /-- Whether `gc` of the tombstone's methods allows to collect it at the present
  `gcVectorClock`. -/
  gc : Obj → Bool
  objectType : Obj → UInt8
  saveObject : Obj → Bytes
  loadObject : UInt8 → Loader Obj

namespace RedisDb

def empty : RedisDb Obj := ⟨∅, ∅, ∅, fun _ h => by simp at h⟩

/-- `getExpire`. -/
def getExpire (db : RedisDb Obj) (key : Bytes) : Int := (db.expires.lookup key).getD (-1)

/-- `dbAdd`. -/
def add (db : RedisDb Obj) (key : Bytes) (val : Obj) : RedisDb Obj where
  dict := db.dict.insert key val
  expires := db.expires
  deletedKeys := db.deletedKeys
  expires_live := by
    intro k hk
    by_cases h : k = key
    · rw [h, AList.lookup_insert]
      rfl
    · rw [AList.lookup_insert_ne h]
      exact db.expires_live k hk

/-- `setExpire`, for a key that has a value. -/
def setExpire (db : RedisDb Obj) (key : Bytes) (time : Int) (h : (db.dict.lookup key).isSome) :
    RedisDb Obj where
  dict := db.dict
  expires := db.expires.insert key time
  deletedKeys := db.deletedKeys
  expires_live := by
    intro k hk
    by_cases hkey : k = key
    · rw [hkey]
      exact h
    · rw [AList.lookup_insert_ne hkey] at hk
      exact db.expires_live k hk

/-- The end of `rdbLoadCrdtData`: `setExpire` for a key that was given a value. -/
def restoreExpire (db : RedisDb Obj) (key : Bytes) (time : Int) : RedisDb Obj :=
  if h : (db.dict.lookup key).isSome ∧ time ≠ -1 then db.setExpire key time h.1 else db

def setTombstone (db : RedisDb Obj) (key : Bytes) (tombstone : Obj) : RedisDb Obj :=
  { db with deletedKeys := db.deletedKeys.insert key tombstone }

/-- What the CRDT module stores for a key. -/
def put (db : RedisDb Obj) (key : Bytes) (value tombstone : Option Obj) : RedisDb Obj :=
  let db := value.elim db (db.add key)
  tombstone.elim db (db.setTombstone key)

/-- `gcIfNeeded`. -/
def gcIfNeeded (K : Codec Obj) (loading : Bool) (db : RedisDb Obj) (key : Bytes) : RedisDb Obj :=
  match db.deletedKeys.lookup key with
  | none => db
  | some tombstone =>
    if loading then db
    else if K.gc tombstone then { db with deletedKeys := db.deletedKeys.erase key }
    else db

/-- What a database holds at a key. -/
def slot (db : RedisDb Obj) (key : Bytes) : Option Obj × Option Int × Option Obj :=
  (db.dict.lookup key, db.expires.lookup key, db.deletedKeys.lookup key)

end RedisDb

/-- `LOAD_CRDT_VALUE` inverts `SAVE_CRDT_VALUE`, for every pair of a value and a tombstone that
a key can have, in a database without the key. -/
def Codec.Inverts (K : Codec Obj) : Prop :=
  ∀ (db : RedisDb Obj) (key : Bytes) (value tombstone : Option Obj),
    db.slot key = (none, none, none) → (∀ o ∈ value, K.isModuleCrdt o = true) →
    (∀ o ∈ tombstone, K.isModuleCrdt o = true) →
    value.isSome ∨ tombstone.isSome →
    Reads (K.load db key) (K.save key value tombstone) (db.put key value tombstone)

/-! ## Saving -/

def opcodeAux : UInt8 := 250
def opcodeResizedb : UInt8 := 251
def opcodeExpiretimeMs : UInt8 := 252
def opcodeExpiretime : UInt8 := 253
def opcodeSelectdb : UInt8 := 254
def opcodeEof : UInt8 := 255
def rdbCrdtValue : UInt8 := 200

/-- `CTRIP_RDB_PREFIX + RDB_VERSION`, and the first of them. -/
def rdbVersion : Int := 1008
@[inherit_doc rdbVersion] def ctripRdbPrefixVersion : Int := 1000

/-- What `rdbSaveRio` reads besides the databases; `loading` is `server.loading` or
`crdtServer.loading`. -/
structure SaveEnv where
  rdbCompression : Bool
  rdbChecksum : Bool
  loading : Bool
  now : Int
  info : SaveInfo
  node : RdbNode
  luaScripts : List Bytes

section Save

variable (K : Codec Obj) (S : SaveEnv)

/-- `rdbSaveRawString`, and `rdbSaveStringObject` of an `sds`, with the settings of the server. -/
def saveString (s : Bytes) : Counted.Saved :=
  Counted.rdbSaveRawString ⟨K.lzf, S.rdbCompression⟩ s

/-- `rdbSaveAuxField`. -/
def rdbSaveAuxField (f : AuxField) : Bytes :=
  rdbSaveType opcodeAux ++ (saveString K S f.key).written ++
    (saveString K S f.val).written

/-- An expire time before a key; `-1` stands for none. -/
def saveExpire (expire : Int) : Bytes :=
  if expire ≠ -1 then rdbSaveType opcodeExpiretimeMs ++ rdbSaveMillisecondTime expire else []

/-- `rdbSaveKeyValuePair`: a value that is not CRDT data is not saved once it is expired. -/
def rdbSaveKeyValuePair (key : Bytes) (val : Obj) (expire : Int) : Bytes :=
  if expire ≠ -1 ∧ expire < S.now then []
  else saveExpire expire ++ rdbSaveType (K.objectType val) ++ (saveString K S key).written ++
    K.saveObject val

/-- One turn of the loop over `db->dict`, with `lookupTombstoneKey`. -/
def saveKey (db : RedisDb Obj) (key : Bytes) (o : Obj) : Bytes × RedisDb Obj :=
  let expire := db.getExpire key
  if K.isModuleCrdt o then
    let db := db.gcIfNeeded K S.loading key
    let tombstone := db.deletedKeys.lookup key
    (saveExpire expire ++ rdbSaveType rdbCrdtValue ++ (saveString K S key).written ++
      K.save key (some o) tombstone, db)
  else (rdbSaveKeyValuePair K S key o expire, db)

/-- The loop over `db->dict`. -/
def saveKeys : List (Sigma fun _ : Bytes => Obj) → RedisDb Obj → Bytes × RedisDb Obj
  | [], db => ([], db)
  | ⟨key, o⟩ :: entries, db =>
    let first := saveKey K S db key o
    let others := saveKeys entries first.2
    (first.1 ++ others.1, others.2)

/-- The loop over `db->deleted_keys`, which passes over the keys that have a value. -/
def saveDeletedKeys (db : RedisDb Obj) : List (Sigma fun _ : Bytes => Obj) → Bytes
  | [] => []
  | ⟨key, o⟩ :: entries =>
    (if (db.dict.lookup key).isSome then []
      else rdbSaveType rdbCrdtValue ++ (saveString K S key).written ++
        K.save key none (some o)) ++
    saveDeletedKeys db entries

/-- A size, cut to `UINT32_MAX`. -/
def saveSize (size : Nat) : Bytes := rdbSaveLen (min size (2 ^ 32 - 1))

/-- The selection of a database and its three sizes. -/
def saveSelect (j : Nat) (db : RedisDb Obj) : Bytes :=
  rdbSaveType opcodeSelectdb ++ rdbSaveLen j ++
  (rdbSaveType opcodeResizedb ++ saveSize db.dict.entries.length ++
    saveSize db.expires.entries.length ++ saveSize db.deletedKeys.entries.length)

/-- One turn of the loop over the databases. -/
def saveDb (j : Nat) (db : RedisDb Obj) : Bytes × RedisDb Obj :=
  if db.dict.entries.isEmpty && db.deletedKeys.entries.isEmpty then ([], db)
  else
    let keys := saveKeys K S db.dict.entries db
    (saveSelect j db ++ keys.1 ++ saveDeletedKeys K S keys.2 keys.2.deletedKeys.entries, keys.2)

/-- The loop over the databases from number `j`. -/
def saveDbs : Nat → List (RedisDb Obj) → Bytes × List (RedisDb Obj)
  | _, [] => ([], [])
  | j, db :: dbs =>
    let first := saveDb K S j db
    let others := saveDbs (j + 1) dbs
    (first.1 ++ others.1, first.2 :: others.2)

/-- The scripts, which are saved only with the replication state. -/
def saveScripts : Bytes :=
  if S.info.rsi.isSome then
    S.luaScripts.flatMap fun body => rdbSaveAuxField K S ⟨ascii "lua", body⟩
  else []

/-- `rdbSaveRio`: the bytes, and the databases afterwards. -/
def rdbSaveRio (dbs : List (RedisDb Obj)) : Bytes × List (RedisDb Obj) :=
  let saved := saveDbs K S 0 dbs
  let body := ascii "REDIS" ++ ll2string rdbVersion ++
    (rdbSaveInfoAuxFields S.info S.node).flatMap (rdbSaveAuxField K S) ++ saved.1 ++
    saveScripts K S ++ rdbSaveType opcodeEof
  let cksum := if S.rdbChecksum then K.crc64 body else 0
  (body ++ leBytes 8 cksum.toNat, saved.2)

end Save

/-! ## Loading -/

/-- What `rdbLoadRio` reads besides the file; `convert` is `data2CrdtData` and
`expire2CrdtExpire`. -/
structure LoadEnv (Obj : Type) where
  rdbChecksum : Bool
  now : Int
  hasMaster : Bool
  initedCrdtServer : Bool
  uninitialized : Bytes
  luaCreateFunction : Bytes → Bool
  convert : List (RedisDb Obj) → Nat → Bytes → Obj → Int → Option (List (RedisDb Obj))

/-- The databases, the number of the selected one, and the reader of the other fields. -/
structure LoadState (Obj : Type) where
  dbs : List (RedisDb Obj)
  db : Nat
  reader : AuxReader

section Load

variable (K : Codec Obj) (E : LoadEnv Obj)

/-- A result that may be missing. -/
def orFail {α : Type} (x : Option α) : Loader α := fun s => x.map fun a => (a, s)

/-- What is done with a field. Those with a percent sign are only logged. -/
def loadField (st : LoadState Obj) (f : AuxField) : Loader (LoadState Obj) :=
  if f.key.head? = some 37 then pure st
  else if strcaseeq f.key (ascii "lua") then do
    check (E.luaCreateFunction f.val = true)
    return st
  else do
    let reader ← orFail (st.reader.read st.dbs.length E.uninitialized f)
    return { st with reader := reader }

/-- The opcode `AUX`. -/
def loadAux (st : LoadState Obj) : Loader (LoadState Obj) := do
  let auxkey ← rdbLoadStringObject K.lzf
  let auxval ← rdbLoadStringObject K.lzf
  loadField E st ⟨auxkey, auxval⟩

/-- `rdbLoadCrdtData`. -/
def rdbLoadCrdtData (db : RedisDb Obj) (expire : Int) : Loader (RedisDb Obj) := do
  let key ← rdbLoadStringObject K.lzf
  let db ← K.load db key
  return db.restoreExpire key expire

/-- A key of a file of Redis, or one with a value that is not CRDT data. -/
def loadPlain (isCrdtRdb : Bool) (st : LoadState Obj) (type : UInt8) (expire : Int) :
    Loader (LoadState Obj) := do
  let key ← rdbLoadStringObject K.lzf
  let val ← K.loadObject type
  if !isCrdtRdb then do
    let dbs ← orFail (E.convert st.dbs st.db key val expire)
    return { st with dbs := dbs }
  else if E.hasMaster = false ∧ expire ≠ -1 ∧ expire < E.now then return st
  else do
    let db ← orFail st.dbs[st.db]?
    -- `dbAdd` asserts that the key is new
    check (db.dict.lookup key).isNone
    return { st with dbs := st.dbs.set st.db ((db.add key val).restoreExpire key expire) }

/-- What follows the expire time, if there is one. -/
def loadKey (isCrdtRdb : Bool) (st : LoadState Obj) (type : UInt8) (expire : Int) :
    Loader (LoadState Obj) :=
  if type = rdbCrdtValue then do
    let db ← orFail st.dbs[st.db]?
    let db ← rdbLoadCrdtData K db expire
    return { st with dbs := st.dbs.set st.db db }
  else loadPlain K E isCrdtRdb st type expire

/-- One turn of the loop of `rdbLoadRio`; there is no next state at the end of the file. -/
def loadStep (isCrdtRdb : Bool) (st : LoadState Obj) : Loader (Option (LoadState Obj)) := do
  let type ← rdbLoadType
  if type = opcodeExpiretime then do
    let expire ← rdbLoadTime
    check (expire ≠ -1)
    let type ← rdbLoadType
    let st ← loadKey K E isCrdtRdb st type (expire * 1000)
    return some st
  else if type = opcodeExpiretimeMs then do
    let expire ← rdbLoadMillisecondTime
    check (expire ≠ -1)
    let type ← rdbLoadType
    let st ← loadKey K E isCrdtRdb st type expire
    return some st
  else if type = opcodeEof then return none
  else if type = opcodeSelectdb then do
    let dbid ← rdbLoadLen
    check (dbid < st.dbs.length)
    return some { st with db := dbid }
  else if type = opcodeResizedb then do
    let _ ← rdbLoadLen
    let _ ← rdbLoadLen
    if isCrdtRdb then do
      let _ ← rdbLoadLen
      return some st
    else return some st
  else if type = opcodeAux then do
    let st ← loadAux K E st
    return some st
  else do
    let st ← loadKey K E isCrdtRdb st type (-1)
    return some st

/-- The checksum at the end of the file, compared if there is one. -/
def loadChecksum (read : Bytes) : Loader Unit := do
  let cksum ← takeBytes 8
  check (ofLe cksum = 0 ∨ ofLe cksum = (K.crc64 read).toNat)

/-- `rdbLoadRio`, into `dbs`; `node` is the state that the fields change. -/
def rdbLoadRio (node : RdbNode) (dbs : List (RedisDb Obj)) (bytes : Bytes) :
    Option (LoadState Obj) := do
  let (buf, body) ← (takeBytes 9).run bytes
  let rdbver := atoi (buf.drop 5)
  let isCrdtRdb : Bool := ctripRdbPrefixVersion < rdbver
  if buf.take 5 ≠ ascii "REDIS" then none
  else if rdbver < 1 ∨ rdbVersion < rdbver then none
  else if !isCrdtRdb && E.initedCrdtServer then none
  else do
    let (st, footer) ←
      (loop (loadStep K E isCrdtRdb) (body.length + 1) ⟨dbs, 0, ⟨node, none, 0⟩⟩).run body
    if 5 ≤ rdbver ∧ E.rdbChecksum = true then do
      let _ ← (loadChecksum K (bytes.take (bytes.length - footer.length))).run footer
      return st
    else return st

end Load

end XredisCrdt.Rdb
