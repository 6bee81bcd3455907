import XredisCrdt.Clock.Lattice

/-!
# Who expires a key (`db.c`, `expire.c`)

When the time of a key has come every site could delete it; one of them is to do so at
once, and the others only after a delay. For a type that keeps no last gid,
`modGidByKey` chooses the site: three bytes of the key, added and taken modulo the number
of units of the clock, are an index into its units.

The bytes are of type `char`, which has a sign, and so has the remainder. For a negative
sum that the number of units does not divide the index lies before the array.
-/

namespace XredisCrdt.Expire

open Clock Lib.KeyedMerge Option ClockUnit

/-! ## The source -/

/-- A byte read as a `char`. -/
def schar (b : UInt8) : Int := if b.toNat < 128 then b.toNat else b.toNat - 256

/-- An `sds`: the byte in front of the text, which holds its type, and the text. Behind the
text stands a NUL byte. -/
structure Sds where
  flags : UInt8
  text : Bytes

/-- `key[i]` for `i` from -1 up to the length. -/
def Sds.at (s : Sds) (i : Int) : Int := schar (if i < 0 then s.flags else s.text.getD i.toNat 0)

/-- The sum that `modGidByKey` forms of the first byte, the middle one and the last one. An
empty key gives two NUL bytes and the byte in front. -/
def keySum (key : Sds) : Int :=
  key.at 0 + key.at ((key.text.length / 2 : Nat) : Int) + key.at ((key.text.length : Int) - 1)

/-- `none` for a division by zero, and where `get_clock_unit_by_index`, which looks only for
an index that is too large, reads outside of the clock. -/
def modGidByKey (clock : Units) (key : Sds) : Option Nat :=
  if clock.length = 0 then none
  else
    let index := (keySum key).tmod clock.length
    if index < 0 then none else clock[index.toNat]?.map ClockUnit.gid

/-- `server.current_client`, as far as it matters here. -/
inductive CurrentClient
  | null
  | crdtMaster
  | other
  deriving DecidableEq

/-- The value of a key: an object of the CRDT module with the answer of `getLastGid`, if its
type has the method, or another object. -/
inductive Value
  | crdt (lastGid : Option Nat)
  | plain
  deriving DecidableEq

/-- A database: `dict` and `expires`. -/
structure Db where
  dict : Bytes → Option Value
  expires : Bytes → Option Int

/-- `dbSyncDelete` and `dbAsyncDelete`. -/
def Db.delete (db : Db) (key : Bytes) : Db :=
  ⟨Function.update db.dict key none, Function.update db.expires key none⟩

/-- A site: its gid, its clock, `non_last_write_delay_expire_time` and the time that
`mstime` tells. -/
structure Site where
  crdtGid : Nat
  clock : VectorClock
  delay : Int
  mstime : Int

/-- `none` if the assertion fires or there is no gid. -/
def isNeedDelayExpire (site : Site) (client : CurrentClient) (key : Sds)
    (lastGid : Option Nat) : Option Bool :=
  match client with
  | .crdtMaster => none
  | .other => some false
  | .null =>
    match lastGid with
    | some gid => some (gid ≠ site.crdtGid)
    | none => (modGidByKey site.clock.units key).map fun gid => decide (gid ≠ site.crdtGid)

/-- Whether the key may be deleted, `C_OK`. A module key opened for writing is never null. -/
def crdtPropagateExpire (site : Site) (client : CurrentClient) (db : Db) (key : Sds)
    (expireTime : Int) : Option Bool :=
  if client = .crdtMaster then some false
  else
    match db.dict key.text with
    | none => some false
    | some .plain => some true
    | some (.crdt lastGid) => do
      let needDelay ← isNeedDelayExpire site client key lastGid
      if needDelay ∧ expireTime + site.delay - site.mstime > 0 then some false else some true

/-- `createStringObject`: the type of a short string is 1. The byte is read only for the
empty key. -/
def createStringObject (key : Bytes) : Sds := ⟨1, key⟩

/-- The result and the database. -/
def activeExpireCycleTryExpire (site : Site) (client : CurrentClient) (db : Db) (key : Bytes)
    (t now : Int) : Option (Bool × Db) :=
  if now > t then do
    let ok ← crdtPropagateExpire site client db (createStringObject key) t
    if ok then some (true, db.delete key) else some (false, db)
  else some (false, db)

/-- The result and the database, where the assertion in `getExpire` holds; `iAmMaster` is what
the function of that name says, `now` the time of the call or of the script. -/
def expireIfNeeded (site : Site) (client : CurrentClient) (loading iAmMaster : Bool) (now : Int)
    (db : Db) (key : Sds) : Option (Bool × Db) :=
  match db.expires key.text with
  | none => some (false, db)
  | some t =>
    if t < 0 then some (false, db)
    else if loading then some (false, db)
    else if !iAmMaster then some (now > t, db)
    else if now ≤ t then some (false, db)
    else do
      let ok ← crdtPropagateExpire site client db key t
      if ok then some (true, db.delete key.text) else some (false, db)

/-! ## The choice -/

section

variable {site : Site} {db : Db} {key : Bytes} {t now : Int}

end

end XredisCrdt.Expire
