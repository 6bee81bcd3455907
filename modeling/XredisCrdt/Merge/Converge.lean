import XredisCrdt.Merge.Failure
import Mathlib.Order.Lattice
import Mathlib.Order.BoundedOrder.Lattice

/-!
# Full-sync merges converge

Under a key there is a value in `dict`, a tombstone in `deleted_keys`, both or neither:
its `Slot`. `CRDT.Merge` and `CRDT.Merge_Del` bring objects to it one at a time.

`CrdtType` states what is assumed of the module for one CRDT type. Values and tombstones
lie in one join semilattice, in which the merge of two values and of two tombstones is the
join; so both merges are commutative, associative and idempotent. `part e` is what of an
element of it is not dominated, and `purge` leaves that part of the join of its arguments.
-/

namespace XredisCrdt.Merge

open Peer List

variable {Obj : Type}

/-- What is stored under a key. -/
@[ext] structure Slot (Obj : Type) where
  value : Option Obj
  tombstone : Option Obj
  deriving DecidableEq

/-- The slot of a key. -/
def Db.slot (db : Db Obj) (key : Bytes) : Slot Obj := ⟨db.dict key, db.deletedKeys key⟩

/-- The object of a `CRDT.Merge` or of a `CRDT.Merge_Del`. -/
inductive Incoming (Obj : Type)
  | value (o : Obj)
  | tombstone (o : Obj)
  deriving DecidableEq

/-! ## The handlers, seen from the slot -/

section Absorb

variable (M : Module Obj)

/-- A value meets the tombstone of its key. -/
def meet (val : Obj) : Option Obj → Slot Obj
  | none => ⟨some val, none⟩
  | some tom =>
    if checkTombstoneDataType M tom val then
      if M.tombstoneMethod tom then
        ⟨(purged (M.purge tom val)).2, (purged (M.purge tom val)).1⟩
      else ⟨none, some tom⟩
    else ⟨some val, some tom⟩

/-- `mergeCrdtObjectCommand` on the slot. -/
def absorbValue (σ : Slot Obj) (x : Obj) : Slot Obj :=
  if M.objectMethod x then
    match σ.value with
    | none => meet M (M.merge none x) σ.tombstone
    | some v => if checkDataType M v x then meet M (M.merge (some v) x) σ.tombstone else σ
  else σ

/-- A tombstone meets the value of its key. -/
def meetTombstone (tom : Obj) : Option Obj → Slot Obj
  | none => ⟨none, some tom⟩
  | some val =>
    if checkTombstoneDataType M tom val then
      if M.tombstoneMethod tom then
        ⟨(purged (M.purge tom val)).2, (purged (M.purge tom val)).1⟩
      else ⟨some val, some tom⟩
    else ⟨some val, some tom⟩

/-- `crdtMergeTomstoneCommand` on the slot. -/
def absorbTombstone (σ : Slot Obj) (y : Obj) : Slot Obj :=
  match σ.tombstone with
  | none => meetTombstone M y σ.value
  | some t =>
    if checkTombstoneType M y t then
      if M.tombstoneMethod y then meetTombstone M (M.mergeTombstone y t) σ.value else σ
    else σ

def absorb (σ : Slot Obj) : Incoming Obj → Slot Obj
  | .value x => absorbValue M σ x
  | .tombstone y => absorbTombstone M σ y

end Absorb

section Handlers

variable {M : Module Obj} {env : MergeEnv} {s : CrdtServer} {db : Db Obj} {key : Bytes}

theorem putValue_slot (db : Db Obj) (key : Bytes) (val : Option Obj) (expireTime : Int)
    (hdict : db.dict key = none) :
    (putValue db key val expireTime).slot key = ⟨val, db.deletedKeys key⟩ := by
  cases val with
  | none => rw [putValue, Db.slot, hdict]
  | some val =>
    rw [putValue]
    split <;> simp [Db.slot, Db.add, Db.setExpire]

theorem storeMerged_slot (hdict : db.dict key = none) (gidText : Bytes) (val : Obj)
    (expireTime : Int) :
    (storeMerged M s db gidText key val expireTime).db.slot key =
      meet M val (db.deletedKeys key) := by
  rw [storeMerged, meet.eq_def]
  cases htom : db.deletedKeys key with
  | none => exact (putValue_slot db key _ _ hdict).trans (by rw [htom])
  | some tom =>
    dsimp only
    split
    · split
      · rw [finish, putValue_slot _ _ _ _ (by exact hdict)]
        simp [Db.setTombstone]
      · rw [refuse, Db.slot, hdict, htom]
    · exact (putValue_slot db key _ _ hdict).trans (by rw [htom])

/-- `mergeCrdtObjectCommand`, where the value has not expired for the executing client. -/
theorem mergeObject_slot (hexpire : expiresNow env s.iAmMaster db key = false) (gidText : Bytes)
    (x : Obj) (expireTime : Int) :
    (mergeObject M env s db gidText key x expireTime).db.slot key =
      absorbValue M (db.slot key) x := by
  rw [mergeObject, expireIfNeeded_of_false hexpire, absorbValue]
  split
  · cases hval : db.dict key with
    | none =>
      simp only [Db.slot, hval]
      exact storeMerged_slot hval _ _ _
    | some v =>
      simp only [Db.slot, hval]
      split
      · refine (storeMerged_slot ?_ _ _ _).trans rfl
        simp [Db.delete]
      · rw [refuse, hval]
  · rfl

theorem purgeValue_slot (tom : Obj) (htom : db.deletedKeys key = some tom) :
    (purgeValue M s db key tom).db.slot key = meetTombstone M tom (db.dict key) := by
  rw [purgeValue, meetTombstone.eq_def]
  cases hval : db.dict key with
  | none => rw [finish, Db.slot, hval, htom]
  | some val =>
    dsimp only
    split
    · split
      · obtain ⟨p, t, v⟩ := M.purge tom val
        cases p <;> simp [finish, purged, Db.slot, Db.delete, Db.add, Db.setTombstone]
      · rw [refuse, Db.slot, hval, htom]
    · rw [finish, Db.slot, hval, htom]

theorem mergeTombstoneObject_slot (y : Obj) :
    (mergeTombstoneObject M s db key y).db.slot key = absorbTombstone M (db.slot key) y := by
  rw [mergeTombstoneObject, absorbTombstone]
  cases htom : db.deletedKeys key with
  | none =>
    simp only [Db.slot, htom]
    refine (purgeValue_slot y ?_).trans rfl
    simp [Db.setTombstone]
  | some t =>
    simp only [Db.slot, htom]
    split
    · split
      · refine (purgeValue_slot _ ?_).trans rfl
        simp [Db.setTombstone]
      · rw [refuse, htom]
    · rw [refuse, htom]

end Handlers

/-! ## What is assumed of a CRDT type -/

/-- The module types of the values and of the tombstones of one CRDT type, and what
`getDataType` gives for both. -/
structure Tags where
  valueType : Nat
  tombstoneType : Nat
  dataType : Int

namespace Tags

variable (τ : Tags) (M : Module Obj)

def IsValue (o : Obj) : Prop := M.isData o = true ∧ M.type o = τ.valueType

def IsTombstone (o : Obj) : Prop := M.isTombstone o = true ∧ M.type o = τ.tombstoneType

instance (o : Obj) : Decidable (τ.IsValue M o) := inferInstanceAs (Decidable (_ ∧ _))

instance (o : Obj) : Decidable (τ.IsTombstone M o) := inferInstanceAs (Decidable (_ ∧ _))

/-- All that is stored under the key is of the type. -/
structure Typed (σ : Slot Obj) : Prop where
  value : ∀ v ∈ σ.value, τ.IsValue M v
  tombstone : ∀ t ∈ σ.tombstone, τ.IsTombstone M t

/-- The message brings an object of the type. -/
def Brings : Incoming Obj → Prop
  | .value x => τ.IsValue M x
  | .tombstone y => τ.IsTombstone M y

end Tags

/-- The meaning of a slot, from that of values and tombstones. -/
def Slot.join {E : Type} [SemilatticeSup E] [OrderBot E] (ofValue ofTombstone : Obj → E)
    (σ : Slot Obj) : E :=
  σ.tombstone.elim ⊥ ofTombstone ⊔ σ.value.elim ⊥ ofValue

/-- A CRDT type of the module: what its objects mean, and that merges are joins. -/
structure CrdtType (M : Module Obj) extends Tags where
  /-- Where values and tombstones are joined. -/
  Elem : Type
  [lattice : SemilatticeSup Elem]
  [bot : OrderBot Elem]
  ofValue : Obj → Elem
  ofTombstone : Obj → Elem
  /-- What of an element is not dominated. -/
  part : Elem → Slot Obj
  -- The types tell tombstones from values, and `getDataType` belongs to both.
  isTombstone_of_type : ∀ t, M.type t = tombstoneType → M.isTombstone t = true
  getDataType_value : ∀ v, M.isData v = true → (M.getDataType v = dataType ↔ M.type v = valueType)
  getDataType_tombstone :
    ∀ t, M.isTombstone t = true → (M.getDataType t = dataType ↔ M.type t = tombstoneType)
  objectMethod : ∀ v, toTags.IsValue M v → M.objectMethod v = true
  tombstoneMethod : ∀ t, toTags.IsTombstone M t → M.tombstoneMethod t = true
  -- Merges.
  merge_none : ∀ x, toTags.IsValue M x → M.merge none x = x
  merge_isValue : ∀ v x, toTags.IsValue M v → toTags.IsValue M x →
    toTags.IsValue M (M.merge (some v) x)
  ofValue_merge : ∀ v x, toTags.IsValue M v → toTags.IsValue M x →
    ofValue (M.merge (some v) x) = ofValue v ⊔ ofValue x
  mergeTombstone_isTombstone : ∀ y t, toTags.IsTombstone M y → toTags.IsTombstone M t →
    toTags.IsTombstone M (M.mergeTombstone y t)
  ofTombstone_merge : ∀ y t, toTags.IsTombstone M y → toTags.IsTombstone M t →
    ofTombstone (M.mergeTombstone y t) = ofTombstone y ⊔ ofTombstone t
  -- A value or a tombstone alone is not dominated.
  part_ofValue : ∀ v, toTags.IsValue M v → part (ofValue v) = ⟨some v, none⟩
  part_ofTombstone : ∀ t, toTags.IsTombstone M t → part (ofTombstone t) = ⟨none, some t⟩
  -- What of both is not dominated is again of the type, and the rest adds nothing to it.
  part_typed : ∀ t v, toTags.IsTombstone M t → toTags.IsValue M v →
    toTags.Typed M (part (ofTombstone t ⊔ ofValue v))
  join_part : ∀ t v, toTags.IsTombstone M t → toTags.IsValue M v →
    (part (ofTombstone t ⊔ ofValue v)).join ofValue ofTombstone = ofTombstone t ⊔ ofValue v
  purge : ∀ t v, toTags.IsTombstone M t → toTags.IsValue M v →
    purged (M.purge t v) =
      ((part (ofTombstone t ⊔ ofValue v)).tombstone, (part (ofTombstone t ⊔ ofValue v)).value)

attribute [instance] CrdtType.lattice CrdtType.bot

/-! ## One object more

An object that may be there, joined with another one if both are of one kind. -/

def adjoin (same : Obj → Obj → Bool) (merge : Obj → Obj → Obj) (x : Obj) : Option Obj → Obj
  | none => x
  | some v => if same v x then merge v x else v

section Adjoin

variable {E : Type} [SemilatticeSup E] [OrderBot E] {P : Obj → Prop} {of : Obj → E}
  {same : Obj → Obj → Bool} {merge : Obj → Obj → Obj}

theorem adjoin_spec (hsame : ∀ v x, P x → (same v x = true ↔ P v))
    (hmerge : ∀ v x, P v → P x → P (merge v x))
    (hof : ∀ v x, P v → P x → of (merge v x) = of v ⊔ of x) {x : Obj} (hx : P x)
    {val : Option Obj} (hval : ∀ v ∈ val, P v) :
    P (adjoin same merge x val) ∧ of (adjoin same merge x val) = val.elim ⊥ of ⊔ of x := by
  cases val with
  | none => exact ⟨hx, (bot_sup_eq _).symm⟩
  | some v =>
    have hv := hval v rfl
    rw [adjoin, if_pos ((hsame v x hx).2 hv)]
    exact ⟨hmerge v x hv hx, hof v x hv hx⟩

/-- Objects of one kind may be adjoined in either order. -/
theorem adjoin_comm (hsame : ∀ v x, P x → (same v x = true ↔ P v))
    (hmerge : ∀ v x, P v → P x → P (merge v x))
    (hof : ∀ v x, P v → P x → of (merge v x) = of v ⊔ of x)
    (hinj : ∀ v x, P v → P x → of v = of x → v = x) {x x' : Obj} (hx : P x) (hx' : P x')
    (val : Option Obj) :
    adjoin same merge x' (some (adjoin same merge x val)) =
      adjoin same merge x (some (adjoin same merge x' val)) := by
  have hspec := fun {x} hx {val} => @adjoin_spec _ _ _ _ _ _ _ _ hsame hmerge hof x hx val
  by_cases hval : ∀ v ∈ val, P v
  · obtain ⟨h, he⟩ := hspec hx hval
    obtain ⟨h', he'⟩ := hspec hx' hval
    obtain ⟨hl, hle⟩ := @hspec x' hx' (some (adjoin same merge x val)) (by rintro _ ⟨⟩; exact h)
    obtain ⟨hr, hre⟩ := @hspec x hx (some (adjoin same merge x' val)) (by rintro _ ⟨⟩; exact h')
    refine hinj _ _ hl hr ?_
    rw [hle, hre]
    show of _ ⊔ _ = of _ ⊔ _
    rw [he, he', sup_right_comm]
  · -- An object of another kind stays.
    push Not at hval
    obtain ⟨v, rfl, hv⟩ := hval
    have hstays : ∀ {x}, P x → adjoin same merge x (some v) = v := fun hx =>
      if_neg (fun h => hv ((hsame v _ hx).1 h))
    rw [hstays hx, hstays hx', hstays hx]

end Adjoin

/-- A purge would change nothing. -/
def Slot.Stable (M : Module Obj) (σ : Slot Obj) : Prop :=
  ∀ t ∈ σ.tombstone, ∀ v ∈ σ.value, checkTombstoneDataType M t v = true →
    purged (M.purge t v) = (σ.tombstone, σ.value)

namespace CrdtType

variable {M : Module Obj} (T : CrdtType M)

/-- What is known from the slot. -/
def join (σ : Slot Obj) : T.Elem := σ.join T.ofValue T.ofTombstone

/-- What the message adds. -/
def of : Incoming Obj → T.Elem
  | .value x => T.ofValue x
  | .tombstone y => T.ofTombstone y

/-! ### The checks of the handlers -/

variable {T} {t v x y : Obj}

theorem checkDataType_iff (hx : T.IsValue M x) : checkDataType M v x = true ↔ T.IsValue M v := by
  rw [checkDataType, Bool.and_eq_true, beq_iff_eq, hx.2]
  rfl

theorem checkTombstoneType_iff (hy : T.IsTombstone M y) :
    checkTombstoneType M y t = true ↔ T.IsTombstone M t := by
  rw [checkTombstoneType, Bool.and_eq_true, beq_iff_eq, hy.2]
  constructor
  · rintro ⟨-, htype⟩
    exact ⟨T.isTombstone_of_type t htype.symm, htype.symm⟩
  · intro ht
    exact ⟨hy.1, ht.2.symm⟩

theorem checkTombstoneDataType_iff_right (hv : T.IsValue M v) :
    checkTombstoneDataType M t v = true ↔ T.IsTombstone M t := by
  have hdata : M.getDataType v = T.dataType := (T.getDataType_value v hv.1).2 hv.2
  rw [checkTombstoneDataType, Bool.and_eq_true, Bool.and_eq_true, beq_iff_eq, hdata]
  constructor
  · rintro ⟨⟨ht, -⟩, htype⟩
    exact ⟨ht, (T.getDataType_tombstone t ht).1 htype⟩
  · intro ht
    exact ⟨⟨ht.1, hv.1⟩, (T.getDataType_tombstone t ht.1).2 ht.2⟩

theorem checkTombstoneDataType_iff_left (ht : T.IsTombstone M t) :
    checkTombstoneDataType M t v = true ↔ T.IsValue M v := by
  have hdata : M.getDataType t = T.dataType := (T.getDataType_tombstone t ht.1).2 ht.2
  rw [checkTombstoneDataType, Bool.and_eq_true, Bool.and_eq_true, beq_iff_eq, hdata]
  constructor
  · rintro ⟨⟨-, hv⟩, htype⟩
    exact ⟨hv, (T.getDataType_value v hv).1 htype.symm⟩
  · intro hv
    exact ⟨⟨ht.1, hv.1⟩, ((T.getDataType_value v hv.1).2 hv.2).symm⟩

/-! ### Slots of the type -/

/-- The slot is of the type, and is what of `e` is not dominated. -/
structure Settled (T : CrdtType M) (e : T.Elem) (σ : Slot Obj) : Prop where
  eq_part : σ = T.part e
  typed : T.Typed M σ
  join_eq : T.join σ = e

theorem settled_part (ht : T.IsTombstone M t) (hv : T.IsValue M v) :
    T.Settled (T.ofTombstone t ⊔ T.ofValue v) (T.part (T.ofTombstone t ⊔ T.ofValue v)) :=
  ⟨rfl, T.part_typed t v ht hv, T.join_part t v ht hv⟩

theorem settled_value (hv : T.IsValue M v) : T.Settled (T.ofValue v) ⟨some v, none⟩ where
  eq_part := (T.part_ofValue v hv).symm
  typed := ⟨by rintro _ ⟨⟩; exact hv, by rintro _ ⟨⟩⟩
  join_eq := bot_sup_eq _

theorem settled_tombstone (ht : T.IsTombstone M t) :
    T.Settled (T.ofTombstone t) ⟨none, some t⟩ where
  eq_part := (T.part_ofTombstone t ht).symm
  typed := ⟨by rintro _ ⟨⟩, by rintro _ ⟨⟩; exact ht⟩
  join_eq := sup_bot_eq _

theorem meet_typed (hv : T.IsValue M v) {tom : Option Obj} (htom : ∀ t ∈ tom, T.IsTombstone M t) :
    T.Settled (tom.elim ⊥ T.ofTombstone ⊔ T.ofValue v) (meet M v tom) := by
  cases tom with
  | none =>
    show T.Settled (⊥ ⊔ T.ofValue v) _
    rw [bot_sup_eq]
    exact settled_value hv
  | some t =>
    have ht := htom t rfl
    rw [meet, if_pos ((checkTombstoneDataType_iff_right hv).2 ht), if_pos (T.tombstoneMethod t ht),
      T.purge t v ht hv]
    exact settled_part ht hv

theorem meetTombstone_typed (ht : T.IsTombstone M t) {val : Option Obj}
    (hval : ∀ v ∈ val, T.IsValue M v) :
    T.Settled (T.ofTombstone t ⊔ val.elim ⊥ T.ofValue) (meetTombstone M t val) := by
  cases val with
  | none =>
    show T.Settled (T.ofTombstone t ⊔ ⊥) _
    rw [sup_bot_eq]
    exact settled_tombstone ht
  | some v =>
    have hv := hval v rfl
    rw [meetTombstone, if_pos ((checkTombstoneDataType_iff_right hv).2 ht),
      if_pos (T.tombstoneMethod t ht), T.purge t v ht hv]
    exact settled_part ht hv

/-- Of what was known and of what the message adds, the slot keeps what is not dominated. -/
theorem absorb_typed {σ : Slot Obj} (hσ : T.Typed M σ) {m : Incoming Obj} (hm : T.Brings M m) :
    T.Settled (T.join σ ⊔ T.of m) (absorb M σ m) := by
  obtain ⟨val, tom⟩ := σ
  cases m with
  | value x =>
    have hx : T.IsValue M x := hm
    rw [absorb, absorbValue, if_pos (T.objectMethod x hx)]
    cases val with
    | none =>
      have h := meet_typed hx hσ.tombstone
      rw [T.merge_none x hx]
      show T.Settled (tom.elim ⊥ T.ofTombstone ⊔ ⊥ ⊔ T.ofValue x) _
      rw [sup_bot_eq]
      exact h
    | some v =>
      have hv := hσ.value v rfl
      have h := meet_typed (T.merge_isValue v x hv hx) hσ.tombstone
      rw [T.ofValue_merge v x hv hx, ← sup_assoc] at h
      show T.Settled _ (if checkDataType M v x then _ else _)
      rw [if_pos ((checkDataType_iff hx).2 hv)]
      exact h
  | tombstone y =>
    have hy : T.IsTombstone M y := hm
    rw [absorb, absorbTombstone]
    cases tom with
    | none =>
      have h := meetTombstone_typed hy hσ.value
      rw [sup_comm] at h
      show T.Settled (⊥ ⊔ val.elim ⊥ T.ofValue ⊔ T.ofTombstone y) _
      rw [bot_sup_eq]
      exact h
    | some t =>
      have ht := hσ.tombstone t rfl
      have h := meetTombstone_typed (T.mergeTombstone_isTombstone y t hy ht) hσ.value
      rw [T.ofTombstone_merge y t hy ht, sup_comm, ← sup_assoc, sup_right_comm,
        sup_comm (val.elim _ _)] at h
      show T.Settled _ (if checkTombstoneType M y t then _ else _)
      rw [if_pos ((checkTombstoneType_iff hy).2 ht), if_pos (T.tombstoneMethod y hy)]
      exact h

theorem Settled.stable {e : T.Elem} {σ : Slot Obj} (h : T.Settled e σ) : σ.Stable M := by
  obtain ⟨val, tom⟩ := σ
  rintro t ⟨⟩ v ⟨⟩ -
  have he : T.ofTombstone t ⊔ T.ofValue v = e := h.join_eq
  rw [T.purge t v (h.typed.tombstone t rfl) (h.typed.value v rfl), he, ← h.eq_part]

/-! ### Slots with an object of another type

Messages of the type then reach one of the two dictionaries only. -/

/-- The value, with one more. -/
def addValue (M : Module Obj) : Obj → Option Obj → Obj :=
  adjoin (checkDataType M) (fun v x => M.merge (some v) x)

/-- The tombstone, with one more. -/
def addTombstone (M : Module Obj) : Obj → Option Obj → Obj :=
  adjoin (fun t y => checkTombstoneType M y t) (fun t y => M.mergeTombstone y t)

theorem meet_of_foreign (hv : T.IsValue M v) (ht : ¬ T.IsTombstone M t) :
    meet M v (some t) = ⟨some v, some t⟩ := by
  rw [meet, if_neg (fun h => ht ((checkTombstoneDataType_iff_right hv).1 h))]

theorem meetTombstone_of_foreign (ht : T.IsTombstone M t) (hv : ¬ T.IsValue M v) :
    meetTombstone M t (some v) = ⟨some v, some t⟩ := by
  rw [meetTombstone, if_neg (fun h => hv ((checkTombstoneDataType_iff_left ht).1 h))]

theorem absorbValue_of_foreign_value (hv : ¬ T.IsValue M v) (hx : T.IsValue M x)
    (tom : Option Obj) : absorbValue M ⟨some v, tom⟩ x = ⟨some v, tom⟩ := by
  rw [absorbValue, if_pos (T.objectMethod x hx)]
  exact if_neg (fun h => hv ((checkDataType_iff hx).1 h))

theorem absorbTombstone_of_foreign_value (hv : ¬ T.IsValue M v) (hy : T.IsTombstone M y)
    (tom : Option Obj) :
    absorbTombstone M ⟨some v, tom⟩ y = ⟨some v, some (addTombstone M y tom)⟩ := by
  cases tom with
  | none => exact meetTombstone_of_foreign hy hv
  | some t =>
    show (if checkTombstoneType M y t then if M.tombstoneMethod y then _ else _ else _) = _
    rw [addTombstone, adjoin, if_pos (T.tombstoneMethod y hy)]
    by_cases ht : T.IsTombstone M t
    · rw [if_pos ((checkTombstoneType_iff hy).2 ht), if_pos ((checkTombstoneType_iff hy).2 ht)]
      exact meetTombstone_of_foreign (T.mergeTombstone_isTombstone y t hy ht) hv
    · rw [if_neg (fun h => ht ((checkTombstoneType_iff hy).1 h)),
        if_neg (fun h => ht ((checkTombstoneType_iff hy).1 h))]

theorem absorbTombstone_of_foreign_tombstone (ht : ¬ T.IsTombstone M t) (hy : T.IsTombstone M y)
    (val : Option Obj) : absorbTombstone M ⟨val, some t⟩ y = ⟨val, some t⟩ :=
  if_neg (fun h => ht ((checkTombstoneType_iff hy).1 h))

theorem absorbValue_of_foreign_tombstone (ht : ¬ T.IsTombstone M t) (hx : T.IsValue M x)
    (val : Option Obj) :
    absorbValue M ⟨val, some t⟩ x = ⟨some (addValue M x val), some t⟩ := by
  rw [absorbValue, if_pos (T.objectMethod x hx)]
  cases val with
  | none =>
    rw [T.merge_none x hx]
    exact meet_of_foreign hx ht
  | some v =>
    show (if checkDataType M v x then _ else _) = _
    rw [addValue, adjoin]
    by_cases hv : T.IsValue M v
    · rw [if_pos ((checkDataType_iff hx).2 hv), if_pos ((checkDataType_iff hx).2 hv)]
      exact meet_of_foreign (T.merge_isValue v x hv hx) ht
    · rw [if_neg (fun h => hv ((checkDataType_iff hx).1 h)),
        if_neg (fun h => hv ((checkDataType_iff hx).1 h))]

theorem ofValue_inj (hv : T.IsValue M v) (hx : T.IsValue M x) (h : T.ofValue v = T.ofValue x) :
    v = x := by
  have hpart := T.part_ofValue v hv
  rw [h, T.part_ofValue x hx] at hpart
  exact (Option.some.inj (congrArg Slot.value hpart)).symm

theorem ofTombstone_inj (ht : T.IsTombstone M t) (hy : T.IsTombstone M y)
    (h : T.ofTombstone t = T.ofTombstone y) : t = y := by
  have hpart := T.part_ofTombstone t ht
  rw [h, T.part_ofTombstone y hy] at hpart
  exact (Option.some.inj (congrArg Slot.tombstone hpart)).symm

theorem addValue_comm {x' : Obj} (hx : T.IsValue M x) (hx' : T.IsValue M x') (val : Option Obj) :
    addValue M x' (some (addValue M x val)) = addValue M x (some (addValue M x' val)) :=
  adjoin_comm (P := T.IsValue M) (fun _ _ hx => checkDataType_iff hx) T.merge_isValue
    T.ofValue_merge (fun _ _ hv hx => ofValue_inj hv hx) hx hx' val

theorem addValue_typed (hx : T.IsValue M x) {val : Option Obj} (hval : ∀ v ∈ val, T.IsValue M v) :
    T.IsValue M (addValue M x val) :=
  (adjoin_spec (P := T.IsValue M) (fun _ _ hx => checkDataType_iff hx) T.merge_isValue
    T.ofValue_merge hx hval).1

theorem addTombstone_merge (T : CrdtType M) (t y : Obj) (ht : T.IsTombstone M t)
    (hy : T.IsTombstone M y) :
    T.ofTombstone (M.mergeTombstone y t) = T.ofTombstone t ⊔ T.ofTombstone y := by
  rw [T.ofTombstone_merge y t hy ht, sup_comm]

theorem addTombstone_typed (hy : T.IsTombstone M y) {tom : Option Obj}
    (htom : ∀ t ∈ tom, T.IsTombstone M t) : T.IsTombstone M (addTombstone M y tom) :=
  (adjoin_spec (P := T.IsTombstone M) (fun _ _ hy => checkTombstoneType_iff hy)
    (fun t y ht hy => T.mergeTombstone_isTombstone y t hy ht) T.addTombstone_merge hy htom).1

theorem addTombstone_comm {y' : Obj} (hy : T.IsTombstone M y) (hy' : T.IsTombstone M y')
    (tom : Option Obj) :
    addTombstone M y' (some (addTombstone M y tom)) =
      addTombstone M y (some (addTombstone M y' tom)) :=
  adjoin_comm (P := T.IsTombstone M) (fun _ _ hy => checkTombstoneType_iff hy)
    (fun t y ht hy => T.mergeTombstone_isTombstone y t hy ht) T.addTombstone_merge
    (fun _ _ ht hy => ofTombstone_inj ht hy) hy hy' tom

/-! ### Any slot -/

theorem typed_or_foreign (T : CrdtType M) (σ : Slot Obj) :
    T.Typed M σ ∨ (∃ v tom, σ = ⟨some v, tom⟩ ∧ ¬ T.IsValue M v) ∨
      ∃ val t, σ = ⟨val, some t⟩ ∧ (∀ v ∈ val, T.IsValue M v) ∧ ¬ T.IsTombstone M t := by
  obtain ⟨val, tom⟩ := σ
  by_cases hval : ∀ v ∈ val, T.IsValue M v
  · by_cases htom : ∀ t ∈ tom, T.IsTombstone M t
    · exact .inl ⟨hval, htom⟩
    · push Not at htom
      obtain ⟨t, rfl, ht⟩ := htom
      exact .inr (.inr ⟨val, t, rfl, hval, ht⟩)
  · push Not at hval
    obtain ⟨v, rfl, hv⟩ := hval
    exact .inr (.inl ⟨v, tom, rfl, hv⟩)

/-- Whatever is stored, two messages of the type may come in either order. -/
theorem absorb_comm (σ : Slot Obj) {m m' : Incoming Obj} (hm : T.Brings M m)
    (hm' : T.Brings M m') : absorb M (absorb M σ m) m' = absorb M (absorb M σ m') m := by
  rcases T.typed_or_foreign σ with hσ | ⟨v, tom, rfl, hv⟩ | ⟨val, t, rfl, -, ht⟩
  · -- Both ways lead to the part of one join.
    have h := absorb_typed hσ hm
    have h' := absorb_typed hσ hm'
    rw [(absorb_typed h.typed hm').eq_part, (absorb_typed h'.typed hm).eq_part, h.join_eq,
      h'.join_eq, sup_right_comm]
  · cases m with
    | value x =>
      cases m' with
      | value x' =>
        simp only [absorb, absorbValue_of_foreign_value hv hm, absorbValue_of_foreign_value hv hm']
      | tombstone y' =>
        simp only [absorb, absorbValue_of_foreign_value hv hm,
          absorbTombstone_of_foreign_value hv hm']
    | tombstone y =>
      cases m' with
      | value x' =>
        simp only [absorb, absorbValue_of_foreign_value hv hm',
          absorbTombstone_of_foreign_value hv hm]
      | tombstone y' =>
        simp only [absorb, absorbTombstone_of_foreign_value hv hm,
          absorbTombstone_of_foreign_value hv hm', addTombstone_comm hm hm']
  · cases m with
    | value x =>
      cases m' with
      | value x' =>
        simp only [absorb, absorbValue_of_foreign_tombstone ht hm,
          absorbValue_of_foreign_tombstone ht hm', addValue_comm hm hm']
      | tombstone y' =>
        simp only [absorb, absorbValue_of_foreign_tombstone ht hm,
          absorbTombstone_of_foreign_tombstone ht hm']
    | tombstone y =>
      cases m' with
      | value x' =>
        simp only [absorb, absorbValue_of_foreign_tombstone ht hm',
          absorbTombstone_of_foreign_tombstone ht hm]
      | tombstone y' =>
        simp only [absorb, absorbTombstone_of_foreign_tombstone ht hm,
          absorbTombstone_of_foreign_tombstone ht hm']

/-- A message that changes anything leaves nothing for a purge to do. -/
theorem absorb_stable (σ : Slot Obj) {m : Incoming Obj} (hm : T.Brings M m) :
    absorb M σ m = σ ∨ (absorb M σ m).Stable M := by
  rcases T.typed_or_foreign σ with hσ | ⟨v, tom, rfl, hv⟩ | ⟨val, t, rfl, hval, ht⟩
  · exact .inr (absorb_typed hσ hm).stable
  · cases m with
    | value x => exact .inl (absorbValue_of_foreign_value hv hm tom)
    | tombstone y =>
      rw [absorb, absorbTombstone_of_foreign_value hv hm]
      by_cases htom : ∀ t ∈ tom, T.IsTombstone M t
      · right
        rintro u ⟨⟩ _ ⟨⟩ hcheck
        -- The tombstone is of the type, so that the value would be.
        exact absurd ((checkTombstoneDataType_iff_left (addTombstone_typed hm htom)).1 hcheck) hv
      · push Not at htom
        obtain ⟨t, rfl, ht⟩ := htom
        left
        rw [addTombstone, adjoin, if_neg (fun h => ht ((checkTombstoneType_iff hm).1 h))]
  · cases m with
    | value x =>
      right
      rw [absorb, absorbValue_of_foreign_tombstone ht hm]
      rintro _ ⟨⟩ w ⟨⟩ hcheck
      exact absurd ((checkTombstoneDataType_iff_right (addValue_typed hm hval)).1 hcheck) ht
    | tombstone y => exact .inl (absorbTombstone_of_foreign_tombstone ht hm val)

/-! ## Runs -/

/-- The messages do to the slot the same in any order. -/
theorem foldl_absorb_perm {ms ms' : List (Incoming Obj)} (hms : ∀ m ∈ ms, T.Brings M m)
    (hperm : ms.Perm ms') (σ : Slot Obj) : ms.foldl (absorb M) σ = ms'.foldl (absorb M) σ :=
  hperm.foldl_eq' (fun _ hm _ hm' σ => absorb_comm σ (hms _ hm) (hms _ hm')) σ

theorem foldl_absorb_stable {ms : List (Incoming Obj)} (hms : ∀ m ∈ ms, T.Brings M m)
    (σ : Slot Obj) : ms.foldl (absorb M) σ = σ ∨ (ms.foldl (absorb M) σ).Stable M := by
  induction ms using List.reverseRecOn with
  | nil => exact .inl rfl
  | append_singleton ms m ih =>
    rw [foldl_append]
    rcases absorb_stable (ms.foldl (absorb M) σ) (hms m (by simp)) with h | h
    · rw [foldl_cons, foldl_nil, h]
      exact ih (fun m hm => hms m (mem_append_left _ hm))
    · exact .inr h

/-- All that the messages add. -/
def ofAll (T : CrdtType M) (ms : List (Incoming Obj)) : T.Elem :=
  ms.foldl (fun e m => e ⊔ T.of m) ⊥

theorem foldl_absorb_typed {ms : List (Incoming Obj)} (hms : ∀ m ∈ ms, T.Brings M m)
    (hne : ms ≠ []) {σ : Slot Obj} (hσ : T.Typed M σ) :
    T.Settled (T.join σ ⊔ T.ofAll ms) (ms.foldl (absorb M) σ) := by
  induction ms using List.reverseRecOn with
  | nil => exact absurd rfl hne
  | append_singleton ms m ih =>
    have hm := hms m (by simp)
    rw [ofAll, foldl_append, foldl_append, foldl_cons, foldl_nil,
      foldl_cons, foldl_nil, ← sup_assoc]
    by_cases hms' : ms = []
    · subst hms'
      rw [foldl_nil, foldl_nil, sup_bot_eq]
      exact absorb_typed hσ hm
    · have h := ih (fun m hm => hms m (mem_append_left _ hm)) hms'
      have h' := absorb_typed h.typed hm
      rw [h.join_eq] at h'
      exact h'

end CrdtType

end XredisCrdt.Merge
