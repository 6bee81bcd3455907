import XredisCrdt.Clock.Packed

/-!
# The clock functions in memory against the functions on lists

For each function of `Clock.Packed`, one theorem: where the function on lists of units
succeeds, the function in memory does, and its result stands for the list. `Effect` says
what becomes of the rest of the memory: a call changes the block of the clock it consumes
and the block it was given, nothing else.
-/

namespace XredisCrdt.Clock.Packed

open Lib.KeyedMerge List Option Word

/-! ## What a call does -/

/-- The result `w'` of a call that consumes the clock `old`: it stands for `cs`, and no
memory changed but that of `old` and the new block. -/
structure Effect (h : Heap) (b : Block) (old : Word) (h' : Heap) (w' : Word) (cs : Units) :
    Prop where
  rep : Rep h' w' cs
  frame : ∀ a, a ≠ b.addr → ¬ Owns old a → h' a = h a
  owner : ∀ a, Owns w' a → Owns old a ∨ a = b.addr

variable {b : Block} {cs ss : Units} {gid : Int} {h : Heap} {i : Nat} {src vc w : Word}
  {us : List Word} (u : Word)

theorem Writes.effect {h h' : Heap} {w' : Word} (hw : Writes h w h' w') (hrep : Rep h' w' cs)
    (b : Block) : Effect h b w h' w' cs where
  rep := hrep
  frame a _ ha := hw.frame a ha
  owner a ha := .inl ((hw.owns_iff a).1 ha)

theorem Allocates.effect {h h' : Heap} {w' : Word} (ha : Allocates h b h' w') (hrep : Rep h' w' cs)
    (old : Word) : Effect h b old h' w' cs where
  rep := hrep
  frame a hne _ := ha.frame a hne
  owner a hown := .inr (ha.owner a hown)

/-- No call, no effect. -/
theorem Effect.refl (hrep : Rep h w cs) (b : Block) :
    Effect h b w h w cs := (Writes.refl h w).effect hrep b

/-! ## One gid -/

/-- `(char) gid`, as the functions on lists take it. -/
def gidOf (gid : Int) : Nat := (gid % 256).toNat

theorem gid_eq_char_iff (gid : Int) : (u.gid.toNat : Int) = char gid ↔ u.gid.toNat = gidOf gid := by
  have hlt : u.gid.toNat < 16 := u.gid.isLt
  unfold char gidOf
  omega

/-- The loop of `get_clock_unit` against the list: what is found, and that an assignment to
it is `setLogicClock`. -/
theorem findIdx_spec (us : List Word) (g : Nat) : (us.findIdx? (fun u => u.gid.toNat = g) = none ∧
      Clock.getClockUnit (us.map unit) g = none) ∨
    ∃ i, ∃ hi : i < us.length, us.findIdx? (fun u => u.gid.toNat = g) = some i ∧
      us[i].gid.toNat = g ∧ Clock.getClockUnit (us.map unit) g = some us[i].unit ∧
        ∀ f : Nat → Int, setLogicClock g f (us.map unit) =
          (us.map unit).set i ⟨g, toClock (f us[i].clock.toNat)⟩ := by
  induction us with
  | nil => exact .inl ⟨rfl, rfl⟩
  | cons u us ih =>
    rw [findIdx?_cons, map_cons, Clock.getClockUnit, at?_cons]
    by_cases hu : u.gid.toNat = g
    · refine .inr ⟨0, by simp, by simp [hu], hu, ?_, ?_⟩
      · rw [if_pos (show u.unit.gid = g from hu)]
        rfl
      · intro f
        rw [setLogicClock, if_pos (show u.unit.gid = g from hu), set_cons_zero]
        subst hu
        rfl
    · rw [if_neg (show u.unit.gid ≠ g from hu)]
      rcases ih with ⟨hnone, hget⟩ | ⟨i, hi, hsome, hgid, hget, hset⟩
      · exact .inl ⟨by simp [hu, hnone], hget⟩
      · refine .inr ⟨i + 1, by simpa using hi, by simp [hu, hsome], hgid, hget, ?_⟩
        intro f
        rw [setLogicClock, if_neg (show u.unit.gid ≠ g from hu), hset f, set_cons_succ]
        rfl

theorem getClockUnit_spec (hw : Holds h w us) (gid : Int) : (getClockUnit h w gid = some none ∧
      Clock.getClockUnit (us.map unit) (gidOf gid) = none) ∨
    ∃ i, ∃ hi : i < us.length, getClockUnit h w gid = some (some i) ∧ us[i].gid.toNat = gidOf gid ∧
      Clock.getClockUnit (us.map unit) (gidOf gid) = some us[i].unit ∧
        ∀ f : Nat → Int, setLogicClock (gidOf gid) f (us.map unit) =
          (us.map unit).set i ⟨gidOf gid, toClock (f us[i].clock.toNat)⟩ := by
  have hpred : (fun u : Word => decide ((u.gid.toNat : Int) = char gid)) =
      fun u => decide (u.gid.toNat = gidOf gid) := by
    funext u
    exact decide_eq_decide.2 (gid_eq_char_iff u gid)
  rw [getClockUnit, units_eq hw, map_some, hpred]
  rcases findIdx_spec us (gidOf gid) with ⟨hnone, hget⟩ | ⟨i, hi, hsome, hrest⟩
  · exact .inl ⟨by rw [hnone], hget⟩
  · exact .inr ⟨i, hi, by rw [hsome], hrest⟩

/-- A gid that is not there is not set. -/
theorem setLogicClock_of_none {g : Nat} {f : Nat → Int} (hnone : Clock.getClockUnit cs g = none) :
    setLogicClock g f cs = cs := by
  induction cs with
  | nil => rfl
  | cons u us ih =>
    rw [Clock.getClockUnit, at?_cons] at hnone
    rw [setLogicClock]
    split_ifs at hnone ⊢
    rw [ih hnone]

theorem toNat_ofInt_clock (t : Int) : (BitVec.ofInt 56 t).toNat = toClock t := by
  rw [BitVec.toNat_ofInt, toClock]
  norm_num

/-- A unit of the gid is set through its pointer. -/
theorem modifyUnit_rep (hw : Holds h w us) (hi : i < us.length) {f : Word → Word}
    (hf : ∀ u, (f u).len = u.len) (b : Block) :
    ∃ h' w', modifyUnit f h w i = some (h', w') ∧
      Effect h b w h' w' ((us.map unit).set i (f us[i]).unit) := by
  obtain ⟨h', w', hmod, hw', hwrites⟩ := modifyUnit_spec hw hi hf
  refine ⟨h', w', hmod, hwrites.effect ⟨_, hw', ?_⟩ b⟩
  rw [modify_eq_set_getElem?, getElem?_eq_getElem hi]
  exact map_set

theorem setUnit_rep (hw : Holds h w us) (hi : i < us.length) (hgid : us[i].gid.toNat = gidOf gid)
    (hpos : 0 < us[i].gid.toNat) (t : Word → Int) (b : Block) :
    ∃ h' w', setUnit h w i (char gid) t = some (h', w') ∧
      Effect h b w h' w' ((us.map unit).set i ⟨gidOf gid, toClock (t us[i])⟩) := by
  have hchar := (gid_eq_char_iff us[i] gid).2 hgid
  have hlt : us[i].gid.toNat < 16 := us[i].gid.isLt
  obtain ⟨h', w', hmod, heffect⟩ := modifyUnit_rep hw hi
    (f := fun u => (u.setGid (BitVec.ofInt 4 (char gid))).setClock (BitVec.ofInt 56 (t u)))
    (by simp) b
  refine ⟨h', w', by rw [setUnit, if_pos ⟨by omega, by omega⟩, hmod], ?_⟩
  have hunit : ((us[i].setGid (BitVec.ofInt 4 (char gid))).setClock
      (BitVec.ofInt 56 (t us[i]))).unit = ⟨gidOf gid, toClock (t us[i])⟩ := by
    rw [unit, setClock_gid, setGid_gid, setClock_clock, toNat_ofInt_clock,
      ← hchar, BitVec.ofInt_natCast, BitVec.ofNat_toNat, BitVec.setWidth_eq, hgid]
  rw [hunit] at heffect
  exact heffect

/-- The units of a list are within the range of the gid field. -/
def Positive (cs : Units) : Prop := ∀ u ∈ cs, 0 < u.gid

theorem Positive.getElem (hpos : Positive (us.map unit)) (hi : i < us.length) :
    0 < us[i].gid.toNat :=
  hpos us[i].unit (mem_map_of_mem (getElem_mem hi))

theorem unit_initClock (gid t : Int) :
    (Word.initClock (char gid) t).unit = Clock.initClock (gidOf gid) t := by
  rw [Word.unit, Word.initClock, Word.setClock_gid, Word.setGid_gid, Word.setClock_clock,
    toNat_ofInt_clock, Clock.initClock, BitVec.toNat_ofInt]
  congr 1
  unfold char gidOf
  norm_num
  omega

/-- What `store` accepts fits the representation. -/
theorem store_eq_some {n : Nat} {us : Units} (hstore : store n us = some cs) :
    n < 16 ∧ us.length = n ∧ Positive us ∧ cs = us := by
  rw [store] at hstore
  obtain ⟨hcond, hsame⟩ := ite_none_right_eq_some.1 hstore
  exact ⟨hcond.1, hcond.2.1, hcond.2.2, (some.inj hsame).symm⟩

theorem positive_map (h : Positive (us.map unit)) :
    ∀ u ∈ us, 0 < u.gid.toNat := fun u hu => h u.unit (mem_map_of_mem hu)

theorem extend_spec {u : Word} (hw : Holds h vc us) (hfresh : Fresh h b)
    (hstore : store (us.length + 1) (us.map unit ++ [u.unit]) = some cs) :
    ∃ h' w' ws, extend b h vc u = some (h', w') ∧ Holds h' w' ws ∧ ws.map unit = cs ∧
      Allocates h b h' w' := by
  obtain ⟨hn, -, hpos, rfl⟩ := store_eq_some hstore
  have hmap : (us ++ [u]).map unit = us.map unit ++ [u.unit] := by simp
  obtain ⟨h₁, w₁, h', w', ws, hnew, halloc, -, hfill, hw', hunits, hwrites⟩ :=
    newVectorClock_fill_spec h b (us ++ [u]) (by simpa using hn)
      (positive_map (hmap ▸ hpos))
  refine ⟨h', w', ws, ?_, hw', hunits.trans hmap, halloc.writes hwrites⟩
  rw [length_append, length_singleton] at hnew
  rw [extend, hw.1, hnew]
  show (units h₁ vc).bind (fun us => fill h₁ w₁ 0 (us ++ [u])) = _
  rw [units_eq (hw.allocates hfresh halloc)]
  exact hfill

/-- The new clock is sorted and the old one freed, in either order. -/
theorem Allocates.replace {h₁ : Heap} {w₁ : Word} {ws : List Word} (halloc : Allocates h b h₁ w₁)
    (hfresh : Fresh h b) (hw : Holds h vc us) (hw₁ : Holds h₁ w₁ ws) :
    (∃ h₂ h₃, sortVectorClock h₁ w₁ = some h₂ ∧ freeVectorClock h₂ vc = some h₃ ∧
      Effect h b vc h₃ w₁ (Clock.sortVectorClock (ws.map unit))) ∧
    ∃ h₂ h₃, freeVectorClock h₁ vc = some h₂ ∧ sortVectorClock h₂ w₁ = some h₃ ∧
      Effect h b vc h₃ w₁ (Clock.sortVectorClock (ws.map unit)) := by
  -- the two clocks share no block
  have hsep : ∀ a, Owns w₁ a → ¬ Owns vc a := by
    intro a hnew hold
    obtain rfl := halloc.owner a hnew
    exact hw.allocated hold hfresh.2
  have heffect : ∀ h₃, Holds h₃ w₁ (sort (fun u => u.gid.toNat) ws) →
      (∀ a, ¬ Owns w₁ a → ¬ Owns vc a → h₃ a = h₁ a) →
        Effect h b vc h₃ w₁ (Clock.sortVectorClock (ws.map unit)) := by
    intro h₃ hholds hframe
    refine ⟨⟨_, hholds, map_unit_sort ws⟩, ?_, fun a hown => .inr (halloc.owner a hown)⟩
    intro a hne hold
    rw [hframe a (fun hown => hne (halloc.owner a hown)) hold, halloc.frame a hne]
  constructor
  · obtain ⟨h₂, hsort, hw₂, hframe₂⟩ := sortVectorClock_spec hw₁
    have hvc : Holds h₂ vc us := by
      apply (hw.allocates hfresh halloc).congr
      exact fun a hold => hframe₂ a fun hnew => hsep a hnew hold
    obtain ⟨h₃, hfree, hframe₃⟩ := freeVectorClock_spec hvc
    refine ⟨h₂, h₃, hsort, hfree, heffect h₃ ?_ ?_⟩
    · exact hw₂.congr fun a hnew => hframe₃ a (hsep a hnew)
    · intro a hnew hold
      rw [hframe₃ a hold, hframe₂ a hnew]
  · obtain ⟨h₂, hfree, hframe₂⟩ := freeVectorClock_spec (hw.allocates hfresh halloc)
    have hw₂ : Holds h₂ w₁ ws := hw₁.congr fun a hnew => hframe₂ a (hsep a hnew)
    obtain ⟨h₃, hsort, hw₃, hframe₃⟩ := sortVectorClock_spec hw₂
    refine ⟨h₂, h₃, hfree, hsort, heffect h₃ hw₃ ?_⟩
    intro a hnew hold
    rw [hframe₃ a hnew, hframe₂ a hold]

theorem addVectorClockUnit_spec {cs' : Units} {t : Int} (hrep : Rep h vc cs) (hfresh : Fresh h b)
    (hpos : Positive cs) (hlist : Clock.addVectorClockUnit cs (gidOf gid) t = some cs') :
    ∃ h' w', addVectorClockUnit b h vc gid t = some (h', w') ∧ Effect h b vc h' w' cs' := by
  obtain ⟨us, hw, rfl⟩ := hrep
  rw [Clock.addVectorClockUnit] at hlist
  rw [addVectorClockUnit]
  rcases getClockUnit_spec hw gid with ⟨hnone, hget⟩ | ⟨i, hi, hsome, hgid, hget, hset⟩
  · rw [hget, appendUnit, ← unit_initClock] at hlist
    obtain ⟨cs₁, hstore, rfl⟩ := map_eq_some_iff.1 hlist
    rw [length_map] at hstore
    obtain ⟨h₁, w₁, ws, hextend, hw₁, rfl, halloc⟩ := extend_spec hw hfresh hstore
    obtain ⟨⟨h₂, h₃, hsort, hfree, heffect⟩, -⟩ := halloc.replace hfresh hw hw₁
    refine ⟨h₃, w₁, ?_, heffect⟩
    simp only [hnone, hextend, hsort, hfree, bind_eq_bind, bind_some]
  · rw [hget, hset fun _ => t] at hlist
    obtain rfl := some.inj hlist
    obtain ⟨h', w', hunit, heffect⟩ := setUnit_rep hw hi hgid (hpos.getElem hi) (fun _ => t) b
    refine ⟨h', w', ?_, heffect⟩
    simp only [hsome, bind_eq_bind, bind_some]
    exact hunit

theorem incrLogicClock_spec (b : Block) (gid delta : Int) (hrep : Rep h vc cs) :
    ∃ h' w', incrLogicClock h vc gid delta = some (h', w') ∧
      Effect h b vc h' w' (Clock.incrLogicClock cs (gidOf gid) delta) := by
  obtain ⟨us, hw, rfl⟩ := hrep
  rw [Clock.incrLogicClock, incrLogicClock]
  rcases getClockUnit_spec hw gid with ⟨hnone, hget⟩ | ⟨i, hi, hsome, hgid, hget, hset⟩
  · rw [setLogicClock_of_none hget]
    refine ⟨h, vc, ?_, .refl ⟨us, hw, rfl⟩ b⟩
    simp only [hnone, bind_eq_bind, bind_some]
  · rw [hset]
    obtain ⟨h', w', hmod, heffect⟩ := modifyUnit_rep hw hi
      (f := fun u => u.setClock (BitVec.ofInt 56 (u.clock.toNat + delta))) (by simp) b
    rw [unit, setClock_gid, setClock_clock, toNat_ofInt_clock, hgid] at heffect
    refine ⟨h', w', ?_, heffect⟩
    simp only [hsome, bind_eq_bind, bind_some]
    exact hmod

theorem commonMergeFunction_spec {dst : Word} {ds cs' : Units} {flag : MergeFlag}
    (hdst : Rep h dst ds) (hsrc : Rep h src ss) (hfresh : Fresh h b) (hpos : Positive ds)
    (hlist : Clock.commonMergeFunction ds ss (gidOf gid) flag = some cs') :
    ∃ h' w', commonMergeFunction b h dst src gid flag = some (h', w') ∧
      Effect h b dst h' w' cs' := by
  obtain ⟨us, hw, rfl⟩ := hdst
  obtain ⟨vs, hv, rfl⟩ := hsrc
  rw [Clock.commonMergeFunction] at hlist
  rw [commonMergeFunction]
  rcases getClockUnit_spec hv gid with ⟨hnone, hget⟩ | ⟨j, hj, hsome, -, hget, -⟩
  · rw [hget] at hlist
    obtain rfl := some.inj hlist
    refine ⟨h, dst, ?_, .refl ⟨us, hw, rfl⟩ b⟩
    simp only [hnone, bind_eq_bind, bind_some]
  · simp only [hsome, unitAt_eq hv hj, bind_eq_bind, bind_some]
    rcases getClockUnit_spec hw gid with ⟨hnone', hget'⟩ | ⟨i, hi, hsome', hgid, hget', hset⟩
    · simp only [hget, hget', appendUnit] at hlist
      obtain ⟨cs₁, hstore, rfl⟩ := map_eq_some_iff.1 hlist
      rw [length_map, ← unit_initClock] at hstore
      obtain ⟨h₁, w₁, ws, hextend, hw₁, rfl, halloc⟩ := extend_spec hw hfresh hstore
      obtain ⟨-, h₂, h₃, hfree, hsort, heffect⟩ := halloc.replace hfresh hw hw₁
      refine ⟨h₃, w₁, ?_, heffect⟩
      simp only [hnone', bind_some]
      rw [show extend b h dst (Word.initClock (char gid) vs[j].clock.toNat) = _ from hextend]
      simp only [hfree, hsort, bind_some]
    · simp only [hget, hget', hset, some.injEq] at hlist
      subst hlist
      obtain ⟨h', w', hunit, heffect⟩ := setUnit_rep hw hi hgid (hpos.getElem hi)
        (fun d => flag.apply vs[j].clock.toNat d.clock.toNat) b
      refine ⟨h', w', ?_, heffect⟩
      simp only [hsome', bind_some]
      exact hunit

/-! ## Whole clocks -/

theorem dupVectorClock_spec (hw : Holds h vc us) (hfresh : Fresh h b)
    (hlist : Clock.dupVectorClock (us.map unit) = some cs) :
    ∃ h' w' ws, dupVectorClock b h vc = some (h', w') ∧ Holds h' w' ws ∧
      ws.map unit = us.map unit ∧ cs = us.map unit ∧ Allocates h b h' w' := by
  rw [Clock.dupVectorClock, length_map] at hlist
  have hcs : us.length < 16 ∧ cs = us.map unit ∧
      (us.length = 1 → ∀ u ∈ us, 0 < u.gid.toNat) := by
    split at hlist
    · rename_i hone
      obtain ⟨-, -, hpos, hcs⟩ := store_eq_some hlist
      exact ⟨by omega, hcs, fun _ => positive_map hpos⟩
    · rename_i hone
      obtain ⟨hlt, hcs⟩ := ite_none_right_eq_some.1 hlist
      exact ⟨hlt, (some.inj hcs).symm, fun h1 => absurd h1 hone⟩
  obtain ⟨hlt, hcs, hpos⟩ := hcs
  obtain ⟨h₁, w₁, junk, hnew, hjunk, hw₁, halloc⟩ := newVectorClock_spec h b hlt
  have hvc := hw.allocates hfresh halloc
  rw [dupVectorClock, hw.1, hnew]
  simp only [bind_eq_bind, bind_some]
  by_cases htwo : 1 < us.length
  · -- `memcpy`
    rw [if_pos htwo, hvc.block htwo, hw₁.block (hjunk.symm ▸ htwo)]
    simp only [bind_some]
    rw [if_neg (by omega), take_length, ← hjunk, drop_length, append_nil]
    have hwrites : Writes h₁ w₁ (Function.update h₁ w₁.pvc (some us)) w₁ := by
      refine ⟨rfl, fun _ => rfl, fun a ha => Function.update_of_ne ?_ _ _⟩
      rintro rfl
      exact ha ⟨by rw [hw₁.1]; omega, rfl⟩
    refine ⟨_, w₁, us, rfl, ?_, rfl, hcs, halloc.writes hwrites⟩
    exact holds_of_block (hw₁.1.trans hjunk) htwo (Function.update_self ..)
  · rw [if_neg htwo]
    by_cases hone : us.length = 1
    · rw [if_pos hone]
      obtain rfl := hw.single hone
      obtain ⟨h', w', ws, hfill, hw', hunits, hwrites⟩ :=
        @fill_spec h₁ [vc] w₁ [] junk hw₁ hjunk.symm (hpos hone)
      refine ⟨h', w', ws, ?_, hw', hunits, hcs, halloc.writes hwrites⟩
      simp only [unitAt_eq hvc (show 0 < [vc].length by simp), bind_some]
      have hstep : fill h₁ w₁ 0 [vc] = setClockUnitByIndex h₁ w₁ 0 vc := by
        rw [fill]
        cases setClockUnitByIndex h₁ w₁ 0 vc <;> rfl
      exact hstep.symm.trans hfill
    · rw [if_neg hone]
      have hnil : us = [] := length_eq_zero_iff.1 (by omega)
      have hjnil : junk = [] := length_eq_zero_iff.1 (by omega)
      subst hnil hjnil
      exact ⟨h₁, w₁, [], rfl, hw₁, rfl, hcs, halloc⟩

/-- A block that is sorted already is not changed. -/
theorem sortVectorClock_sorted (hw : Holds h w us) (hsorted : Ascending (fun u => u.gid.toNat) us) :
    sortVectorClock h w = some h := by
  obtain ⟨h', hsort, hw', hframe⟩ := sortVectorClock_spec hw
  rw [hsorted.sort_eq] at hw'
  have hsame : h' = h := by
    funext a
    by_cases ha : Owns w a
    · obtain ⟨hlen, rfl⟩ := ha
      have htwo : 2 ≤ us.length := hw.1 ▸ hlen
      rw [hw.block htwo, hw'.block htwo]
    · exact hframe a ha
  rw [hsort, hsame]

theorem ascending_map_unit :
    Ascending ClockUnit.gid (us.map unit) ↔ Ascending (fun u => u.gid.toNat) us :=
  pairwise_map

theorem setLen_self {n : Nat} (hlen : w.len.toNat = n) (hn : n < 16) (hpos : 0 < n) :
    setLen w n = some w := by
  have hofNat : BitVec.ofNat 4 n = w.len := by
    rw [← hlen, BitVec.ofNat_toNat, BitVec.setWidth_eq]
  rw [setLen, if_pos ⟨hn, hpos⟩, hofNat, Word.setLen_self]

section Merge

variable {pick : Nat → Nat → Nat} {alone' : Nat → Nat} {both : Word → Word → Word}
  {alone : Word → Word}
  (hpick : ∀ u v : Word, pick u.clock.toNat v.clock.toNat < 2 ^ 56)
  (hboth : ∀ u v, (both u v).unit = pickUnit pick u.unit v.unit)
  (halone : ∀ u, (alone u).unit = aloneUnit alone' u.unit)

include hpick hboth halone

theorem mergeWords_spec {again : Bool} {h : Heap} {b : Block} {v₁ v₂ : Word} {as bs : List Word}
    {cs : Units} (hw₁ : Holds h v₁ as) (hw₂ : Holds h v₂ bs) (hfresh : Fresh h b)
    (hs₁ : Ascending ClockUnit.gid (as.map unit))
    (hs₂ : Ascending ClockUnit.gid (bs.map unit)) (has : as ≠ []) (hbs : bs ≠ [])
    (hlist : mergeUnits pick alone' (as.map unit) (bs.map unit) = some cs) :
    ∃ h' w', mergeWords pick both alone again b h v₁ v₂ = some (h', w') ∧ Rep h' w' cs ∧
      Allocates h b h' w' := by
  rw [mergeUnits] at hlist
  rw [mergeWords]
  simp only [units_eq hw₁, units_eq hw₂, bind_eq_bind, bind_some]
  split at hlist
  · rename_i hmany
    rw [if_pos hmany]
    -- the merge of the words stands for the merge of the units
    have hmap : (mergeBy (fun u => u.gid.toNat) both alone as bs).map unit =
        mergeBy ClockUnit.gid (pickUnit pick) (aloneUnit alone')
          (Clock.sortVectorClock (as.map unit)) (Clock.sortVectorClock (bs.map unit)) := by
      have hkey : ∀ u : Word, ClockUnit.gid u.unit = u.gid.toNat := fun _ => rfl
      rw [map_mergeBy hkey hboth halone, Clock.sortVectorClock, hs₁.sort_eq,
        Clock.sortVectorClock, hs₂.sort_eq]
    rw [← hmap] at hlist
    obtain ⟨hn, hlen, hpos, rfl⟩ := store_eq_some hlist
    rw [length_map] at hlen
    generalize hus : mergeBy (fun u : Word => u.gid.toNat) both alone as bs = us at *
    rw [← hlen] at hn hmany ⊢
    obtain ⟨h₁, w₁, h', w', ws, hnew, halloc, hlen₁, hfill, hw', hunits, hwrites⟩ :=
      newVectorClock_fill_spec h b us hn (positive_map hpos)
    have hlen' : w'.len.toNat = us.length := by rw [hwrites.len, hlen₁]
    have hv₁ := hw₁.allocates hfresh halloc
    have hv₂ := hw₂.allocates hfresh halloc
    refine ⟨h', w', ?_, ⟨ws, hw', hunits⟩, halloc.writes hwrites⟩
    simp only [hnew, setLen_self hlen₁ hn (by omega), ite_self, bind_some,
      sortVectorClock_sorted hv₁ (ascending_map_unit.1 hs₁),
      sortVectorClock_sorted hv₂ (ascending_map_unit.1 hs₂), units_eq hv₁, units_eq hv₂, hus,
      hfill, setLen_self hlen' hn (by omega)]
  · rename_i hone
    rw [if_neg hone]
    obtain ⟨a, as, rfl⟩ := exists_cons_of_ne_nil has
    obtain ⟨v, bs, rfl⟩ := exists_cons_of_ne_nil hbs
    cases hdup : Clock.dupVectorClock ((v :: bs).map unit) with
    | none =>
      rw [hdup] at hlist
      cases hlist
    | some ds =>
      obtain ⟨h₁, w₁, ws, hdup', hw', hunits, rfl, halloc⟩ := dupVectorClock_spec hw₂ hfresh hdup
      rw [hdup] at hlist
      simp only [map_cons, head?_cons, some.injEq] at hlist
      have hws : ws.length = bs.length + 1 := by
        have := congrArg List.length hunits
        simpa using this
      have hv₁ := hw₁.allocates hfresh halloc
      have hv₂ := hw₂.allocates hfresh halloc
      obtain ⟨h', w', hmod, hw'', hwrites⟩ := modifyUnit_spec (f := fun u => u.setClock
          (BitVec.ofInt 56 (pick a.clock.toNat v.clock.toNat : Nat)))
        hw' (i := 0) (by omega) (by simp)
      refine ⟨h', w', ?_, ⟨_, hw'', ?_⟩, halloc.writes hwrites⟩
      · simp only [hdup', unitAt_eq hv₁ (show 0 < (a :: as).length by simp),
          unitAt_eq hv₂ (show 0 < (v :: bs).length by simp), bind_some]
        exact hmod
      · obtain ⟨x, ws, rfl⟩ := exists_cons_of_length_eq_add_one hws
        rw [map_cons, map_cons, List.cons.injEq] at hunits
        rw [modify_zero_cons, map_cons, hunits.2, ← hlist]
        have hgid : x.gid.toNat = v.gid.toNat := congrArg ClockUnit.gid hunits.1
        simp only [unit, setClock_gid, setClock_clock, toNat_ofInt_clock,
          toClock_natCast (hpick a v), hgid]

end Merge

theorem Holds.null_iff (hw : Holds h w us) : w.len = 0 ↔ us.map unit = [] := by
  rw [len_eq_zero_iff, hw.1, length_eq_zero_iff, map_eq_nil_iff]

theorem rep_null (h : Heap) : Rep h 0 [] := ⟨[], ⟨rfl, trivial⟩, rfl⟩

theorem not_owns_null (a : BitVec 60) : ¬ Owns 0 a := fun h => absurd h.1 (by decide)

theorem null_spec (h : Heap) (b : Block) :
    ∃ h' w', newVectorClock h b 0 = some (h', w') ∧ Rep h' w' [] ∧ Allocates h b h' w' := by
  obtain ⟨h', w', us, hnew, hlen, hw', halloc⟩ := newVectorClock_spec h b (n := 0) (by omega)
  obtain rfl := length_eq_zero_iff.1 hlen
  exact ⟨h', w', hnew, ⟨[], hw', rfl⟩, halloc⟩

theorem clock_toNat_lt : u.clock.toNat < 2 ^ 56 := u.clock.isLt

/-- `init_clock` with values that fit their fields. -/
theorem unit_initClock_gid {t : Nat} (ht : t < 2 ^ 56) :
    (Word.initClock u.gid.toNat t).unit = ⟨u.gid.toNat, t⟩ := by
  rw [Word.unit, Word.initClock, Word.setClock_gid, Word.setGid_gid, Word.setClock_clock,
    toNat_ofInt_clock, toClock_natCast ht, BitVec.ofInt_natCast, BitVec.ofNat_toNat,
    BitVec.setWidth_eq]

theorem vectorClockMerge_spec {v₁ v₂ : Word} {as bs : Units} (hrep₁ : Rep h v₁ as)
    (hrep₂ : Rep h v₂ bs) (hfresh : Fresh h b) (hs₁ : Ascending ClockUnit.gid as)
    (hs₂ : Ascending ClockUnit.gid bs) (hlist : Clock.vectorClockMerge as bs = some cs) :
    ∃ h' w', vectorClockMerge b h v₁ v₂ = some (h', w') ∧ Rep h' w' cs ∧ Allocates h b h' w' := by
  obtain ⟨us, hw₁, rfl⟩ := hrep₁
  obtain ⟨vs, hw₂, rfl⟩ := hrep₂
  rw [Clock.vectorClockMerge] at hlist
  simp only [vectorClockMerge, hw₁.null_iff, hw₂.null_iff]
  split_ifs at hlist ⊢ with hnull h₁ h₂
  · obtain rfl := some.inj hlist
    exact null_spec h b
  · obtain ⟨h', w', ws, hdup, hw', hunits, rfl, halloc⟩ := dupVectorClock_spec hw₂ hfresh hlist
    exact ⟨h', w', hdup, ⟨ws, hw', hunits⟩, halloc⟩
  · obtain ⟨h', w', ws, hdup, hw', hunits, rfl, halloc⟩ := dupVectorClock_spec hw₁ hfresh hlist
    exact ⟨h', w', hdup, ⟨ws, hw', hunits⟩, halloc⟩
  · have hmax : ∀ u v : Word, Max.max u.clock.toNat v.clock.toNat < 2 ^ 56 := fun u v =>
      max_lt (clock_toNat_lt u) (clock_toNat_lt v)
    refine mergeWords_spec hmax (fun u v => ?_) (fun u => rfl) hw₁ hw₂ hfresh hs₁ hs₂
      (mt (fun h => by rw [h]; rfl) h₁) (mt (fun h => by rw [h]; rfl) h₂) hlist
    exact unit_initClock_gid u (hmax u v)

theorem dupClean_spec (hw : Holds h vc us) (hfresh : Fresh h b)
    (hlist : (Clock.dupVectorClock (us.map unit)).map Clock.cleanVectorClock = some cs) :
    ∃ h' w', dupClean b h vc = some (h', w') ∧ Rep h' w' cs ∧ Allocates h b h' w' := by
  obtain ⟨ds, hdup, rfl⟩ := map_eq_some_iff.1 hlist
  obtain ⟨h₁, w₁, ws, hdup', hw₁, hunits, rfl, halloc⟩ := dupVectorClock_spec hw hfresh hdup
  obtain ⟨h', w', hclean, hw', hwrites⟩ := @cleanVectorClock_spec h₁ w₁ [] ws hw₁
  refine ⟨h', w', ?_, ⟨_, hw', ?_⟩, halloc.writes hwrites⟩
  · rw [dupClean, hdup']
    show cleanVectorClock h₁ w₁ 0 w₁.len.toNat = _
    rw [hw₁.1]
    exact hclean
  · rw [nil_append, ← hunits, Clock.cleanVectorClock, List.map_map, List.map_map]
    refine map_congr_left fun u _ => ?_
    simp [unit]

theorem mergeMinVectorClock_spec {v₁ v₂ : Word} {as bs : Units} (hrep₁ : Rep h v₁ as)
    (hrep₂ : Rep h v₂ bs) (hfresh : Fresh h b) (hs₁ : Ascending ClockUnit.gid as)
    (hs₂ : Ascending ClockUnit.gid bs) (hlist : Clock.mergeMinVectorClock as bs = some cs) :
    ∃ h' w', mergeMinVectorClock b h v₁ v₂ = some (h', w') ∧ Rep h' w' cs ∧
      Allocates h b h' w' := by
  obtain ⟨us, hw₁, rfl⟩ := hrep₁
  obtain ⟨vs, hw₂, rfl⟩ := hrep₂
  rw [Clock.mergeMinVectorClock] at hlist
  simp only [mergeMinVectorClock, hw₁.null_iff, hw₂.null_iff]
  split_ifs at hlist ⊢ with hnull h₁ h₂
  · obtain rfl := some.inj hlist
    exact null_spec h b
  · exact dupClean_spec hw₂ hfresh hlist
  · exact dupClean_spec hw₁ hfresh hlist
  · have hmin : ∀ u v : Word, Min.min u.clock.toNat v.clock.toNat < 2 ^ 56 := fun u v =>
      (min_le_left _ _).trans_lt (clock_toNat_lt u)
    refine mergeWords_spec hmin (fun u v => ?_) (fun u => ?_) hw₁ hw₂ hfresh hs₁ hs₂
      (mt (fun h => by rw [h]; rfl) h₁) (mt (fun h => by rw [h]; rfl) h₂) hlist
    · exact unit_initClock_gid u (hmin u v)
    · exact unit_initClock_gid u (t := 0) (by omega)

/-- The loop of `purgeVectorClock` keeps the units that the list function keeps. -/
theorem aheads_spec {vs : List Word} (hv : Holds h src vs) (us : List Word) :
    aheads h src us = some (us.filter fun u => !notBehind (vs.map unit) u.unit) := by
  have hahead : ∀ u, ahead h src u = some (!notBehind (vs.map unit) u.unit) := by
    intro u
    have hgid : gidOf u.gid.toNat = u.unit.gid := by
      have hlt : u.gid.toNat < 16 := u.gid.isLt
      show gidOf u.gid.toNat = u.gid.toNat
      unfold gidOf
      omega
    rw [ahead, notBehind]
    rcases getClockUnit_spec hv u.gid.toNat with ⟨hnone, hget⟩ | ⟨j, hj, hsome, -, hget, -⟩
    · rw [hgid] at hget
      simp only [hnone, hget, bind_eq_bind, bind_some]
      rfl
    · rw [hgid] at hget
      simp only [hsome, hget, unitAt_eq hv hj, bind_eq_bind, bind_some, some.injEq]
      rw [← decide_not]
      exact decide_eq_decide.2 not_le.symm
  induction us with
  | nil => rfl
  | cons u us ih =>
    simp only [aheads, hahead u, ih, bind_eq_bind, bind_some, filter_cons]

theorem purgeVectorClock_spec {targe : Word} {ts : Units} (htarge : Rep h targe ts)
    (hsrc : Rep h src ss) (hfresh : Fresh h b) (hlist : Clock.purgeVectorClock ts ss = some cs) :
    ∃ h' w', purgeVectorClock b h targe src = some (h', w') ∧ Effect h b targe h' w' cs := by
  obtain ⟨us, hw, rfl⟩ := htarge
  obtain ⟨vs, hv, rfl⟩ := hsrc
  rw [Clock.purgeVectorClock] at hlist
  simp only [purgeVectorClock, hw.null_iff, hv.null_iff]
  split_ifs at hlist ⊢ with hnull hnull'
  · obtain rfl := some.inj hlist
    exact ⟨h, targe, rfl, .refl ⟨us, hw, rfl⟩ b⟩
  · obtain rfl := some.inj hlist
    exact ⟨h, targe, rfl, .refl ⟨us, hw, rfl⟩ b⟩
  · have hfilter : (us.map unit).filter (fun u => !notBehind (vs.map unit) u) =
        (us.filter fun u => !notBehind (vs.map unit) u.unit).map unit := filter_map
    simp only [hfilter] at hlist
    generalize hc : us.filter (fun u => !notBehind (vs.map unit) u.unit) = c at hlist
    obtain ⟨cs₁, hstore, rfl⟩ := map_eq_some_iff.1 hlist
    obtain ⟨hn, -, hpos, rfl⟩ := store_eq_some hstore
    rw [length_map] at hn
    obtain ⟨h₁, w₁, h₂, w₂, ws, hnew, halloc, -, hfill, hw₂, hunits, hwrites⟩ :=
      newVectorClock_fill_spec h b c hn (positive_map hpos)
    obtain ⟨-, h₃, h₄, hfree, hsort, heffect⟩ := (halloc.writes hwrites).replace hfresh hw hw₂
    rw [hunits] at heffect
    refine ⟨h₄, w₂, ?_, heffect⟩
    simp only [units_eq hw, aheads_spec hv us, hc, hnew, hfill, hfree, hsort,
      bind_eq_bind, bind_some]

theorem getMonoVectorClock_spec (hsrc : Rep h src ss) (hfresh : Fresh h b)
    (hlist : Clock.getMonoVectorClock ss (gidOf gid) = some cs) :
    ∃ h' w', getMonoVectorClock b h src gid = some (h', w') ∧ Rep h' w' cs ∧
      Allocates h b h' w' := by
  obtain ⟨vs, hv, rfl⟩ := hsrc
  rw [Clock.getMonoVectorClock] at hlist
  rw [getMonoVectorClock]
  rcases getClockUnit_spec hv gid with ⟨hnone, hget⟩ | ⟨j, hj, hsome, -, hget, -⟩
  · rw [hget] at hlist
    obtain rfl := some.inj hlist
    obtain ⟨h', w', hnew, hrep, halloc⟩ := null_spec h b
    refine ⟨h', w', ?_, hrep, halloc⟩
    show (getClockUnit h src gid).bind _ = _
    rw [hnone]
    exact hnew
  · simp only [hget] at hlist
    obtain ⟨hn, -, hpos, rfl⟩ := store_eq_some hlist
    obtain ⟨h₁, w₁, h', w', ws, hnew, halloc, hlen₁, hfill, hw', hunits, hwrites⟩ :=
      newVectorClock_fill_spec h b [vs[j]] (by simp) (positive_map hpos)
    have hv₁ := hv.allocates hfresh halloc
    have hlen' : w'.len.toNat = 1 := by rw [hwrites.len, hlen₁]; rfl
    refine ⟨h', w', ?_, ⟨ws, hw', hunits⟩, halloc.writes hwrites⟩
    have hset : setClockUnitByIndex h₁ w₁ 0 vs[j] = some (h', w') := by
      rw [← hfill, fill]
      cases setClockUnitByIndex h₁ w₁ 0 vs[j] <;> rfl
    have hget₁ : getClockUnit h₁ src gid = some (some j) := by
      rw [getClockUnit, units_eq hv₁, ← units_eq hv]
      exact hsome
    rw [show newVectorClock h b 1 = _ from hnew]
    simp only [hget₁, unitAt_eq hv₁ hj, hset, setLen_self hlen' (by omega) (by omega),
      bind_eq_bind, bind_some]

end XredisCrdt.Clock.Packed
