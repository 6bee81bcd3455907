import XredisCrdt.Clock.PackedSpecs

/-!
# Runs of clock operations in memory

A program that computes with clocks holds them in variables and calls the functions of
`ctrip_vector_clock.c` on them. `exec` is one such call on the packed representation,
with the allocator's answer as a parameter; `Op.apply` is the same call on lists of units.
-/

namespace XredisCrdt.Clock.Packed

open Lib.KeyedMerge Function Option

/-! ## Runs -/

/-- A call, with the variables that hold its clocks. The result goes to the first one,
which is also the argument that a function consumes or updates. `newOne` is a clock of one
unit as `server.c` and `rdb.c` make it, `free` a clock that is given up. -/
inductive Op
  | new (z : Nat)
  | newOne (z : Nat) (gid t : Int)
  | add (z : Nat) (gid t : Int)
  | incr (z : Nat) (gid delta : Int)
  | mergeLogic (z x : Nat) (gid : Int)
  | updateProcess (z x : Nat) (gid currentGid : Int)
  | merge (z x y : Nat)
  | mergeMin (z x y : Nat)
  | purge (z x : Nat)
  | mono (z x : Nat) (gid : Int)
  | dup (z x : Nat)
  | free (z : Nat)

/-- Only the functions that write a gid they are given restrict it. -/
def Op.InRange : Op → Prop
  | .newOne _ gid _ | .add _ gid _ => 1 ≤ gid ∧ gid ≤ 15
  | _ => True

/-- The variable that is assigned. -/
def Op.target : Op → Nat
  | .new z | .newOne z _ _ | .add z _ _ | .incr z _ _ | .mergeLogic z _ _
  | .updateProcess z _ _ _ | .merge z _ _ | .mergeMin z _ _ | .purge z _ | .mono z _ _
  | .dup z _ | .free z => z

/-- Variables and heap. -/
structure State where
  heap : Heap
  vars : Nat → Word

/-- Null clocks, and no block in use. -/
def State.init : State := ⟨fun _ => none, fun _ => 0⟩

/-- The call in memory. -/
def Op.call (s : State) (b : Block) : Op → Option (Heap × Word)
  | .new _ => newVectorClock s.heap b 0
  | .newOne _ gid t => do
    let (h, w) ← newVectorClock s.heap b 1
    fill h w 0 [Word.initClock (char gid) t]
  | .add z gid t => addVectorClockUnit b s.heap (s.vars z) gid t
  | .incr z gid delta => incrLogicClock s.heap (s.vars z) gid delta
  | .mergeLogic z x gid => mergeLogicClock b s.heap (s.vars z) (s.vars x) gid
  | .updateProcess z x gid currentGid =>
    updateProcessVectorClock b s.heap (s.vars z) (s.vars x) gid currentGid
  | .merge _ x y => vectorClockMerge b s.heap (s.vars x) (s.vars y)
  | .mergeMin _ x y => mergeMinVectorClock b s.heap (s.vars x) (s.vars y)
  | .purge z x => purgeVectorClock b s.heap (s.vars z) (s.vars x)
  | .mono _ x gid => getMonoVectorClock b s.heap (s.vars x) gid
  | .dup _ x => dupVectorClock b s.heap (s.vars x)
  | .free z => (freeVectorClock s.heap (s.vars z)).map fun h => (h, 0)

/-- The call on lists of units. -/
def Op.list (c : Nat → Units) : Op → Option Units
  | .new _ | .free _ => some []
  | .newOne _ gid t => store 1 [Clock.initClock (gidOf gid) t]
  | .add z gid t => Clock.addVectorClockUnit (c z) (gidOf gid) t
  | .incr z gid delta => some (Clock.incrLogicClock (c z) (gidOf gid) delta)
  | .mergeLogic z x gid => Clock.mergeLogicClock (c z) (c x) (gidOf gid)
  | .updateProcess z x gid currentGid =>
    Clock.commonMergeFunction (c z) (c x) (gidOf gid) (if gid = currentGid then .align else .max)
  | .merge _ x y => Clock.vectorClockMerge (c x) (c y)
  | .mergeMin _ x y => Clock.mergeMinVectorClock (c x) (c y)
  | .purge z x => Clock.purgeVectorClock (c z) (c x)
  | .mono _ x gid => Clock.getMonoVectorClock (c x) (gidOf gid)
  | .dup _ x => Clock.dupVectorClock (c x)

def exec (s : State) (op : Op) (b : Block) : Option State :=
  (op.call s b).map fun r => ⟨r.1, update s.vars op.target r.2⟩

def Op.apply (op : Op) (c : Nat → Units) : Option (Nat → Units) :=
  (op.list c).map fun cs => update c op.target cs

/-- The states of a program that computes with clocks. -/
inductive Reachable : State → Prop
  | init : Reachable .init
  | step {s s' : State} {op : Op} {b : Block} (hs : Reachable s) (hrange : op.InRange)
      (hfresh : Fresh s.heap b) (hexec : exec s op b = some s') : Reachable s'

/-- Each variable stands for its list, and no two share a block. -/
structure Sep (s : State) (c : Nat → Units) : Prop where
  rep : ∀ x, Rep s.heap (s.vars x) (c x)
  sep : ∀ x y a, x ≠ y → Owns (s.vars x) a → ¬ Owns (s.vars y) a

/-- The list is a sorted clock. -/
def IsClock (cs : Units) : Prop := ∃ v : VectorClock, v.units = cs ∧ v.Sorted

theorem IsClock.positive {cs : Units} (h : IsClock cs) : Positive cs := by
  obtain ⟨v, rfl, -⟩ := h
  exact fun u hu => (v.bits u hu).1

/-- On clocks the functions on lists succeed and yield clocks. -/
theorem Op.list_isClock {op : Op} (hrange : op.InRange) {c : Nat → Units}
    (hc : ∀ x, IsClock (c x)) : ∃ cs, op.list c = some cs ∧ IsClock cs := by
  have hmergeAt : ∀ (z x : Nat) (g : Nat) (flag : MergeFlag),
      ∃ cs, Clock.commonMergeFunction (c z) (c x) g flag = some cs ∧ IsClock cs := by
    intro z x g flag
    obtain ⟨v, hv, hsv⟩ := hc z
    obtain ⟨w, hw, -⟩ := hc x
    rw [← hv, ← hw]
    exact ⟨_, VectorClock.commonMergeFunction_units v w g flag, _, rfl,
      VectorClock.Sorted.mergeAt hsv w g flag⟩
  cases op with
  | new z => exact ⟨[], rfl, .null, rfl, VectorClock.sorted_null⟩
  | free z => exact ⟨[], rfl, .null, rfl, VectorClock.sorted_null⟩
  | newOne z gid t =>
    obtain ⟨hlo, hhi⟩ := hrange
    have hgid : 0 < (Clock.initClock (gidOf gid) t).gid ∧
        (Clock.initClock (gidOf gid) t).gid < 16 := by
      show 0 < ((gidOf gid : Int) % 16).toNat ∧ ((gidOf gid : Int) % 16).toNat < 16
      unfold gidOf
      omega
    refine ⟨[Clock.initClock (gidOf gid) t], ?_, ⟨_, by simp [Distinct], ?_⟩, rfl,
      List.pairwise_singleton _ _⟩
    · exact if_pos ⟨by omega, rfl, by simpa using hgid.1⟩
    · intro u hu
      rw [List.mem_singleton.1 hu]
      exact ⟨hgid.1, hgid.2, toClock_lt t⟩
  | add z gid t =>
    obtain ⟨hlo, hhi⟩ := hrange
    obtain ⟨v, hv, hsv⟩ := hc z
    have hgid : 0 < gidOf gid ∧ gidOf gid < 16 := by
      unfold gidOf
      omega
    show ∃ cs, Clock.addVectorClockUnit (c z) (gidOf gid) t = some cs ∧ _
    rw [← hv]
    refine ⟨_, VectorClock.addVectorClockUnit_units v ⟨gidOf gid, hgid⟩ t, _, rfl, ?_⟩
    unfold VectorClock.add
    split
    · exact VectorClock.append_sorted _ _ _
    · exact VectorClock.setTime_sorted hsv _ _
  | incr z gid delta =>
    obtain ⟨v, hv, hsv⟩ := hc z
    refine ⟨_, rfl, v.setTime (gidOf gid) (fun t => t + delta), ?_,
      VectorClock.setTime_sorted hsv _ _⟩
    rw [← hv]
    rfl
  | mergeLogic z x gid => exact hmergeAt z x (gidOf gid) .max
  | updateProcess z x gid currentGid => exact hmergeAt z x (gidOf gid) _
  | merge z x y =>
    obtain ⟨v, hv, hsv⟩ := hc x
    obtain ⟨w, hw, hsw⟩ := hc y
    show ∃ cs, Clock.vectorClockMerge (c x) (c y) = some cs ∧ _
    rw [← hv, ← hw]
    exact ⟨_, VectorClock.vectorClockMerge_units v w, _, rfl, hsv.merge hsw⟩
  | mergeMin z x y =>
    obtain ⟨v, hv, hsv⟩ := hc x
    obtain ⟨w, hw, hsw⟩ := hc y
    show ∃ cs, Clock.mergeMinVectorClock (c x) (c y) = some cs ∧ _
    rw [← hv, ← hw]
    exact ⟨_, VectorClock.mergeMinVectorClock_units v w, _, rfl, hsv.mergeMin hsw⟩
  | purge z x =>
    obtain ⟨v, hv, hsv⟩ := hc z
    obtain ⟨w, hw, -⟩ := hc x
    show ∃ cs, Clock.purgeVectorClock (c z) (c x) = some cs ∧ _
    rw [← hv, ← hw]
    by_cases hnull : w.units = []
    · refine ⟨v.units, ?_, v, rfl, hsv⟩
      rw [Clock.purgeVectorClock, if_pos hnull, ite_self]
    · exact ⟨_, VectorClock.purgeVectorClock_units hnull, _, rfl, VectorClock.purge_sorted v w⟩
  | mono z x gid =>
    obtain ⟨v, hv, -⟩ := hc x
    show ∃ cs, Clock.getMonoVectorClock (c x) (gidOf gid) = some cs ∧ _
    rw [← hv]
    exact ⟨_, VectorClock.getMonoVectorClock_units v _, _, rfl, VectorClock.mono_sorted v _⟩
  | dup z x =>
    obtain ⟨v, hv, hsv⟩ := hc x
    show ∃ cs, Clock.dupVectorClock (c x) = some cs ∧ _
    rw [← hv]
    exact ⟨_, VectorClock.dupVectorClock_units v, v, rfl, hsv⟩

/-- The call in memory does what the call on lists does. -/
theorem Op.call_spec {op : Op} {s : State} {c : Nat → Units} {b : Block} {cs : Units}
    (hsep : Sep s c) (hc : ∀ x, IsClock (c x)) (hfresh : Fresh s.heap b)
    (hlist : op.list c = some cs) :
    ∃ h' w', op.call s b = some (h', w') ∧ Effect s.heap b (s.vars op.target) h' w' cs := by
  have hsorted : ∀ x, Ascending ClockUnit.gid (c x) := by
    intro x
    obtain ⟨v, hv, hsv⟩ := hc x
    exact hv ▸ hsv
  have hnew : ∀ {r : Option (Heap × Word)}, (∃ h' w', r = some (h', w') ∧ Rep h' w' cs ∧
      Allocates s.heap b h' w') →
        ∃ h' w', r = some (h', w') ∧ Effect s.heap b (s.vars op.target) h' w' cs := by
    rintro r ⟨h', w', hr, hrep, halloc⟩
    exact ⟨h', w', hr, halloc.effect hrep _⟩
  cases op with
  | new z =>
    obtain rfl := some.inj hlist
    exact hnew (null_spec s.heap b)
  | free z =>
    obtain rfl := some.inj hlist
    obtain ⟨us, hw, -⟩ := hsep.rep z
    obtain ⟨h', hfree, hframe⟩ := freeVectorClock_spec hw
    exact ⟨h', 0, by rw [Op.call, hfree]; rfl, rep_null h', fun a _ ha => hframe a ha,
      fun a ha => absurd ha (not_owns_null a)⟩
  | newOne z gid t =>
    obtain ⟨hn, -, hpos, rfl⟩ := store_eq_some hlist
    rw [← unit_initClock] at hpos
    obtain ⟨h₁, w₁, h', w', ws, hnew₁, halloc, -, hfill, hw', hunits, hwrites⟩ :=
      newVectorClock_fill_spec s.heap b [Word.initClock (char gid) t] (by simp)
        (positive_map hpos)
    rw [List.map_singleton, unit_initClock] at hunits
    refine hnew ⟨h', w', ?_, ⟨ws, hw', hunits⟩, halloc.writes hwrites⟩
    rw [Op.call, show newVectorClock s.heap b 1 = _ from hnew₁]
    exact hfill
  | add z gid t => exact addVectorClockUnit_spec (hsep.rep z) hfresh (hc z).positive hlist
  | incr z gid delta =>
    obtain rfl := some.inj hlist
    exact incrLogicClock_spec b gid delta (hsep.rep z)
  | mergeLogic z x gid =>
    exact commonMergeFunction_spec (hsep.rep z) (hsep.rep x) hfresh (hc z).positive hlist
  | updateProcess z x gid currentGid =>
    exact commonMergeFunction_spec (hsep.rep z) (hsep.rep x) hfresh (hc z).positive hlist
  | merge z x y =>
    exact hnew
      (vectorClockMerge_spec (hsep.rep x) (hsep.rep y) hfresh (hsorted x) (hsorted y) hlist)
  | mergeMin z x y =>
    exact hnew
      (mergeMinVectorClock_spec (hsep.rep x) (hsep.rep y) hfresh (hsorted x) (hsorted y) hlist)
  | purge z x => exact purgeVectorClock_spec (hsep.rep z) (hsep.rep x) hfresh hlist
  | mono z x gid => exact hnew (getMonoVectorClock_spec (hsep.rep x) hfresh hlist)
  | dup z x =>
    obtain ⟨us, hw, hus⟩ := hsep.rep x
    have hdup : Clock.dupVectorClock (us.map Word.unit) = some cs := hus ▸ hlist
    obtain ⟨h', w', ws, hcall, hw', hunits, rfl, halloc⟩ := dupVectorClock_spec hw hfresh hdup
    exact hnew ⟨h', w', hcall, ⟨ws, hw', hunits⟩, halloc⟩

/-- A call keeps the other variables and shares no block with them. -/
theorem Sep.effect {s : State} {c : Nat → Units} (hsep : Sep s c) {b : Block}
    (hfresh : Fresh s.heap b) {z : Nat} {h' : Heap} {w' : Word} {cs : Units}
    (heffect : Effect s.heap b (s.vars z) h' w' cs) :
    Sep ⟨h', update s.vars z w'⟩ (update c z cs) := by
  have hused : ∀ {x : Nat} {a : BitVec 60}, Owns (s.vars x) a → a ≠ b.addr := by
    rintro x a hown rfl
    obtain ⟨us, hw, -⟩ := hsep.rep x
    exact hw.allocated hown hfresh.2
  have hother : ∀ {x : Nat} {a : BitVec 60}, x ≠ z → Owns (s.vars x) a → ¬ Owns w' a := by
    intro x a hne hown hown'
    rcases heffect.owner a hown' with hold | hblock
    · exact hsep.sep x z a hne hown hold
    · exact hused hown hblock
  constructor
  · intro x
    by_cases hx : x = z
    · subst hx
      simpa only [update_self] using heffect.rep
    · simp only [update_of_ne hx]
      refine (hsep.rep x).congr fun a hown => heffect.frame a (hused hown) ?_
      exact hsep.sep x z a hx hown
  · intro x y a hne
    by_cases hx : x = z
    · subst hx
      simp only [update_self, update_of_ne hne.symm]
      exact fun hown hown' => hother hne.symm hown' hown
    · by_cases hy : y = z
      · subst hy
        simp only [update_self, update_of_ne hne]
        exact hother hne
      · simp only [update_of_ne hx, update_of_ne hy]
        exact hsep.sep x y a hne

/-- One step, in memory and on lists. -/
theorem exec_spec {s : State} {c : Nat → Units} (hsep : Sep s c) (hc : ∀ x, IsClock (c x))
    {op : Op} (hrange : op.InRange) {b : Block} (hfresh : Fresh s.heap b) :
    ∃ s' c', exec s op b = some s' ∧ op.apply c = some c' ∧ Sep s' c' ∧ ∀ x, IsClock (c' x) := by
  obtain ⟨cs, hlist, hcs⟩ := op.list_isClock hrange hc
  obtain ⟨h', w', hcall, heffect⟩ := Op.call_spec hsep hc hfresh hlist
  refine ⟨_, update c op.target cs, by rw [exec, hcall]; rfl, by rw [Op.apply, hlist]; rfl,
    hsep.effect hfresh heffect, ?_⟩
  intro x
  by_cases hx : x = op.target
  · rw [hx, update_self]
    exact hcs
  · rw [update_of_ne hx]
    exact hc x

/-- Every state that is reached stands for sorted clocks. -/
theorem Reachable.sep {s : State} (hs : Reachable s) : ∃ c, Sep s c ∧ ∀ x, IsClock (c x) := by
  induction hs with
  | init =>
    exact ⟨fun _ => [], ⟨fun _ => rep_null _, fun _ _ a _ h => absurd h (not_owns_null a)⟩,
      fun _ => ⟨.null, rfl, VectorClock.sorted_null⟩⟩
  | step _ hrange hfresh hexec ih =>
    obtain ⟨c, hsep, hc⟩ := ih
    obtain ⟨s'', c', hexec', -, hsep', hc'⟩ := exec_spec hsep hc hrange hfresh
    obtain rfl := some.inj (hexec.symm.trans hexec')
    exact ⟨c', hsep', hc'⟩

/-- The units of the variables. -/
def State.clocks (s : State) (x : Nat) : Units :=
  ((units s.heap (s.vars x)).getD []).map Word.unit

theorem Sep.clocks {s : State} {c : Nat → Units} (hsep : Sep s c) : s.clocks = c := by
  funext x
  obtain ⟨us, hw, hus⟩ := hsep.rep x
  rw [State.clocks, units_eq hw, ← hus]
  rfl

/-- The representation invariant: as many units as the length field says, at most 15, with
distinct gids in ascending order. -/
def WellFormed (h : Heap) (w : Word) : Prop :=
  ∃ us, units h w = some us ∧ us.length = w.len.toNat ∧ us.length ≤ 15 ∧
    (us.map fun u => u.gid).Nodup ∧ Ascending (fun u => u.gid.toNat) us ∧
      ∀ u ∈ us, 0 < u.gid.toNat

theorem Sep.wellFormed {s : State} {c : Nat → Units} (hsep : Sep s c) (hc : ∀ x, IsClock (c x))
    (x : Nat) : WellFormed s.heap (s.vars x) := by
  obtain ⟨us, hw, hus⟩ := hsep.rep x
  obtain ⟨v, hv, hsv⟩ := hc x
  have hasc : Ascending (fun u : Word => u.gid.toNat) us := by
    rw [← ascending_map_unit, hus, ← hv]
    exact hsv
  refine ⟨us, units_eq hw, hw.1.symm, ?_, ?_, hasc, ?_⟩
  · have hlen := v.length_lt
    rw [hv, ← hus, List.length_map] at hlen
    omega
  · have hdistinct := hasc.distinct
    refine List.Nodup.of_map BitVec.toNat ?_
    rw [List.map_map]
    exact hdistinct
  · exact positive_map (hus ▸ (hc x).positive)

/-- Clocks in memory: the invariant holds in every state that is reached, and from there
every call succeeds and changes the units as the function on lists does. -/
theorem packed_clocks_sound {s : State} (hs : Reachable s) : (∀ x, WellFormed s.heap (s.vars x)) ∧
      ∀ (op : Op) (b : Block), op.InRange → Fresh s.heap b →
        ∃ s', exec s op b = some s' ∧ op.apply s.clocks = some s'.clocks := by
  obtain ⟨c, hsep, hc⟩ := hs.sep
  refine ⟨hsep.wellFormed hc, ?_⟩
  intro op b hrange hfresh
  obtain ⟨s', c', hexec, happly, hsep', -⟩ := exec_spec hsep hc hrange hfresh
  exact ⟨s', hexec, by rw [hsep.clocks, hsep'.clocks, happly]⟩

/-- Two units, the second with the lower gid: a block is taken and sorted. -/
theorem packed_clocks_sound_two :
    ∃ s s', Reachable s ∧ exec s (.add 0 1 7) ⟨8, fun _ => -1⟩ = some s' ∧
      s.clocks 0 = [⟨3, 5⟩] ∧ s'.clocks 0 = [⟨1, 7⟩, ⟨3, 5⟩] := by
  have hfirst := (packed_clocks_sound Reachable.init).2 (.add 0 3 5) ⟨8, fun _ => -1⟩
    ⟨by decide, by decide⟩ ⟨by decide, rfl⟩
  obtain ⟨s, hexec, happly⟩ := hfirst
  have hs : Reachable s := .step .init (show (Op.add 0 3 5).InRange from ⟨by decide, by decide⟩)
    ⟨by decide, rfl⟩ hexec
  have hclock : s.clocks 0 = [⟨3, 5⟩] := by
    have h0 := congrFun (some.inj happly).symm 0
    exact h0.trans rfl
  have hfresh : Fresh s.heap ⟨8, fun _ => -1⟩ := by
    refine ⟨by decide, ?_⟩
    rw [← some.inj ((show exec .init (.add 0 3 5) ⟨8, fun _ => -1⟩ = some _ from rfl).symm.trans
      hexec)]
    rfl
  obtain ⟨s', hexec', happly'⟩ := (packed_clocks_sound hs).2 (.add 0 1 7) ⟨8, fun _ => -1⟩
    ⟨by decide, by decide⟩ hfresh
  refine ⟨s, s', hs, hexec', hclock, ?_⟩
  have hlist : (Op.add 0 1 7).list s.clocks = some [⟨1, 7⟩, ⟨3, 5⟩] := by
    show Clock.addVectorClockUnit (s.clocks 0) (gidOf 1) 7 = _
    rw [hclock]
    rfl
  rw [Op.apply, hlist] at happly'
  exact congrFun (some.inj happly').symm 0

end XredisCrdt.Clock.Packed
