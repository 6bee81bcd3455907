import Mathlib.Data.List.Basic

/-!
# Transition systems whose steps may be restricted

A `System` has initial states and a partial step function. `Reachable M ok s`
says that some run of `M` all of whose steps meet `ok` ends in `s`;
`Reachable.invariant` is the induction rule for such runs; `reachable_of_run` and
`reachable_of_runMeeting` turn an evaluated run into a reachable state.
-/

namespace Lib

open Option

variable {σ α : Type*}

/-- A system of states `σ` and actions `α`; `next` is undefined where the action
cannot be taken. -/
structure System (σ α : Type*) where
  init : σ → Prop
  next : σ → α → Option σ

namespace System

variable (M : System σ α)

/-- The states at the end of a run whose steps all meet `ok`. -/
inductive Reachable (ok : σ → α → Prop) : σ → Prop
  | init {s : σ} (h : M.init s) : Reachable ok s
  | step {s s' : σ} {a : α} (h : Reachable ok s) (hok : ok s a) (hstep : M.next s a = some s') :
      Reachable ok s'

/-- The restriction that restricts nothing. -/
def anyStep : σ → α → Prop := fun _ _ => True

/-- Take the actions `as` one after the other. -/
def run : σ → List α → Option σ
  | s, [] => some s
  | s, a :: as => (M.next s a).bind fun s' => run s' as

/-- The same as long as the steps meet `ok`. -/
def runMeeting (ok : σ → α → Prop) [∀ s a, Decidable (ok s a)] : σ → List α → Option σ
  | s, [] => some s
  | s, a :: as => if ok s a then (M.next s a).bind fun s' => runMeeting ok s' as else none

variable {M} {ok : σ → α → Prop}

/-- What holds initially and is kept by every permitted step holds in every
state reached. -/
theorem Reachable.invariant {P : σ → Prop} (hinit : ∀ s, M.init s → P s)
    (hstep : ∀ s a s', P s → ok s a → M.next s a = some s' → P s') {s : σ}
    (h : M.Reachable ok s) : P s := by
  induction h with
  | init h => exact hinit _ h
  | step _ hok hnext ih => exact hstep _ _ _ ih hok hnext

/-- An evaluated run of actions that are always permitted ends in a reachable state. -/
theorem reachable_of_run_of_forall {s t : σ} {as : List α} (hs : M.Reachable ok s)
    (hok : ∀ a ∈ as, ∀ s, ok s a) (h : M.run s as = some t) : M.Reachable ok t := by
  induction as generalizing s with
  | nil =>
    simp only [run, some.injEq] at h
    exact h ▸ hs
  | cons a as ih =>
    simp only [run, bind_eq_some_iff] at h
    obtain ⟨s', hnext, hrest⟩ := h
    have hstep : M.Reachable ok s' := .step hs (hok a (by simp) s) hnext
    exact ih hstep (fun b hb => hok b (List.mem_cons_of_mem a hb)) hrest

/-- An evaluated run of permitted steps ends in a reachable state. -/
theorem reachable_of_run {s t : σ} {as : List α} (hs : M.Reachable anyStep s)
    (h : M.run s as = some t) : M.Reachable anyStep t :=
  reachable_of_run_of_forall hs (fun _ _ _ => trivial) h

@[inherit_doc reachable_of_run]
theorem reachable_of_runMeeting [∀ s a, Decidable (ok s a)] {s t : σ} {as : List α}
    (hs : M.Reachable ok s) (h : M.runMeeting ok s as = some t) : M.Reachable ok t := by
  induction as generalizing s with
  | nil =>
    simp only [runMeeting, some.injEq] at h
    exact h ▸ hs
  | cons a as ih =>
    simp only [runMeeting, ite_none_right_eq_some, bind_eq_some_iff] at h
    obtain ⟨hok, s', hnext, hrest⟩ := h
    exact ih (.step hs hok hnext) hrest

end System

end Lib
