import Mathlib.Data.List.Basic
import Mathlib.Order.Basic

/-!
# Messages stamped with a clock that never goes back

An `Outbox` is what one party has sent so far, in order, each message with the clock
of the sender at that time. The receiver has taken a number `n` of them.
`StableFrom n r` says that whatever it has not taken yet, or will be sent later, was or
will be sent at a clock of at least `r`.

A receiver gets at such an `r` by the messages themselves: the stamp of any message
taken is stable from there on (`stableFrom_stamp`), and neither side's further steps
undo that (`advance`, `send`, `later`).
-/

namespace Lib

open List

variable {μ C : Type*}

/-- A message, and the clock of its sender when it was sent. -/
structure Stamped (μ C : Type*) where
  body : μ
  stamp : C
  deriving DecidableEq

/-- The messages of a sender whose clock never goes back. -/
structure Outbox (μ C : Type*) [Preorder C] where
  clock : C
  sent : List (Stamped μ C)
  ascending : sent.Pairwise fun m m' => m.stamp ≤ m'.stamp
  below : ∀ m ∈ sent, m.stamp ≤ clock

namespace Outbox

variable [Preorder C] (o : Outbox μ C)

/-- Nothing sent yet. -/
def empty (c : C) : Outbox μ C := ⟨c, [], .nil, by simp⟩

def advance (c : C) (h : o.clock ≤ c) : Outbox μ C :=
  { o with
    clock := c
    below := fun m hm => (o.below m hm).trans h }

def send (body : μ) : Outbox μ C where
  clock := o.clock
  sent := o.sent ++ [⟨body, o.clock⟩]
  ascending := by
    refine pairwise_append.2 ⟨o.ascending, pairwise_singleton _ _, ?_⟩
    intro m hm m' hm'
    rw [mem_singleton.1 hm']
    exact o.below m hm
  below := by
    intro m hm
    rcases mem_append.1 hm with hm | hm
    · exact o.below m hm
    · rw [mem_singleton.1 hm]

/-- What comes from position `n` on was, or will be, sent at `r` or later. -/
structure StableFrom (n : Nat) (r : C) : Prop where
  now : r ≤ o.clock
  unread : ∀ k m, n ≤ k → o.sent[k]? = some m → r ≤ m.stamp

variable {o} {n n' k : Nat} {r : C}

/-- The stamp of a message is stable from its position on. -/
theorem stableFrom_stamp {m : Stamped μ C} (hm : o.sent[k]? = some m) (hk : k ≤ n) :
    o.StableFrom n m.stamp := by
  obtain ⟨hlt, rfl⟩ := List.getElem?_eq_some_iff.1 hm
  refine ⟨o.below _ (getElem_mem hlt), ?_⟩
  intro i m' hi hm'
  obtain ⟨hlt', rfl⟩ := List.getElem?_eq_some_iff.1 hm'
  rcases Nat.eq_or_lt_of_le (Nat.le_trans hk hi) with rfl | hki
  · exact le_rfl
  · exact pairwise_iff_getElem.1 o.ascending k i hlt hlt' hki

theorem StableFrom.later (h : o.StableFrom n r) (hn : n ≤ n') : o.StableFrom n' r :=
  ⟨h.now, fun k m hk => h.unread k m (Nat.le_trans hn hk)⟩

theorem StableFrom.advance (h : o.StableFrom n r) {c : C} (hc : o.clock ≤ c) :
    (o.advance c hc).StableFrom n r :=
  ⟨h.now.trans hc, h.unread⟩

theorem StableFrom.send (h : o.StableFrom n r) (body : μ) : (o.send body).StableFrom n r := by
  refine ⟨h.now, ?_⟩
  intro k m hk hm
  have hm' : (o.sent ++ [⟨body, o.clock⟩])[k]? = some m := hm
  rcases Nat.lt_or_ge k o.sent.length with hlt | hge
  · rw [getElem?_append_left hlt] at hm'
    exact h.unread k m hk hm'
  · -- the message that was just sent bears the present clock
    rw [getElem?_append_right hge] at hm'
    rw [mem_singleton.1 (mem_of_getElem? hm')]
    exact h.now

end Outbox

end Lib
