import Mathlib.Data.List.Sort
import Mathlib.Data.List.DropRight

/-!
# The largest values of a list

`largest n l` are the `n` largest values of `l` in ascending order. A sorted list that
never grows past `n` keeps them as values arrive: `push n a l` puts `a` in its place and
drops what falls off the front.
-/

namespace Lib.Largest

open List

variable {E K : Type*} [LinearOrder K] (key : E → K)

/-- Put `a` before the first element whose key is not smaller, and keep `n`. -/
def push (n : Nat) (a : E) (l : List E) : List E :=
  (l.orderedInsert (fun x y => key x ≤ key y) a).rtake n

/-- Ascending keys. -/
def Ascending (l : List E) : Prop := l.Pairwise fun x y => key x ≤ key y

variable {key} {n : Nat} {a : E} {l : List E}

end Lib.Largest
