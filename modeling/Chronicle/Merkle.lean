/-!
Hash trees over a list of leaves.

Neighbours on a level are joined into the nodes of the next level, an odd last one being joined with
itself, until one node is left. What a node is and how two are joined is left open.
-/

namespace Chronicle.Merkle

variable {α : Type}

/-- The next level. -/
def pairUp (node : α → α → α) : List α → List α
  | left :: right :: rest => node left right :: pairUp node rest
  | [left] => [node left left]
  | [] => []

theorem length_pairUp (node : α → α → α) (level : List α) :
    (pairUp node level).length = (level.length + 1) / 2 := by
  induction level using pairUp.induct with
  | case1 left right rest ih => simp only [pairUp, List.length_cons, ih]; omega
  | case2 left => simp [pairUp]
  | case3 => simp [pairUp]

/-- The only node of the last level; no leaves have no root. -/
def root? (node : α → α → α) : List α → Option α
  | [] => none
  | [top] => some top
  | left :: right :: rest => root? node (pairUp node (left :: right :: rest))
termination_by level => level.length
decreasing_by simp only [length_pairUp, List.length_cons]; omega

end Chronicle.Merkle
