import BuildOrder.Counting
import BuildOrder.Digraph

/-! # Localising a cycle

A sort that cannot place every node leaves evidence behind: marks on the nodes that it did place,
or the trail of nodes on which it came back to where it was.  Either way a cycle is cut out of
the evidence, and evidence that holds none is told apart.
-/

namespace BuildOrder

/-- What the evidence of a failed sort shows. -/
inductive Finding (n : Nat)
  /-- Nodes each of which depends on the next, and the last on the first. -/
  | cycle (nodes : List (Fin n))
  /-- All nodes are placed. -/
  | nothingUnsorted
  /-- A node is not placed although all that it depends on is. -/
  | unsortedWithoutReason (node : Fin n)
  /-- The trail does not lead through the node that was met again. -/
  | offTrail (node : Fin n)
deriving DecidableEq

namespace Finding

/-- The part of a trail from the first visit of a place, if the trail leads through it. -/
def cut [DecidableEq α] (place : α) : List α → Option (List α)
  | [] => none
  | x :: rest => if x = place then some (x :: rest) else cut place rest

/-- What a trail shows that has come back to a node. -/
def ofTrail (trail : List (Fin n)) (reentered : Fin n) : Finding n :=
  match cut reentered trail with
  | some nodes => .cycle nodes
  | none => .offTrail reentered

/-- The node of a number, if it is one of the `n` nodes. -/
def node? (n k : Nat) : Option (Fin n) := if h : k < n then some ⟨k, h⟩ else none

/-- What a trail of numbers shows.  There is no answer when a number of the part that matters is
    no node. -/
def ofTrail? (n : Nat) (trail : List Nat) (reentered : Nat) : Option (Finding n) :=
  match cut reentered trail with
  | some numbers => (numbers.mapM (node? n)).map .cycle
  | none => (node? n reentered).map .offTrail

/-- The outcome of looking for an unmarked node. -/
inductive Look (n : Nat)
  | found (node : Fin n)
  | allMarked
  /-- A node was met for which there is no mark. -/
  | noMark

/-- Looks for the first node that is not marked. -/
def firstUnmarked (marks : List Bool) : List (Fin n) → Look n
  | [] => .allMarked
  | i :: rest =>
    match marks[i.val]? with
    | none => .noMark
    | some false => .found i
    | some true => firstUnmarked marks rest

/-- Walks from an unmarked node to its first unmarked dependency and on, until a node is met
    again.  The trail holds the nodes behind. -/
def walk (g : Digraph n) (marks : List Bool) (trail : List (Fin n)) (current : Fin n) :
    Option (Finding n) :=
  if _ : current ∈ trail then some (ofTrail trail current)
  else
    match firstUnmarked marks (g.dependencies current) with
    | .found next => walk g marks (trail ++ [current]) next
    | .allMarked => some (.unsortedWithoutReason current)
    | .noMark => none
termination_by unmet trail
decreasing_by exact unmet_append_lt (by assumption)

/-- What the marks on the placed nodes show.  There is no answer when a mark is needed beyond
    the end of the list. -/
def ofMarks? (g : Digraph n) (marks : List Bool) : Option (Finding n) :=
  match firstUnmarked marks (List.finRange n) with
  | .found start => walk g marks [] start
  | .allMarked => some .nothingUnsorted
  | .noMark => none

theorem firstUnmarked_ne_noMark {marks : List Bool} (h : n ≤ marks.length) (nodes : List (Fin n)) :
    firstUnmarked marks nodes ≠ .noMark := by
  induction nodes with
  | nil => simp [firstUnmarked]
  | cons i rest ih =>
    have : i.val < marks.length := Nat.lt_of_lt_of_le i.isLt h
    rw [firstUnmarked, List.getElem?_eq_getElem this]
    cases marks[i.val]
    · simp
    · exact ih

/-- The walk ends with a finding when every node has a mark. -/
theorem isSome_walk {g : Digraph n} {marks : List Bool} (h : n ≤ marks.length) (trail : List (Fin n))
    (current : Fin n) : (walk g marks trail current).isSome := by
  fun_induction walk g marks trail current with
  | case1 => rfl
  | case2 _ _ _ _ _ ih => exact ih
  | case3 => rfl
  | case4 _ _ _ hnone => exact absurd hnone (firstUnmarked_ne_noMark h _)

/-- Marks for all nodes always show something. -/
theorem isSome_ofMarks? {g : Digraph n} {marks : List Bool} (h : n ≤ marks.length) :
    (ofMarks? g marks).isSome := by
  rw [ofMarks?]
  split
  · exact isSome_walk h _ _
  · rfl
  · rename_i hnone
    exact absurd hnone (firstUnmarked_ne_noMark h _)

/-- What marks for all nodes show. -/
def ofMarks (g : Digraph n) (marks : List Bool) (h : n ≤ marks.length) : Finding n :=
  (ofMarks? g marks).get (isSome_ofMarks? h)

end Finding

end BuildOrder
