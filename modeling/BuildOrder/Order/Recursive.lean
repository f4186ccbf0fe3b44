import BuildOrder.Counting
import BuildOrder.Digraph

/-! # Sorting depth first, by recursion

The search of `DepthFirst` as its definition would be written: visit what a node depends on, then
place the node.  The nodes whose visit is under way are those of the path that led here.
-/

namespace BuildOrder.Recursive

/-- Visits nodes one by one at the end of a path, and gives all nodes placed so far.  When a node
    of the path is met, the nodes of the path from there on are a cycle. -/
def visitAll (g : Digraph n) (path placed : List (Fin n)) :
    List (Fin n) → Except (List (Fin n)) (List (Fin n))
  | [] => .ok placed
  | i :: rest =>
    if i ∈ placed then visitAll g path placed rest
    else if _ : i ∈ path then .error (path.dropWhile (· ≠ i))
    else
      match visitAll g (path ++ [i]) placed (g.dependencies i) with
      | .ok inner => visitAll g path (inner ++ [i]) rest
      | .error cycle => .error cycle
termination_by nodes => (unmet path, nodes.length)
decreasing_by
  · exact Prod.Lex.right _ (Nat.lt_succ_self _)
  · exact Prod.Lex.left _ _ (unmet_append_lt (by assumption))
  · exact Prod.Lex.right _ (Nat.lt_succ_self _)

/-- All nodes in the order in which their visits end, or the nodes of a cycle. -/
def order (g : Digraph n) : Except (List (Fin n)) (List (Fin n)) := visitAll g [] [] (List.finRange n)

end BuildOrder.Recursive
