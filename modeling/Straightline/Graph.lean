import Straightline.Table

/-!
# Reachability

A graph gives every node the list of its successors; a node without an entry has none.  `Graph.search`
finds what can be reached from some nodes by working through a stack: a node met for the first time
puts its successors on it.  Every entry is opened at most once, so the search ends.
-/

namespace Straightline

/-- **A directed graph**: the successors of each node. -/
structure Graph where
  edges : Table (List String)
  deriving DecidableEq

namespace Graph

/-- The successors of a node. -/
def successors (g : Graph) (x : String) : List String := (g.edges.get? x).getD []

/-- Whether a node has an entry. -/
def has (g : Graph) (x : String) : Bool := g.edges.has x

/-- Adds edges from a node, which gets an entry even if there are none. -/
def addEdges (g : Graph) (x : String) (ys : List String) : Graph :=
  ⟨g.edges.set x (g.successors x ++ ys.filter (· ∉ g.successors x))⟩

/-- How much of the entries is still unopened: a unit for each, and one for each of its successors. -/
def unopened (found : List String) : Table (List String) → Nat
  | [] => 0
  | (x, ys) :: rest => (if x ∈ found then 0 else ys.length + 1) + unopened found rest

/-- Opening the entry of a new node uses up at least its share. -/
theorem unopened_cons_add_le {x : String} {found : List String} (h : x ∉ found)
    (es : Table (List String)) :
    unopened (x :: found) es + ((es.get? x).map (·.length + 1)).getD 0 ≤ unopened found es := by
  induction es with
  | nil => simp [unopened]
  | cons e es ih =>
    obtain ⟨y, ys⟩ := e
    rw [Table.get?_cons]
    by_cases hy : x = y
    · subst hy
      simp only [unopened, List.mem_cons, true_or, if_true, if_neg h, Option.map_some,
        Option.getD_some]
      omega
    · have hyx : y ≠ x := fun e => hy e.symm
      simp only [unopened, List.mem_cons, hyx, false_or, if_neg hy]
      omega

/-- Adds to `found` all that can be reached from the nodes of `stack`. -/
def searchFrom (g : Graph) (stack found : List String) : List String :=
  match stack with
  | [] => found
  | x :: rest =>
    if x ∈ found then searchFrom g rest found
    else searchFrom g (g.successors x ++ rest) (x :: found)
termination_by unopened found g.edges + stack.length
decreasing_by
  · simp
  · have hle := unopened_cons_add_le (x := x) ‹_› g.edges
    unfold successors
    cases hx : g.edges.get? x with
    | none => simp [hx] at hle ⊢; omega
    | some ys => simp [hx] at hle ⊢; omega

/-- **All that can be reached** from some nodes, these included. -/
def search (g : Graph) (roots : List String) : List String := g.searchFrom roots []

end Graph

end Straightline
