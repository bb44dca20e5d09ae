import TolerantSyntax.Tree.NodeSize

/-!
# Walks

A walk lists the nodes below a node, each before its children and with its depth. It may
leave out what is inside a type.
-/

namespace TolerantSyntax

/-- A node and its depth in a tree. -/
structure Visit where
  depth : Nat
  node : Node

namespace Node

def below (intoTypes : Bool) : Node → List Node
  | type inner => if intoTypes then (Node.type inner).children else []
  | node => node.children

theorem mem_children_of_mem_below {intoTypes : Bool} {node child : Node}
    (h : child ∈ node.below intoTypes) : child ∈ node.children := by
  cases node with
  | type inner => cases intoTypes <;> simp_all [below]
  | _ => exact h

/-- The walk from a node on, in front of other visits. -/
def walkOnto (intoTypes : Bool) (depth : Nat) (node : Node) (rest : List Visit) : List Visit :=
  ⟨depth, node⟩ :: (node.below intoTypes).attach.foldr
    (fun child rest => walkOnto intoTypes (depth + 1) child.1 rest) rest
termination_by sizeOf node
decreasing_by exact sizeOf_child_lt (mem_children_of_mem_below child.2)

end Node

namespace CompilationUnit

/-- The walk over a whole tree; the outermost members have depth 0. -/
def walk (unit : CompilationUnit) (intoTypes : Bool) : List Visit :=
  unit.members.foldr (fun member => Node.walkOnto intoTypes 0 (.member member)) []

def height (unit : CompilationUnit) : Nat :=
  (unit.walk true).foldl (fun height visit => max height (visit.depth + 1)) 0

def byRefCount (unit : CompilationUnit) : Nat :=
  (unit.walk true).countP fun visit =>
    match visit.node with
    | .type type => type.isByRef
    | _ => false

end CompilationUnit
end TolerantSyntax
