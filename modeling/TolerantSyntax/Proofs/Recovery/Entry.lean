import Mathlib.Data.List.Basic
import TolerantSyntax.Tree.Walk

/-!
# What recovery leaves in a tree

The entries of a node are the nodes that it holds, the bodies that it has, and the traces
that recovery has left in it: what is missing, what was skipped, what is too short.  Other
than the children of a node, its entries have the names of `using` directives and
namespaces among them, so a walk along entries comes to every part of a tree.
-/

namespace TolerantSyntax

/-- A trace of recovery, by the index of a token. -/
inductive Fault where
  | missingExpr (place : Nat)
  | skippedStmt (place : Nat)
  | skippedRef (token : Nat)
  | shortTuple (opening : Nat)
  | noOperator (place : Nat)
  | noName (place : Nat)
deriving DecidableEq, Repr

/-- A block, or the braces of a class, struct, interface or namespace, with the ranges of
what stands between them. -/
structure Body where
  opening? : Option Nat
  ranges : List TokenRange
  closing? : Option Nat
deriving DecidableEq, Repr, Inhabited

inductive Entry where
  | node (node : Node)
  | body (body : Body)
  | fault (fault : Fault)

namespace Entry

def node? : Entry → Option Node
  | node inner => some inner
  | _ => none

def body? : Entry → Option Body
  | body inner => some inner
  | _ => none

@[simp] theorem nodes_node (inner : Node) (rest : List Entry) :
    (node inner :: rest).filterMap node? = inner :: rest.filterMap node? := rfl

@[simp] theorem nodes_body (inner : Body) (rest : List Entry) :
    (body inner :: rest).filterMap node? = rest.filterMap node? := rfl

@[simp] theorem nodes_fault (inner : Fault) (rest : List Entry) :
    (fault inner :: rest).filterMap node? = rest.filterMap node? := rfl

end Entry

def ElementType.entries : ElementType → List Entry
  | mk _ _ skippedRef? type _ =>
      (skippedRef?.toList.map fun token => .fault (.skippedRef token)) ++ [.node (.type type)]

def TypeSyntax.entries : TypeSyntax → List Entry
  | generic _ _ _ args _ => args.flatMap (·.entries)
  | tuple _ opening elements _ =>
      elements.flatMap (·.entries) ++
        if elements.length < 2 then [.fault (.shortTuple opening)] else []
  | type => type.children.map fun child => .node (.type child)

def TypeArguments.entries (args : TypeArguments) : List Entry := args.args.flatMap (·.entries)

def Expr.entries : Expr → List Entry
  | genericName _ _ args => args.entries
  | memberAccess _ receiver _ _ (some args) => .node (.expr receiver) :: args.entries
  | missing info => [.fault (.missingExpr info.range.start)]
  | expr => expr.children.map .node

def Block.entries : Block → List Entry
  | mk _ opening stmts closing? =>
      .body ⟨some opening, stmts.map (·.range), closing?⟩ ::
        stmts.map fun stmt => .node (.stmt stmt)

def Stmt.entries : Stmt → List Entry
  | block _ body => body.entries
  | skipped range => [.fault (.skippedStmt range.start)]
  | stmt => stmt.children.map .node

def Parameter.entries (parameter : Parameter) : List Entry :=
  .node (.type parameter.type) ::
    ((if parameter.name?.isNone then [.fault (.noName parameter.type.range.stop)] else []) ++
      parameter.value?.toList.map fun value => .node (.expr value))

def ParameterList.entries (list : ParameterList) : List Entry := list.params.flatMap (·.entries)

def MemberBody.entries : MemberBody → List Entry
  | block body => body.entries
  | arrow body => [.node (.expr body.expr)]
  | semicolon _ => []

def PropertyBody.entries : PropertyBody → List Entry
  | accessors _ list _ => list.flatMap (·.body.entries)
  | arrow body => [.node (.expr body.expr)]

namespace Member

def entries : Member → List Entry
  | method _ type _ _ params body => .node (.type type) :: (params.entries ++ body.entries)
  | operator _ type keyword op? params body =>
      .node (.type type) ::
        ((if op?.isNone then [.fault (.noOperator (keyword + 1))] else []) ++ params.entries ++
          body.entries)
  | property _ type _ body => .node (.type type) :: body.entries
  | indexer _ type _ params body => .node (.type type) :: (params.entries ++ body.entries)
  | constructor _ _ params body => params.entries ++ body.entries
  | delegate _ _ type _ _ params _ => .node (.type type) :: params.entries
  | typeDecl _ head opening? members closing? _ =>
      (head.bases.map fun base => .node (.type base)) ++
        .body ⟨opening?, members.map (·.range), closing?⟩ ::
          members.map fun member => .node (.member member)
  | namespaceDecl _ _ name opening? members closing? =>
      .node (.type name) :: .body ⟨opening?, members.map (·.range), closing?⟩ ::
        members.map fun member => .node (.member member)
  | usingDirective _ _ name _ => [.node (.type name)]
  | member => member.children.map .node

end Member

/-! ## Entries of nodes -/

namespace Node

def entries : Node → List Entry
  | member inner => inner.entries
  | type inner => inner.entries
  | stmt inner => inner.entries
  | expr inner => inner.entries

def bodies (node : Node) : List Body := node.entries.filterMap Entry.body?

theorem mem_bodies {node : Node} {body : Body} :
    body ∈ node.bodies ↔ .body body ∈ node.entries := by
  rw [bodies, List.mem_filterMap]
  refine ⟨?_, fun h => ⟨_, h, rfl⟩⟩
  rintro ⟨entry, hentry, hbody⟩
  cases entry with
  | body other =>
      cases hbody
      exact hentry
  | node | fault => cases hbody

def name? : Node → Option TypeSyntax
  | member (.usingDirective _ _ name _) => some name
  | member (.namespaceDecl _ _ name _ _ _) => some name
  | _ => none

end Node

section Children

theorem nodes_of_map {α : Type} (list : List α) (make : α → Node) :
    (list.map fun value => Entry.node (make value)).filterMap Entry.node? = list.map make := by
  rw [List.filterMap_map, ← List.filterMap_eq_map]
  rfl

theorem nodes_of_nodes (nodes : List Node) :
    (nodes.map Entry.node).filterMap Entry.node? = nodes := by
  simpa using nodes_of_map nodes id

theorem ElementType.nodes_of_entries (elements : List ElementType) :
    (elements.flatMap (·.entries)).filterMap Entry.node? =
      elements.map fun element => .type element.type := by
  have helement : ∀ element : ElementType,
      element.entries.filterMap Entry.node? = [.type element.type] := by
    intro element
    obtain ⟨range, readonly?, skippedRef?, type, name?⟩ := element
    cases skippedRef? <;> rfl
  rw [List.filterMap_flatMap, List.map_eq_flatMap]
  exact List.flatMap_congr fun element _ => helement element

theorem TypeSyntax.nodes_of_entries (type : TypeSyntax) :
    type.entries.filterMap Entry.node? = type.children.map .type := by
  cases type with
  | generic range name lt args gt? =>
      simp [entries, children, ElementType.nodes_of_entries]
  | tuple range opening elements closing? =>
      rw [entries, List.filterMap_append, ElementType.nodes_of_entries]
      split <;> simp [children]
  | _ => exact (nodes_of_map ..)

theorem Expr.nodes_of_entries (expr : Expr) :
    expr.entries.filterMap Entry.node? = expr.children := by
  cases expr with
  | genericName info name args => exact ElementType.nodes_of_entries args.args
  | memberAccess info receiver dot name? args? =>
      cases args? with
      | none => rfl
      | some args =>
          simp [entries, children, TypeArguments.entries, TypeArguments.nodes,
            ElementType.nodes_of_entries]
  | missing info => rfl
  | _ => exact nodes_of_nodes _

theorem Block.nodes_of_entries (block : Block) :
    block.entries.filterMap Entry.node? = block.stmts.map .stmt := by
  obtain ⟨range, opening, stmts, closing?⟩ := block
  exact nodes_of_map stmts .stmt

theorem Stmt.nodes_of_entries (stmt : Stmt) :
    stmt.entries.filterMap Entry.node? = stmt.children := by
  cases stmt with
  | block range body => exact body.nodes_of_entries
  | skipped range => rfl
  | _ => exact nodes_of_nodes _

theorem Parameter.nodes_of_entries (parameter : Parameter) :
    parameter.entries.filterMap Entry.node? = parameter.nodes := by
  obtain ⟨modifier?, type, name?, value?⟩ := parameter
  cases name? <;> cases value? <;> rfl

theorem ParameterList.nodes_of_entries (list : ParameterList) :
    list.entries.filterMap Entry.node? = list.nodes := by
  rw [entries, List.filterMap_flatMap]
  exact List.flatMap_congr fun parameter _ => parameter.nodes_of_entries

theorem MemberBody.nodes_of_entries (body : MemberBody) :
    body.entries.filterMap Entry.node? = body.nodes := by
  cases body with
  | block body => exact body.nodes_of_entries
  | _ => rfl

theorem PropertyBody.nodes_of_entries (body : PropertyBody) :
    body.entries.filterMap Entry.node? = body.nodes := by
  cases body with
  | accessors opening? list closing? =>
      rw [entries, List.filterMap_flatMap]
      exact List.flatMap_congr fun accessor _ => accessor.body.nodes_of_entries
  | arrow body => rfl

theorem Member.nodes_of_entries (member : Member) :
    member.entries.filterMap Entry.node? =
      (Node.member member).name?.toList.map .type ++ member.children := by
  cases member with
  | method | property | indexer | constructor | delegate =>
      simp [entries, children, Node.name?, ParameterList.nodes_of_entries,
        MemberBody.nodes_of_entries, PropertyBody.nodes_of_entries]
  | operator info type keyword op? params body =>
      cases op? <;>
        simp [entries, children, Node.name?, ParameterList.nodes_of_entries,
          MemberBody.nodes_of_entries]
  | typeDecl | namespaceDecl =>
      simp only [entries, children, Node.name?, List.filterMap_append, Entry.nodes_node,
        Entry.nodes_body, nodes_of_map]
      rfl
  | usingDirective => rfl
  | _ => exact nodes_of_nodes _

end Children

namespace Node

theorem nodes_of_entries (node : Node) :
    node.entries.filterMap Entry.node? = node.name?.toList.map .type ++ node.children := by
  cases node with
  | member inner => exact inner.nodes_of_entries
  | type inner => exact inner.nodes_of_entries
  | stmt inner => exact inner.nodes_of_entries
  | expr inner => exact inner.nodes_of_entries

theorem mem_entries_iff {node inner : Node} :
    .node inner ∈ node.entries ↔
      (∃ name, node.name? = some name ∧ inner = .type name) ∨ inner ∈ node.children := by
  have hmem : .node inner ∈ node.entries ↔ inner ∈ node.entries.filterMap Entry.node? := by
    rw [List.mem_filterMap]
    refine ⟨fun h => ⟨_, h, rfl⟩, ?_⟩
    rintro ⟨entry, hentry, hnode⟩
    cases entry with
    | node other =>
        cases hnode
        exact hentry
    | body | fault => cases hnode
  rw [hmem, nodes_of_entries, List.mem_append]
  simp [eq_comm]

theorem mem_entries_of_mem_children {node child : Node} (h : child ∈ node.children) :
    .node child ∈ node.entries := mem_entries_iff.mpr (.inr h)

theorem sizeOf_entry_lt {node inner : Node} (h : .node inner ∈ node.entries) :
    sizeOf inner < sizeOf node := by
  rcases mem_entries_iff.mp h with ⟨name, hname, rfl⟩ | hchild
  · cases node with
    | member member =>
        cases member with
        | usingDirective | namespaceDecl =>
            cases hname
            simp
            omega
        | _ => cases hname
    | _ => cases hname
  · exact sizeOf_child_lt hchild

/-- The faults of a node and of all nodes inside it. -/
def faults (node : Node) : List Fault :=
  node.entries.attach.flatMap fun
    | ⟨.node inner, _⟩ => inner.faults
    | ⟨.body _, _⟩ => []
    | ⟨.fault fault, _⟩ => [fault]
termination_by sizeOf node
decreasing_by exact sizeOf_entry_lt ‹_›

end Node

def Entry.faults : Entry → List Fault
  | node inner => inner.faults
  | body _ => []
  | fault inner => [inner]

theorem Node.faults_eq (node : Node) : node.faults = node.entries.flatMap Entry.faults := by
  have hattach : node.faults = node.entries.attach.flatMap fun entry => entry.1.faults := by
    rw [faults]
    refine List.flatMap_congr fun entry _ => ?_
    obtain ⟨entry, hmem⟩ := entry
    cases entry <;> rfl
  have hval : node.entries.attach.flatMap (fun entry => entry.1.faults) =
      (node.entries.attach.map Subtype.val).flatMap Entry.faults := by rw [List.flatMap_map]
  rw [hattach, hval, List.attach_map_subtype_val]

namespace CompilationUnit

def faults (unit : CompilationUnit) : List Fault :=
  unit.members.flatMap fun member => (Node.member member).faults

end CompilationUnit

/-- What holds of a node and of all nodes inside it. -/
inductive Node.Throughout (P : Node → Prop) : Node → Prop where
  | intro {node : Node} (here : P node)
      (below : ∀ inner, .node inner ∈ node.entries → Throughout P inner) : Throughout P node

theorem Node.Throughout.here {P : Node → Prop} {node : Node} (h : node.Throughout P) :
    P node := by
  cases h with
  | intro here below => exact here

theorem Node.Throughout.child {P : Node → Prop} {node child : Node} (h : node.Throughout P)
    (hmem : child ∈ node.children) : child.Throughout P := by
  cases h with
  | intro here below => exact below child (mem_entries_of_mem_children hmem)

end TolerantSyntax
