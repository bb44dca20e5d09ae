import TolerantSyntax.Tree.Node

/-!
# Children are smaller

A child of a node has a smaller size, so that a walk over a tree ends.
-/

namespace TolerantSyntax

theorem ElementType.sizeOf_type_lt (element : ElementType) :
    sizeOf element.type < sizeOf element := by
  cases element; simp [ElementType.type]; omega

theorem TypeSyntax.sizeOf_child_lt {type child : TypeSyntax} (h : child ∈ type.children) :
    sizeOf child < sizeOf type := by
  cases type with
  | generic | tuple =>
    obtain ⟨element, hm, rfl⟩ := List.mem_map.1 h
    have := List.sizeOf_lt_of_mem hm
    have := element.sizeOf_type_lt
    simp; omega
  | qualified =>
    simp only [children, List.mem_cons, List.not_mem_nil, or_false] at h
    rcases h with rfl | rfl <;> simp <;> omega
  | array | pointer | nullable | byRef =>
    rw [List.mem_singleton.1 h]
    simp only [array.sizeOf_spec, pointer.sizeOf_spec, nullable.sizeOf_spec, byRef.sizeOf_spec]
    omega
  | predefined | named | missing => simp [children] at h

namespace Node

theorem sizeOf_lt_typeArguments {args : TypeArguments} {node : Node} (h : node ∈ args.nodes) :
    sizeOf node < 1 + sizeOf args := by
  simp [TypeArguments.nodes] at h
  obtain ⟨e, he, rfl⟩ := h
  have := List.sizeOf_lt_of_mem he
  have := e.sizeOf_type_lt
  cases args; simp at *; omega

theorem sizeOf_lt_value (arg : Argument) : sizeOf arg.value < sizeOf arg := by
  cases arg
  simp only [Argument.value, Argument.mk.sizeOf_spec]
  omega

theorem sizeOf_lt_argumentList {list : ArgumentList} {node : Node} (h : node ∈ list.nodes) :
    sizeOf node < 1 + sizeOf list := by
  simp [ArgumentList.nodes] at h
  obtain ⟨e, he, rfl⟩ := h
  cases list
  have := List.sizeOf_lt_of_mem he
  have := sizeOf_lt_value e
  simp [ArgumentList.args] at *; omega

theorem sizeOf_lt_exprs {list : List Expr} {node : Node} (h : node ∈ list.map Node.expr) :
    sizeOf node < 1 + sizeOf list := by
  simp at h
  obtain ⟨e, he, rfl⟩ := h
  have := List.sizeOf_lt_of_mem he
  simp; omega

theorem sizeOf_lt_rank {rank : SizedRank} {node : Node} (h : node ∈ rank.nodes) :
    sizeOf node < 1 + sizeOf rank := by
  cases rank
  have := sizeOf_lt_exprs h
  simp [SizedRank.sizes] at *; omega

theorem sizeOf_lt_expr? {expr? : Option Expr} {node : Node}
    (h : node ∈ expr?.toList.map Node.expr) : sizeOf node < 1 + sizeOf expr? := by
  cases expr? with
  | none => simp at h
  | some e => simp at h; subst h; simp

theorem sizeOf_lt_flatMap {list : List α} [SizeOf α] {nodes : α → List Node} {node : Node}
    (hn : ∀ x, node ∈ nodes x → sizeOf node < 1 + sizeOf x) (h : node ∈ list.flatMap nodes) :
    sizeOf node < 1 + sizeOf list := by
  obtain ⟨x, hx, hm⟩ := List.mem_flatMap.1 h
  have := List.sizeOf_lt_of_mem hx
  have := hn x hm
  omega

theorem sizeOf_expr_child_lt {expr : Expr} {node : Node} (h : node ∈ expr.children) :
    sizeOf node < 1 + sizeOf expr := by
  cases expr with
  | newObject info kw type args? items? =>
    simp only [Expr.children, List.mem_cons, List.mem_append] at h
    rcases h with rfl | h | h
    · simp; omega
    · have : sizeOf node < 1 + sizeOf args? := by
        cases args? with
        | none => simp at h
        | some a =>
          have h : node ∈ a.nodes := by simpa using h
          have := sizeOf_lt_argumentList h; simp; omega
      simp; omega
    · have := sizeOf_lt_expr? h; simp; omega
  | newArray info kw type ranks items? =>
    simp only [Expr.children, List.mem_cons, List.mem_append] at h
    rcases h with rfl | h | h
    · simp; omega
    · have := sizeOf_lt_flatMap (fun _ => sizeOf_lt_rank) h; simp; omega
    · have := sizeOf_lt_expr? h; simp; omega
  | genericName info name args => have := sizeOf_lt_typeArguments h; simp; omega
  | invocation info callee args | elementAccess info callee args =>
    simp only [Expr.children, List.mem_cons] at h
    rcases h with rfl | h
    · simp; omega
    · have := sizeOf_lt_argumentList h; simp; omega
  | memberAccess info receiver dot name? args? =>
    cases args? with
    | none => simp [Expr.children] at h; subst h; simp; omega
    | some args =>
      simp only [Expr.children, List.mem_cons] at h
      rcases h with rfl | h
      · simp; omega
      · have := sizeOf_lt_typeArguments h; simp; omega
  | tuple info elements | arrayInitializer info elements => have := sizeOf_lt_exprs h; simp; omega
  | defaultValue info kw type? =>
    cases type? with
    | none => simp [Expr.children] at h
    | some t => simp [Expr.children] at h; subst h; simp; omega
  | conditional =>
    simp only [Expr.children, List.mem_cons, List.not_mem_nil, or_false] at h
    rcases h with rfl | rfl | rfl <;> simp <;> omega
  | binary | assign | isType | asType | cast =>
    simp only [Expr.children, List.mem_cons, List.not_mem_nil, or_false] at h
    rcases h with rfl | rfl <;> simp <;> omega
  | parenthesized | unary | step | refExpr | throwExpr | typeOf =>
    rw [List.mem_singleton.1 h]
    simp only [expr.sizeOf_spec, type.sizeOf_spec, Expr.parenthesized.sizeOf_spec,
      Expr.unary.sizeOf_spec, Expr.step.sizeOf_spec, Expr.refExpr.sizeOf_spec,
      Expr.throwExpr.sizeOf_spec, Expr.typeOf.sizeOf_spec]
    omega
  | literal | name | thisRef | baseRef | predefinedType | missing => simp [Expr.children] at h

theorem sizeOf_lt_declarator {d : Declarator} {node : Node} (h : node ∈ d.nodes) :
    sizeOf node < 1 + sizeOf d := by
  have := sizeOf_lt_expr? h
  cases d; simp at *; omega

theorem sizeOf_lt_stmts {list : List Stmt} {node : Node} (h : node ∈ list.map Node.stmt) :
    sizeOf node < 1 + sizeOf list := by
  simp at h
  obtain ⟨e, he, rfl⟩ := h
  have := List.sizeOf_lt_of_mem he
  simp; omega

theorem sizeOf_stmt_child_lt {stmt : Stmt} {node : Node} (h : node ∈ stmt.children) :
    sizeOf node < 1 + sizeOf stmt := by
  cases stmt with
  | block range body =>
    cases body
    have := sizeOf_lt_stmts h
    simp [Block.stmts] at *; omega
  | declaration r d =>
    simp only [Stmt.children, List.mem_cons] at h
    cases d
    rcases h with rfl | h
    · simp; omega
    · have := sizeOf_lt_flatMap (fun _ => sizeOf_lt_declarator) h; simp at *; omega
  | returnStmt | throwStmt => have := sizeOf_lt_expr? h; simp; omega
  | ifElse r kw c a b? =>
    cases b? <;> simp [Stmt.children] at h <;> rcases h with rfl | rfl | rfl <;> simp <;> omega
  | whileLoop =>
    simp only [Stmt.children, List.mem_cons, List.not_mem_nil, or_false] at h
    rcases h with rfl | rfl <;> simp <;> omega
  | expression =>
    rw [List.mem_singleton.1 h]
    simp; omega
  | empty | skipped => simp [Stmt.children] at h

theorem sizeOf_lt_parameter {p : Parameter} {node : Node} (h : node ∈ p.nodes) :
    sizeOf node < 1 + sizeOf p := by
  cases p
  simp only [Parameter.nodes, List.mem_cons] at h
  rcases h with rfl | h
  · simp; omega
  · have := sizeOf_lt_expr? h; simp; omega

theorem sizeOf_lt_parameterList {p : ParameterList} {node : Node} (h : node ∈ p.nodes) :
    sizeOf node < 1 + sizeOf p := by
  cases p
  have := sizeOf_lt_flatMap (fun _ => sizeOf_lt_parameter) h
  simp at *; omega

theorem sizeOf_lt_memberBody {b : MemberBody} {node : Node} (h : node ∈ b.nodes) :
    sizeOf node < 1 + sizeOf b := by
  cases b with
  | block b =>
    cases b
    have := sizeOf_lt_stmts h
    simp [Block.stmts] at *; omega
  | arrow a => cases a; simp [MemberBody.nodes] at h; subst h; simp; omega
  | semicolon => simp [MemberBody.nodes] at h

theorem sizeOf_lt_accessor {a : Accessor} {node : Node} (h : node ∈ a.body.nodes) :
    sizeOf node < 1 + sizeOf a := by
  cases a
  have := sizeOf_lt_memberBody h
  simp at *; omega

theorem sizeOf_lt_propertyBody {b : PropertyBody} {node : Node} (h : node ∈ b.nodes) :
    sizeOf node < 1 + sizeOf b := by
  cases b with
  | accessors opening? list closing? =>
    have := sizeOf_lt_flatMap (fun _ => sizeOf_lt_accessor) h
    simp at *; omega
  | arrow a => cases a; simp [PropertyBody.nodes] at h; subst h; simp; omega

theorem sizeOf_lt_types {list : List TypeSyntax} {node : Node} (h : node ∈ list.map Node.type) :
    sizeOf node < 1 + sizeOf list := by
  simp at h
  obtain ⟨e, he, rfl⟩ := h
  have := List.sizeOf_lt_of_mem he
  simp; omega

theorem sizeOf_lt_members {list : List Member} {node : Node} (h : node ∈ list.map Node.member) :
    sizeOf node < 1 + sizeOf list := by
  simp at h
  obtain ⟨e, he, rfl⟩ := h
  have := List.sizeOf_lt_of_mem he
  simp; omega

theorem sizeOf_member_child_lt {member : Member} {node : Node} (h : node ∈ member.children) :
    sizeOf node < 1 + sizeOf member := by
  cases member with
  | field info type ds semi =>
    simp only [Member.children, List.mem_cons] at h
    rcases h with rfl | h
    · simp; omega
    · have := sizeOf_lt_flatMap (fun _ => sizeOf_lt_declarator) h; simp; omega
  | method | operator =>
    simp only [Member.children, List.mem_cons, List.mem_append] at h
    rcases h with rfl | h | h
    · simp; omega
    · have := sizeOf_lt_parameterList h; simp; omega
    · have := sizeOf_lt_memberBody h; simp; omega
  | property =>
    simp only [Member.children, List.mem_cons] at h
    rcases h with rfl | h
    · simp; omega
    · have := sizeOf_lt_propertyBody h; simp; omega
  | indexer =>
    simp only [Member.children, List.mem_cons, List.mem_append] at h
    rcases h with rfl | h | h
    · simp; omega
    · have := sizeOf_lt_parameterList h; simp; omega
    · have := sizeOf_lt_propertyBody h; simp; omega
  | constructor =>
    simp only [Member.children, List.mem_append] at h
    rcases h with h | h
    · have := sizeOf_lt_parameterList h; simp; omega
    · have := sizeOf_lt_memberBody h; simp; omega
  | delegate =>
    simp only [Member.children, List.mem_cons] at h
    rcases h with rfl | h
    · simp; omega
    · have := sizeOf_lt_parameterList h; simp; omega
  | typeDecl info head =>
    simp only [Member.children, List.mem_append] at h
    cases head
    rcases h with h | h
    · have := sizeOf_lt_types h; simp at *; omega
    · have := sizeOf_lt_members h; simp; omega
  | namespaceDecl => have := sizeOf_lt_members h; simp; omega
  | incomplete info type? =>
    cases type? with
    | none => simp [Member.children] at h
    | some t => simp [Member.children] at h; subst h; simp; omega
  | usingDirective | skipped => simp [Member.children] at h

theorem sizeOf_child_lt {node child : Node} (h : child ∈ node.children) :
    sizeOf child < sizeOf node := by
  cases node with
  | member m => have := sizeOf_member_child_lt h; simpa using this
  | type t =>
    simp [children] at h
    obtain ⟨c, hc, rfl⟩ := h
    have := TypeSyntax.sizeOf_child_lt hc
    simpa using this
  | stmt s => have := sizeOf_stmt_child_lt h; simpa using this
  | expr e => have := sizeOf_expr_child_lt h; simpa using this

end Node
end TolerantSyntax
