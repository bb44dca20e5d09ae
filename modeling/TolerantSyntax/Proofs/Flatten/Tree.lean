import TolerantSyntax.Proofs.Flatten.Piece
import TolerantSyntax.Tree.Node

/-!
# The pieces of a tree

Every node lists its pieces in the order of the text.  A required token that is absent, a
missing type or expression and a skipped token leave an artefact, so that a tree without
artefacts is one that the grammar gives without recovery.
-/

namespace TolerantSyntax

def RefQualifier.pieces (qualifier : RefQualifier) : List Piece :=
  Piece.optional qualifier.readonly? ++ [.token qualifier.ref]

def ArrayRank.pieces (rank : ArrayRank) : List Piece :=
  .token rank.opening ::
    (List.replicate (rank.dimensions - 1) (.symbol .comma) ++ Piece.required rank.closing?)

def skippedPieces (ref? : Option Nat) : List Piece :=
  ref?.toList.flatMap fun ref => [.token ref, .artefact .skippedRef]

mutual

def TypeSyntax.pieces : TypeSyntax → List Piece
  | .predefined _ keyword => [.token keyword]
  | .named _ name => [.token name]
  | .generic _ name lt args gt? =>
      .token name :: .token lt :: (Piece.joined (elementPieces args) ++ Piece.required gt?)
  | .qualified _ left dot right => left.pieces ++ .token dot :: right.pieces
  | .array _ element ranks => element.pieces ++ ranks.flatMap (·.pieces)
  | .pointer _ inner star => inner.pieces ++ [.token star]
  | .nullable _ inner question => inner.pieces ++ [.token question]
  | .tuple _ opening elements closing? =>
      .token opening :: (Piece.joined (elementPieces elements) ++ Piece.required closing? ++
        if elements.length < 2 then [.artefact .shortTuple] else [])
  | .byRef _ qualifier inner => qualifier.pieces ++ inner.pieces
  | .missing _ => [.artefact .missingType]

def ElementType.pieces : ElementType → List Piece
  | .mk _ readonly? skippedRef? type name? =>
      Piece.optional readonly? ++ skippedPieces skippedRef? ++ type.pieces ++
        Piece.optional name?

def elementPieces : List ElementType → List (List Piece)
  | [] => []
  | element :: rest => element.pieces :: elementPieces rest

end

theorem elementPieces_eq (elements : List ElementType) :
    elementPieces elements = elements.map (·.pieces) := by
  induction elements with
  | nil => rfl
  | cons element rest ih => rw [elementPieces, ih, List.map_cons]

def TypeArguments.pieces (args : TypeArguments) : List Piece :=
  .token args.lt :: (Piece.joined (args.args.map (·.pieces)) ++ Piece.required args.gt?)

def UnaryOp.symbol : UnaryOp → TokenKind
  | plus => .plus
  | neg => .minus
  | not => .bang
  | bitNot => .tilde
  | preIncrement => .plusPlus
  | preDecrement => .minusMinus
  | deref => .star
  | addressOf => .amp

def StepOp.symbol : StepOp → TokenKind
  | increment => .plusPlus
  | decrement => .minusMinus

def AssignOp.symbol : AssignOp → TokenKind
  | assign => .eq
  | add => .plusEq
  | sub => .minusEq
  | mul => .starEq
  | div => .slashEq
  | rem => .percentEq
  | bitAnd => .ampEq
  | bitOr => .pipeEq
  | bitXor => .caretEq
  | shl => .ltLtEq

def BinaryOp.symbols : BinaryOp → List TokenKind
  | add => [.plus]
  | sub => [.minus]
  | mul => [.star]
  | div => [.slash]
  | rem => [.percent]
  | shl => [.ltLt]
  | shr => [.gt, .gt]
  | lt => [.lt]
  | ltEq => [.ltEq]
  | gt => [.gt]
  | gtEq => [.gtEq]
  | eq => [.eqEq]
  | notEq => [.bangEq]
  | bitAnd => [.amp]
  | bitXor => [.caret]
  | bitOr => [.pipe]
  | and => [.ampAmp]
  | or => [.pipePipe]
  | coalesce => [.questionQuestion]

/-! ## Expressions -/

mutual

def Expr.pieces : Expr → List Piece
  | .literal _ token | .name _ token | .thisRef _ token | .baseRef _ token
  | .predefinedType _ token => [.token token]
  | .genericName _ name args => .token name :: args.pieces
  | .parenthesized _ inner => .symbol .lParen :: (inner.pieces ++ [.symbol .rParen])
  | .tuple _ elements =>
      .symbol .lParen :: (Piece.joined (exprPieces elements) ++ [.symbol .rParen])
  | .memberAccess _ receiver dot name? args? =>
      receiver.pieces ++
        .token dot :: (Piece.required name? ++ args?.toList.flatMap (·.pieces))
  | .invocation _ callee args => callee.pieces ++ args.pieces
  | .elementAccess _ receiver args => receiver.pieces ++ args.pieces
  | .unary _ op operand => .symbol op.symbol :: operand.pieces
  | .step _ op operand => operand.pieces ++ [.symbol op.symbol]
  | .binary _ op left right => left.pieces ++ op.symbols.map .symbol ++ right.pieces
  | .assign _ op target value => target.pieces ++ .symbol op.symbol :: value.pieces
  | .conditional _ condition whenTrue whenFalse =>
      condition.pieces ++
        .symbol .question :: (whenTrue.pieces ++ .symbol .colon :: whenFalse.pieces)
  | .isType _ operand type => operand.pieces ++ .symbol .isKw :: type.pieces
  | .asType _ operand type => operand.pieces ++ .symbol .asKw :: type.pieces
  | .cast _ type operand =>
      .symbol .lParen :: (type.pieces ++ .symbol .rParen :: operand.pieces)
  | .newObject _ keyword type args? items? =>
      .token keyword :: (type.pieces ++ argumentListPieces? args? ++ exprPieces? items? ++
        if args?.isNone && items?.isNone then [.artefact .absentToken] else [])
  | .newArray _ keyword element ranks items? =>
      .token keyword :: (element.pieces ++ rankPieces ranks ++ exprPieces? items? ++
        if ranks.all (·.sizes.isEmpty) && items?.isNone then [.artefact .absentToken] else [])
  | .arrayInitializer _ elements =>
      .symbol .lBrace :: (Piece.listed (exprPieces elements) ++ [.symbol .rBrace])
  | .defaultValue _ keyword type? =>
      .token keyword :: type?.toList.flatMap fun type =>
        .symbol .lParen :: (type.pieces ++ [.symbol .rParen])
  | .typeOf _ keyword type =>
      .token keyword :: .symbol .lParen :: (type.pieces ++ [.symbol .rParen])
  | .refExpr _ keyword operand | .throwExpr _ keyword operand =>
      .token keyword :: operand.pieces
  | .missing _ => [.artefact .missingExpr]

def Argument.pieces : Argument → List Piece
  | .mk modifier? value => Piece.optional modifier? ++ value.pieces

def ArgumentList.pieces : ArgumentList → List Piece
  | .mk opening args closing? =>
      .token opening :: (Piece.joined (argumentPieces args) ++ Piece.required closing?)

def SizedRank.pieces : SizedRank → List Piece
  | .mk opening dimensions sizes closing? =>
      .token opening ::
        ((if sizes.isEmpty then List.replicate (dimensions - 1) (.symbol .comma)
          else Piece.joined (exprPieces sizes)) ++ Piece.required closing?)

def exprPieces : List Expr → List (List Piece)
  | [] => []
  | expr :: rest => expr.pieces :: exprPieces rest

def exprPieces? : Option Expr → List Piece
  | none => []
  | some expr => expr.pieces

def argumentPieces : List Argument → List (List Piece)
  | [] => []
  | arg :: rest => arg.pieces :: argumentPieces rest

def argumentListPieces? : Option ArgumentList → List Piece
  | none => []
  | some list => list.pieces

def rankPieces : List SizedRank → List Piece
  | [] => []
  | rank :: rest => rank.pieces ++ rankPieces rest

end

theorem exprPieces_eq (exprs : List Expr) : exprPieces exprs = exprs.map (·.pieces) := by
  induction exprs with
  | nil => rfl
  | cons expr rest ih => rw [exprPieces, ih, List.map_cons]

theorem argumentPieces_eq (args : List Argument) :
    argumentPieces args = args.map (·.pieces) := by
  induction args with
  | nil => rfl
  | cons arg rest ih => rw [argumentPieces, ih, List.map_cons]

theorem rankPieces_eq (ranks : List SizedRank) :
    rankPieces ranks = ranks.flatMap (·.pieces) := by
  induction ranks with
  | nil => rfl
  | cons rank rest ih => rw [rankPieces, ih, List.flatMap_cons]

/-! ## Statements and members -/

def ModifierSet.pieces (set : ModifierSet) : List Piece :=
  set.entries.map fun entry => .token entry.token

def Declarator.pieces (declarator : Declarator) : List Piece :=
  Piece.required declarator.name? ++ Piece.optional declarator.eq? ++
    declarator.value?.toList.flatMap (·.pieces)

def LocalDeclaration.pieces (decl : LocalDeclaration) : List Piece :=
  decl.modifiers.pieces ++ decl.type.pieces ++
    Piece.joined (decl.declarators.map (·.pieces)) ++ Piece.required decl.semicolon?

mutual

def Stmt.pieces : Stmt → List Piece
  | .block _ block => block.pieces
  | .declaration _ decl => decl.pieces
  | .expression _ expr semicolon? => expr.pieces ++ Piece.required semicolon?
  | .returnStmt _ keyword ref? value? semicolon? =>
      .token keyword :: (Piece.optional ref? ++ value?.toList.flatMap (·.pieces) ++
        Piece.required semicolon?)
  | .throwStmt _ keyword value? semicolon? =>
      .token keyword :: (value?.toList.flatMap (·.pieces) ++ Piece.required semicolon?)
  | .ifElse _ keyword condition whenTrue whenFalse? =>
      .token keyword :: .symbol .lParen :: (condition.pieces ++
        .symbol .rParen :: (whenTrue.pieces ++ elsePieces whenFalse?))
  | .whileLoop _ keyword condition body =>
      .token keyword :: .symbol .lParen :: (condition.pieces ++
        .symbol .rParen :: body.pieces)
  | .empty _ semicolon => [.token semicolon]
  | .skipped _ => [.artefact .skippedStmt]

def Block.pieces : Block → List Piece
  | .mk _ opening stmts closing? =>
      .token opening :: (stmtPieces stmts ++ Piece.required closing?)

def stmtPieces : List Stmt → List Piece
  | [] => []
  | stmt :: rest => stmt.pieces ++ stmtPieces rest

def elsePieces : Option Stmt → List Piece
  | none => []
  | some stmt => .symbol .elseKw :: stmt.pieces

end

theorem stmtPieces_eq (stmts : List Stmt) : stmtPieces stmts = stmts.flatMap (·.pieces) := by
  induction stmts with
  | nil => rfl
  | cons stmt rest ih => rw [stmtPieces, ih, List.flatMap_cons]

def TypeParameterList.pieces (list : TypeParameterList) : List Piece :=
  .token list.lt :: (Piece.joined (list.params.map fun param => [.token param]) ++
    Piece.required list.gt?)

def Parameter.pieces (parameter : Parameter) : List Piece :=
  Piece.optional parameter.modifier? ++ parameter.type.pieces ++
    Piece.required parameter.name? ++
    parameter.value?.toList.flatMap fun value => .symbol .eq :: value.pieces

def ParameterList.pieces (list : ParameterList) : List Piece :=
  Piece.required list.opening? ++ Piece.joined (list.params.map (·.pieces)) ++
    Piece.required list.closing?

def ArrowBody.pieces (body : ArrowBody) : List Piece :=
  .token body.arrow :: (body.expr.pieces ++ Piece.required body.semicolon?)

def MemberBody.pieces : MemberBody → List Piece
  | block body => body.pieces
  | arrow body => body.pieces
  | semicolon semicolon? => Piece.required semicolon?

def Accessor.pieces (accessor : Accessor) : List Piece :=
  accessor.modifiers.pieces ++ .token accessor.keyword :: accessor.body.pieces

def PropertyBody.pieces : PropertyBody → List Piece
  | accessors opening? list closing? =>
      Piece.required opening? ++ list.flatMap (·.pieces) ++ Piece.required closing?
  | arrow body => body.pieces

def basePieces : List TypeSyntax → List Piece
  | [] => []
  | bases => .symbol .colon :: Piece.joined (bases.map (·.pieces))

def TypeHead.pieces (head : TypeHead) : List Piece :=
  .token head.keyword :: (Piece.required head.name? ++
    head.typeParams?.toList.flatMap (·.pieces) ++ basePieces head.bases)

def operatorPieces (type : TypeSyntax) (keyword : Nat) (op? : Option TokenRange) : List Piece :=
  match op? with
  | none => type.pieces ++ [.token keyword, .artefact .absentToken]
  | some op =>
      if op.start < keyword then op.indices.map .token ++ .token keyword :: type.pieces
      else type.pieces ++ .token keyword :: op.indices.map .token

mutual

def Member.pieces : Member → List Piece
  | .field info type declarators semicolon? =>
      info.modifiers.pieces ++ type.pieces ++ Piece.joined (declarators.map (·.pieces)) ++
        Piece.required semicolon?
  | .method info type name typeParams? params body =>
      info.modifiers.pieces ++ type.pieces ++
        .token name :: (typeParams?.toList.flatMap (·.pieces) ++ params.pieces ++ body.pieces)
  | .property info type name body =>
      info.modifiers.pieces ++ type.pieces ++ .token name :: body.pieces
  | .indexer info type this params body =>
      info.modifiers.pieces ++ type.pieces ++ .token this :: (params.pieces ++ body.pieces)
  | .operator info type keyword op? params body =>
      info.modifiers.pieces ++ operatorPieces type keyword op? ++ params.pieces ++ body.pieces
  | .constructor info name params body =>
      info.modifiers.pieces ++ .token name :: (params.pieces ++ body.pieces)
  | .delegate info keyword type name? typeParams? params semicolon? =>
      info.modifiers.pieces ++
        .token keyword :: (type.pieces ++ Piece.required name? ++
          typeParams?.toList.flatMap (·.pieces) ++ params.pieces ++ Piece.required semicolon?)
  | .typeDecl info head opening? members closing? semicolon? =>
      info.modifiers.pieces ++ head.pieces ++ Piece.required opening? ++
        memberPieces members ++ Piece.required closing? ++ Piece.optional semicolon?
  | .namespaceDecl info keyword name opening? members closing? =>
      info.modifiers.pieces ++
        .token keyword :: (name.pieces ++ Piece.required opening? ++ memberPieces members ++
          Piece.required closing?)
  | .usingDirective info keyword name semicolon? =>
      info.modifiers.pieces ++
        .token keyword :: (name.pieces ++ Piece.required semicolon?)
  | .incomplete _ _ => [.artefact .incompleteMember]
  | .skipped _ => [.artefact .skippedMember]

def memberPieces : List Member → List Piece
  | [] => []
  | member :: rest => member.pieces ++ memberPieces rest

end

theorem memberPieces_eq (members : List Member) :
    memberPieces members = members.flatMap (·.pieces) := by
  induction members with
  | nil => rfl
  | cons member rest ih => rw [memberPieces, ih, List.flatMap_cons]

theorem Piece.exists_mem_required (token? : Option Nat) :
    ∃ piece ∈ Piece.required token?, piece ≠ .trailingComma := by
  cases token? with
  | none => exact ⟨_, List.mem_singleton_self _, nofun⟩
  | some token => exact ⟨_, List.mem_singleton_self _, nofun⟩

/-- A member is more than a comma that need not be there. -/
theorem Member.exists_mem_pieces (member : Member) :
    ∃ piece ∈ member.pieces, piece ≠ .trailingComma := by
  cases member with
  | field info type declarators semicolon? =>
      obtain ⟨piece, hmem, hpiece⟩ := Piece.exists_mem_required semicolon?
      exact ⟨piece, List.mem_append_right _ hmem, hpiece⟩
  | method info type name => exact ⟨.token name, by simp [Member.pieces], nofun⟩
  | property info type name => exact ⟨.token name, by simp [Member.pieces], nofun⟩
  | indexer info type this => exact ⟨.token this, by simp [Member.pieces], nofun⟩
  | operator info type keyword op? =>
      refine ⟨.token keyword, ?_, nofun⟩
      have hmem : .token keyword ∈ operatorPieces type keyword op? := by
        unfold operatorPieces
        split
        · simp
        · split <;> simp
      simp [Member.pieces, hmem]
  | constructor info name => exact ⟨.token name, by simp [Member.pieces], nofun⟩
  | delegate info keyword => exact ⟨.token keyword, by simp [Member.pieces], nofun⟩
  | typeDecl info head =>
      exact ⟨.token head.keyword, by simp [Member.pieces, TypeHead.pieces], nofun⟩
  | namespaceDecl info keyword => exact ⟨.token keyword, by simp [Member.pieces], nofun⟩
  | usingDirective info keyword => exact ⟨.token keyword, by simp [Member.pieces], nofun⟩
  | incomplete info type? => exact ⟨_, List.mem_singleton_self _, nofun⟩
  | skipped info => exact ⟨_, List.mem_singleton_self _, nofun⟩

def CompilationUnit.pieces (unit : CompilationUnit) : List Piece :=
  unit.members.flatMap (·.pieces)

end TolerantSyntax
