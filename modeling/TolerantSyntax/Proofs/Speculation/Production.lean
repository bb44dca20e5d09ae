import TolerantSyntax.Proofs.Fidelity
import TolerantSyntax.Proofs.Speculation.Member

/-!
# Trying leaves no trace

Every production of the grammar is a script.  So, carried out in place, it only adds
diagnostics and expressions, gives the context back and goes forward, at most to the end of
file.  An attempt that is given up can therefore be taken back by cutting off what was added,
also where attempts are inside attempts.
-/

namespace TolerantSyntax

open Parse

/-- The productions by what they give.  A number is the nesting that is left for what is
inside. -/
inductive Production : Type → Type where
  | refQualifier? : Production (Option RefQualifier)
  | elementType (nesting : Nat) (named : Bool) : Production ElementType
  | typeArguments (nesting : Nat) : Production TypeArguments
  | tupleType (nesting : Nat) : Production TypeSyntax
  | simpleName (nesting : Nat) : Production TypeSyntax
  | segment? (nesting start : Nat) (left : TypeSyntax) : Production (Option TypeSyntax)
  | qualifiedName (nesting : Nat) : Production TypeSyntax
  | arrayRank : Production ArrayRank
  | typeSuffix? (start : Nat) (type : TypeSyntax) : Production (Option TypeSyntax)
  | typeWithin (nesting : Nat) : Production TypeSyntax
  | type : Production TypeSyntax
  | qualifiedType (qualifier? : Option RefQualifier) : Production TypeSyntax
  | confirmedArguments : Production (Option TypeArguments)
  | typeArguments? : Production (Option TypeArguments)
  | argument (nesting : Nat) : Production Argument
  | argumentList (nesting : Nat) (closing : TokenKind) : Production ArgumentList
  | initializerElement (nesting : Nat) : Production Expr
  | arrayInitializer (nesting : Nat) : Production Expr
  | parenthesized (nesting : Nat) : Production Expr
  | sizedRank (nesting : Nat) : Production SizedRank
  | creation (nesting : Nat) : Production Expr
  | defaultValue : Production Expr
  | typeOf : Production Expr
  | throwExpr (nesting : Nat) : Production Expr
  | name : Production Expr
  | single (make : ExprInfo → Nat → Expr) : Production Expr
  | missingExpr : Production Expr
  | primary (nesting : Nat) : Production Expr
  | exprSuffix? (nesting start : Nat) (expr : Expr) : Production (Option Expr)
  | suffixed (nesting : Nat) : Production Expr
  | castExpr (nesting : Nat) : Production (Option Expr)
  | unary (nesting : Nat) : Production Expr
  | infixStep? (nesting start least : Nat) (left : Expr) : Production (Option Expr)
  | binary (nesting least : Nat) : Production Expr
  | conditional (nesting : Nat) : Production Expr
  | assignment (nesting : Nat) : Production Expr
  | exprWithin (nesting : Nat) (level : ExprLevel) : Production Expr
  | exprAt (level : ExprLevel) : Production Expr
  | variableValue : Production Expr
  | declarator : Production Declarator
  | declarators : Production (List Declarator)
  | localDeclaration : Production LocalDeclaration
  | typeAndName : Production Bool
  | startsDeclaration : Production Bool
  | blockOf (nesting : Nat) : Production Block
  | returned? : Production (Option Expr)
  | condition : Production Expr
  | returnStmt : Production Stmt
  | throwStmt : Production Stmt
  | ifElse (nesting : Nat) : Production Stmt
  | whileLoop (nesting : Nat) : Production Stmt
  | declarationStmt : Production Stmt
  | expressionStmt : Production Stmt
  | skippedStmt : Production Stmt
  | stmtWithin (nesting : Nat) : Production Stmt
  | stmt : Production Stmt
  | block : Production Block
  | memberHead : Production MemberHead
  | typeParameters? : Production (Option TypeParameterList)
  | parameter : Production Parameter
  | parametersWithin (count : Nat) : Production (List Parameter)
  | parameterList (opening closing : TokenKind) : Production ParameterList
  | arrowBody : Production ArrowBody
  | memberBody : Production MemberBody
  | accessor? : Production (Option Accessor)
  | propertyBody : Production PropertyBody
  | declaredOperator? : Production (Option TokenRange)
  | fieldDecl (head : MemberHead) (type : TypeSyntax) : Production Member
  | methodDecl (head : MemberHead) (type : TypeSyntax) : Production Member
  | propertyDecl (head : MemberHead) (type : TypeSyntax) : Production Member
  | indexerDecl (head : MemberHead) (type : TypeSyntax) : Production Member
  | operatorDecl (head : MemberHead) (type : TypeSyntax) : Production Member
  | abandoned (head : MemberHead) (type : TypeSyntax) : Production Member
  | typedMember (head : MemberHead) : Production Member
  | conversionDecl (head : MemberHead) : Production Member
  | constructorDecl (head : MemberHead) : Production Member
  | delegateDecl (head : MemberHead) : Production Member
  | clauseType : Production TypeSyntax
  | baseTypes : Production (List TypeSyntax)
  | typeDecl (nesting : Nat) (head : MemberHead) (kind : TypeDeclKind) : Production Member
  | namespaceDecl (nesting : Nat) (head : MemberHead) : Production Member
  | usingDirective (head : MemberHead) : Production Member
  | declaredMember (nesting : Nat) (head : MemberHead) : Production Member
  | member (nesting : Nat) : Production Member
  | skippedMember : Production Member
  | someMember (nesting : Nat) : Production Member
  | membersWithin (nesting : Nat) : Production (List Member)
  | members : Production (List Member)
  | compilationUnit : Production CompilationUnit

namespace Production

def parse : {α : Type} → Production α → ParseContext → Parse α
  | _, refQualifier?, _ => Parse.refQualifier?
  | _, elementType n named, _ => Parse.elementType (Parse.typeWithin n) named
  | _, typeArguments n, _ => Parse.typeArguments (Parse.typeWithin n)
  | _, tupleType n, _ => Parse.tupleType (Parse.typeWithin n)
  | _, simpleName n, _ => Parse.simpleName (Parse.typeWithin n)
  | _, segment? n start left, _ => Parse.segment? (Parse.typeWithin n) start left
  | _, qualifiedName n, _ => Parse.qualifiedName (Parse.typeWithin n)
  | _, arrayRank, _ => Parse.arrayRank
  | _, typeSuffix? start inner, _ => Parse.typeSuffix? start inner
  | _, typeWithin n, _ => Parse.typeWithin n
  | _, type, _ => Parse.type
  | _, qualifiedType qualifier?, _ => Parse.qualifiedType qualifier?
  | _, confirmedArguments, _ => Parse.confirmedArguments
  | _, typeArguments?, _ => Parse.typeArguments?
  | _, argument n, _ => Parse.argument (Parse.exprWithin n)
  | _, argumentList n closing, _ => Parse.argumentList (Parse.exprWithin n) closing
  | _, initializerElement n, _ => Parse.initializerElement (Parse.exprWithin n)
  | _, arrayInitializer n, _ => Parse.arrayInitializer (Parse.exprWithin n)
  | _, parenthesized n, _ => Parse.parenthesized (Parse.exprWithin n)
  | _, sizedRank n, _ => Parse.sizedRank (Parse.exprWithin n)
  | _, creation n, _ => Parse.creation (Parse.exprWithin n)
  | _, defaultValue, _ => Parse.defaultValue
  | _, typeOf, _ => Parse.typeOf
  | _, throwExpr n, _ => Parse.throwExpr (Parse.exprWithin n)
  | _, name, _ => Parse.name
  | _, single make, _ => Parse.single make
  | _, missingExpr, _ => Parse.missingExpr
  | _, primary n, _ => Parse.primary (Parse.exprWithin n)
  | _, exprSuffix? n start expr, _ => Parse.exprSuffix? (Parse.exprWithin n) start expr
  | _, suffixed n, _ => Parse.suffixed (Parse.exprWithin n)
  | _, castExpr n, _ => Parse.castExpr (Parse.exprWithin n)
  | _, unary n, _ => Parse.unary (Parse.exprWithin n)
  | _, infixStep? n start least left, _ => Parse.infixStep? (Parse.exprWithin n) start least left
  | _, binary n least, _ => Parse.binary (Parse.exprWithin n) least
  | _, conditional n, _ => Parse.conditional (Parse.exprWithin n)
  | _, assignment n, _ => Parse.assignment (Parse.exprWithin n)
  | _, exprWithin n level, _ => Parse.exprWithin n level
  | _, exprAt level, _ => Parse.exprAt level
  | _, variableValue, _ => Parse.variableValue
  | _, declarator, _ => Parse.declarator
  | _, declarators, _ => Parse.declarators
  | _, localDeclaration, _ => Parse.localDeclaration
  | _, typeAndName, _ => Parse.typeAndName
  | _, startsDeclaration, _ => Parse.startsDeclaration
  | _, blockOf n, _ => Parse.blockOf (Parse.stmtWithin n)
  | _, returned?, _ => Parse.returned?
  | _, condition, _ => Parse.condition
  | _, returnStmt, _ => Parse.returnStmt
  | _, throwStmt, _ => Parse.throwStmt
  | _, ifElse n, _ => Parse.ifElse (Parse.stmtWithin n)
  | _, whileLoop n, _ => Parse.whileLoop (Parse.stmtWithin n)
  | _, declarationStmt, _ => Parse.declarationStmt
  | _, expressionStmt, _ => Parse.expressionStmt
  | _, skippedStmt, _ => Parse.skippedStmt
  | _, stmtWithin n, _ => Parse.stmtWithin n
  | _, stmt, _ => Parse.stmt
  | _, block, _ => Parse.block
  | _, memberHead, _ => Parse.memberHead
  | _, typeParameters?, _ => Parse.typeParameters?
  | _, parameter, _ => Parse.parameter
  | _, parametersWithin n, _ => Parse.parametersWithin n
  | _, parameterList opening closing, _ => Parse.parameterList opening closing
  | _, arrowBody, _ => Parse.arrowBody
  | _, memberBody, _ => Parse.memberBody
  | _, accessor?, _ => Parse.accessor?
  | _, propertyBody, _ => Parse.propertyBody
  | _, declaredOperator?, _ => Parse.declaredOperator?
  | _, fieldDecl head inner, _ => Parse.fieldDecl head inner
  | _, methodDecl head inner, _ => Parse.methodDecl head inner
  | _, propertyDecl head inner, _ => Parse.propertyDecl head inner
  | _, indexerDecl head inner, _ => Parse.indexerDecl head inner
  | _, operatorDecl head inner, _ => Parse.operatorDecl head inner
  | _, abandoned head inner, _ => Parse.abandoned head inner
  | _, typedMember head, _ => Parse.typedMember head
  | _, conversionDecl head, _ => Parse.conversionDecl head
  | _, constructorDecl head, _ => Parse.constructorDecl head
  | _, delegateDecl head, _ => Parse.delegateDecl head
  | _, clauseType, _ => Parse.clauseType
  | _, baseTypes, _ => Parse.baseTypes
  | _, typeDecl n head kind, context =>
      Parse.typeDecl (Parse.membersWithin n context.enterType) head kind
  | _, namespaceDecl n head, context =>
      Parse.namespaceDecl (Parse.membersWithin n context.enterNamespace) head
  | _, usingDirective head, _ => Parse.usingDirective head
  | _, declaredMember n head, context => Parse.declaredMember (Parse.membersWithin n) context head
  | _, member n, context => Parse.member (Parse.membersWithin n) context
  | _, skippedMember, context => Parse.skippedMember context
  | _, someMember n, context => Parse.someMember (Parse.membersWithin n) context
  | _, membersWithin n, context => Parse.membersWithin n context
  | _, members, context => Parse.members context
  | _, compilationUnit, context => do
      let members ← Parse.members context
      return ⟨members, ← position⟩

theorem compilationUnit_parse : compilationUnit.parse .none = Parse.compilationUnit := rfl

theorem scripted {α : Type} (production : Production α) : Scripted production.parse := by
  have htype := Scripted.typeWithin
  have hexpr := Scripted.exprWithin
  have hstmt := Scripted.stmtWithin
  have hmembers := Scripted.membersWithin
  cases production with
  | refQualifier? => exact .refQualifier?
  | elementType n named => exact .elementType (htype n) named
  | typeArguments n => exact .typeArguments (htype n)
  | tupleType n => exact .tupleType (htype n)
  | simpleName n => exact .simpleName (htype n)
  | segment? n start left => exact .segment? (htype n) start left
  | qualifiedName n => exact .qualifiedName (htype n)
  | arrayRank => exact .arrayRank
  | typeSuffix? start type => exact .typeSuffix? start type
  | typeWithin n => exact htype n
  | type => exact .type
  | qualifiedType qualifier? => exact .qualifiedType qualifier?
  | confirmedArguments => exact .confirmedArguments
  | typeArguments? => exact .typeArguments?
  | argument n => exact .argument (hexpr n)
  | argumentList n closing => exact .argumentList (hexpr n) closing
  | initializerElement n => exact .initializerElement (hexpr n)
  | arrayInitializer n => exact .arrayInitializer (hexpr n)
  | parenthesized n => exact .parenthesized (hexpr n)
  | sizedRank n => exact .sizedRank (hexpr n)
  | creation n => exact .creation (hexpr n)
  | defaultValue => exact .defaultValue
  | typeOf => exact .typeOf
  | throwExpr n => exact .throwExpr (hexpr n)
  | name => exact .name
  | single make => exact .single make
  | missingExpr => exact .missingExpr
  | primary n => exact .primary (hexpr n)
  | exprSuffix? n start expr => exact .exprSuffix? (hexpr n) start expr
  | suffixed n => exact .suffixed (hexpr n)
  | castExpr n => exact .castExpr (hexpr n)
  | unary n => exact .unary (hexpr n)
  | infixStep? n start least left => exact .infixStep? (hexpr n) start least left
  | binary n least => exact .binary (hexpr n) least
  | conditional n => exact .conditional (hexpr n)
  | assignment n => exact .assignment (hexpr n)
  | exprWithin n level => exact hexpr n level
  | exprAt level => exact .exprAt level
  | variableValue => exact .initializerElement Scripted.exprAt
  | declarator => exact .declarator
  | declarators => exact .declarators
  | localDeclaration => exact .localDeclaration
  | typeAndName => exact .typeAndName
  | startsDeclaration => exact .startsDeclaration
  | blockOf n => exact .blockOf (hstmt n)
  | returned? => exact .returned?
  | condition => exact .condition
  | returnStmt => exact .returnStmt
  | throwStmt => exact .throwStmt
  | ifElse n => exact .ifElse (hstmt n)
  | whileLoop n => exact .whileLoop (hstmt n)
  | declarationStmt => exact .declarationStmt
  | expressionStmt => exact .expressionStmt
  | skippedStmt => exact .skippedStmt
  | stmtWithin n => exact hstmt n
  | stmt => exact .stmt
  | block => exact .block
  | memberHead => exact .memberHead
  | typeParameters? => exact .typeParameters?
  | parameter => exact .parameter
  | parametersWithin n => exact .parametersWithin n
  | parameterList opening closing => exact .parameterList opening closing
  | arrowBody => exact .arrowBody
  | memberBody => exact .memberBody
  | accessor? => exact .accessor?
  | propertyBody => exact .propertyBody
  | declaredOperator? => exact .declaredOperator?
  | fieldDecl head type => exact .fieldDecl head type
  | methodDecl head type => exact .methodDecl head type
  | propertyDecl head type => exact .propertyDecl head type
  | indexerDecl head type => exact .indexerDecl head type
  | operatorDecl head type => exact .operatorDecl head type
  | abandoned head type => exact .abandoned head type
  | typedMember head => exact .typedMember head
  | conversionDecl head => exact .conversionDecl head
  | constructorDecl head => exact .constructorDecl head
  | delegateDecl head => exact .delegateDecl head
  | clauseType => exact .clauseType
  | baseTypes => exact .baseTypes
  | typeDecl n head kind => exact .typeDecl head (hmembers n) kind
  | namespaceDecl n head => exact .namespaceDecl head (hmembers n)
  | usingDirective head => exact .usingDirective head
  | declaredMember n head => exact .declaredMember head (hmembers n)
  | member n => exact .member (hmembers n)
  | skippedMember => exact .skippedMember
  | someMember n => exact .someMember (hmembers n)
  | membersWithin n => exact hmembers n
  | members => exact .members
  | compilationUnit => exact Scripted.members.bind fun _ => (Scripted.ask _).bind fun _ => .pure _

end Production

/-! ## Carried out in place -/

def ParserSetting.ofTokens (source : String) (tokens : TokenList) (version : LanguageVersion) :
    ParserSetting :=
  let closed := SyntaxTree.closeTokens source tokens
  ⟨source, closed, version, .ofSentence (.ofTokens closed)⟩

namespace Script

variable {α : Type} (setting : ParserSetting)

/-- The script is what is read in every context.  In place it gives the same and only adds. -/
structure Performs (script : Script α) (parse : ParseContext → Parse α) : Prop where
  parse_eq : script.parse = parse
  run_eq : ∀ earlier context state,
    script.run setting (state.parser setting earlier context) =
      ((parse context setting.input state).1,
        (parse context setting.input state).2.parser setting earlier context)
  run_extends : ∀ parser,
    Parser.Extends setting.input.sentence parser (script.run setting parser).2

/-- An attempt that comes to nothing leaves the whole parser as it was, and one that comes to
something the context. -/
def LeavesNoTrace (body : Script (Option α)) : Prop :=
  ∀ parser, ((body.attempt.run setting parser).1 = none →
      (body.attempt.run setting parser).2 = parser) ∧
    (body.attempt.run setting parser).2.context = parser.context

variable {setting}

theorem performs {script : Script α} {parse : ParseContext → Parse α}
    (h : ∀ context, script.parse context = parse context) : script.Performs setting parse where
  parse_eq := funext h
  run_eq earlier context state := by rw [script.run_eq_parse, h]
  run_extends := script.run_extends setting

theorem lookAhead_run (script : Script α) (parser : Parser) :
    script.lookAhead.run setting parser = ((script.run setting parser.speculate).1, parser) :=
  Parser.lookAhead_eq (script.run_extends setting _)

theorem leavesNoTrace (body : Script (Option α)) : body.LeavesNoTrace setting := by
  intro parser
  rw [run, Parser.attempt_eq (body.run_extends setting _)]
  cases (body.run setting parser.speculate).1 with
  | none => exact ⟨fun _ => rfl, rfl⟩
  | some value => exact ⟨fun h => absurd h (Option.some_ne_none value), rfl⟩

end Script

/-- Carried out in place, with some diagnostics in front, the script ends with the tree. -/
structure Script.EndsWith (script : Script CompilationUnit) (setting : ParserSetting)
    (lexical : List Diagnostic) (tree : SyntaxTree) : Prop where
  root : (script.run setting ⟨0, .none, ⟨lexical⟩, .empty⟩).1 = tree.root
  exprs : (script.run setting ⟨0, .none, ⟨lexical⟩, .empty⟩).2.exprs = tree.exprs
  context : (script.run setting ⟨0, .none, ⟨lexical⟩, .empty⟩).2.context = .none
  diagnostics :
    (script.run setting ⟨0, .none, ⟨lexical⟩, .empty⟩).2.diagnostics.sorted = tree.diagnostics

section InPlace

variable {script : Script CompilationUnit}
  (hscript : script.parse = Production.compilationUnit.parse)
include hscript

theorem Script.run_unit (setting : ParserSetting) (lexical : List Diagnostic) :
    script.run setting ⟨0, .none, ⟨lexical⟩, .empty⟩ =
      ((compilationUnit setting.input .start).1,
        (compilationUnit setting.input .start).2.parser setting lexical .none) := by
  rw [← ParseState.start_parser, script.run_eq_parse, hscript, Production.compilationUnit_parse]

/-- A parser that is changed in place, and goes back by cutting off, ends with the tree, whatever
the version makes it report. -/
theorem SyntaxTree.ofTokens_in_place (source : String) (tokens : TokenList)
    (lexical : List Diagnostic) (version : LanguageVersion) :
    script.EndsWith (.ofTokens source tokens version) lexical
      (ofTokens source tokens lexical version) := by
  have hrun := Script.run_unit hscript (.ofTokens source tokens version) lexical
  constructor <;> rw [hrun] <;> rfl

end InPlace

/-- Every production only adds, in whatever state.  So nothing is left of what is only looked
ahead at or given up, whatever attempts there are inside: the type in front of a declared name,
a cast, and type arguments behind a name. -/
theorem SyntaxTree.attempts_leave_no_trace (source : String) (tokens : TokenList)
    (version : LanguageVersion) :
    let setting := ParserSetting.ofTokens source tokens version
    setting.tokens.tokens.toList.findIdx? (·.kind == .eof) = some setting.input.sentence.size ∧
    (∀ (α : Type) (production : Production α), ∃ script : Script α,
      script.Performs setting production.parse) ∧
    (∀ (α : Type) (script : Script α) (parser : Parser),
      script.lookAhead.run setting parser = ((script.run setting parser.speculate).1, parser)) ∧
    (∀ (α : Type) (body : Script (Option α)), body.LeavesNoTrace setting) ∧
    (∃ body : Script Bool, body.Performs setting (fun _ => typeAndName) ∧
      body.lookAhead.Performs setting fun _ => lookAhead typeAndName) ∧
    (∀ nesting, ∃ body : Script (Option Expr),
      body.Performs setting (fun _ => castExpr (exprWithin nesting)) ∧
      body.attempt.Performs setting fun _ => attempt (castExpr (exprWithin nesting))) ∧
    ∃ body : Script (Option TypeArguments), body.Performs setting (fun _ => confirmedArguments) ∧
      body.attempt.Performs setting fun _ => attempt confirmedArguments := by
  intro setting
  have heof : setting.tokens.tokens.toList.findIdx? (·.kind == .eof) =
      some setting.input.sentence.size :=
    (TokenList.findIdx?_eof (SyntaxTree.exists_eof source tokens)).trans
      (congrArg some (Sentence.size_ofTokens _).symm)
  refine ⟨heof, fun α production => ?_, fun α => Script.lookAhead_run,
    fun α => Script.leavesNoTrace, ?_, fun nesting => ?_, ?_⟩
  · obtain ⟨script, hscript⟩ := production.scripted
    exact ⟨script, Script.performs hscript⟩
  · obtain ⟨body, hbody⟩ := Scripted.typeAndName
    exact ⟨body, Script.performs hbody,
      Script.performs fun context => congrArg lookAhead (hbody _)⟩
  · obtain ⟨body, hbody⟩ := Scripted.castExpr (Scripted.exprWithin nesting)
    exact ⟨body, Script.performs hbody,
      Script.performs fun context => congrArg attempt (hbody _)⟩
  · obtain ⟨body, hbody⟩ := Scripted.confirmedArguments
    exact ⟨body, Script.performs hbody,
      Script.performs fun context => congrArg attempt (hbody _)⟩

end TolerantSyntax
