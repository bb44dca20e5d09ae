import TolerantSyntax.Proofs.Fidelity
import TolerantSyntax.Proofs.RoundTrip.Class
import TolerantSyntax.Proofs.RoundTrip.Lexing
import TolerantSyntax.Proofs.RoundTrip.StmtReading

/-!
# The body of a method

Statements that are written as the body of a method in a class are read back, and nothing is
reported.
-/

namespace TolerantSyntax

open Lexeme (byteLength listFrom owned)

theorem DeclaratorTerm.WellFormed.spaced {declarator : DeclaratorTerm}
    (h : declarator.WellFormed) : Sign.Spaced declarator.signs := by
  obtain ⟨name, value?⟩ := declarator
  refine .token h.name ?_
  cases value? with
  | none => exact .nil
  | some value =>
      rw [Option.toList_some, List.flatMap_singleton]
      exact .fixed rfl (h.value value rfl).spaced

theorem spaced_flatMap {β : Type} {signs : β → List Sign} {values : List β}
    (h : ∀ value ∈ values, Sign.Spaced (signs value)) : Sign.Spaced (values.flatMap signs) := by
  induction values with
  | nil => exact .nil
  | cons value rest ih =>
      obtain ⟨hvalue, hrest⟩ := List.forall_mem_cons.mp h
      rw [List.flatMap_cons]
      exact hvalue.append (ih hrest)

theorem spaced_declaratorSigns {declarators : List DeclaratorTerm}
    (h : ∀ declarator ∈ declarators, declarator.WellFormed) :
    Sign.Spaced (declaratorSigns declarators) := by
  cases declarators with
  | nil => exact .nil
  | cons first rest =>
      obtain ⟨hfirst, hrest⟩ := List.forall_mem_cons.mp h
      exact hfirst.spaced.append (spaced_flatMap fun declarator hmem =>
        .fixed rfl (hrest declarator hmem).spaced)

theorem StmtTerm.WellFormed.spaced {stmt : StmtTerm} (h : stmt.WellFormed) :
    Sign.Spaced stmt.signs := by
  have hcondition {term : Term} (h : term.WellFormed) : Sign.Spaced term.conditionSigns :=
    .fixed rfl (h.spaced.append (.fixed rfl .nil))
  have hvalue {value? : Option Term} (h : ∀ value ∈ value?, value.WellFormed) :
      Sign.Spaced (Term.signs? value?) :=
    spaced_flatMap fun value hmem => (h value (by simpa using hmem)).spaced
  have hsemicolon {front : List Sign} (h : Sign.Spaced front) :
      Sign.Spaced (front ++ [.fixed .semicolon]) := h.append (.fixed rfl .nil)
  induction h with
  | empty => exact .fixed rfl .nil
  | block _ ih =>
      rw [signs, stmtSigns_eq]
      exact .fixed rfl ((spaced_flatMap ih).append (.fixed rfl .nil))
  | declaration isConst htype htokens _ hdeclarators =>
      have hconst : Sign.Spaced (if isConst = true then [Sign.fixed .constKw] else []) := by
        split
        · exact .fixed rfl .nil
        · exact .nil
      exact hconst.append ((Sign.Spaced.of_tokens htokens htype.joined).append
        (hsemicolon (spaced_declaratorSigns hdeclarators)))
  | expression hterm => exact hsemicolon hterm.spaced
  | returnStmt h | throwStmt h => exact .fixed rfl (hsemicolon (hvalue h))
  | ifThen h _ ih | whileLoop h _ ih => exact .fixed rfl ((hcondition h).append ih)
  | ifElse h _ _ _ ihtrue ihfalse =>
      exact .fixed rfl ((hcondition h).append (ihtrue.append (.fixed rfl ihfalse)))

namespace StmtTerm

def methodFront : String := "class C \x7b void M() \x7b"

/-- A class with a method whose body the statements are. -/
def inMethod (stmts : List StmtTerm) : String :=
  methodFront ++ String.join ((stmtSigns stmts).map (·.written)) ++ " \x7d \x7d"

def methodHead : List Sign :=
  [.fixed .classKw, ⟨.identifier, "C", false⟩, .fixed .lBrace, .fixed .voidKw,
    ⟨.identifier, "M", false⟩, .fixed .lParen, .fixed .rParen, .fixed .lBrace]

def methodBody (stmts : List StmtTerm) : List Sign :=
  stmtSigns stmts ++ [.fixed .rBrace, .fixed .rBrace]

theorem inMethod_eq (stmts : List StmtTerm) :
    inMethod stmts = Sign.source methodFront (methodBody stmts) := by
  have hback : String.join ([Sign.fixed .rBrace, Sign.fixed .rBrace].map (·.written)) =
      " \x7d \x7d" := by decide
  rw [inMethod, Sign.source, methodBody, List.map_append, String.join_append, hback,
    String.append_assoc]

theorem spaced_methodBody {stmts : List StmtTerm} (h : ∀ stmt ∈ stmts, stmt.WellFormed) :
    Sign.Spaced (methodBody stmts) := by
  rw [methodBody, stmtSigns_eq]
  exact (spaced_flatMap fun stmt hmem => (h stmt hmem).spaced).append (.fixed rfl (.fixed rfl .nil))

theorem listFrom_methodFront (fuel : Nat) (behind : List Char) :
    listFrom (fuel + 13) 0 (methodFront.toList ++ ' ' :: behind) =
      Lexeme.ofText methodFront ++ listFrom fuel 20 (' ' :: behind) := rfl

variable {signs : List Sign}

theorem ofText_method (h : Sign.Spaced signs) (hsome : signs ≠ []) :
    Lexeme.ofText (Sign.source methodFront signs) =
      Lexeme.ofText methodFront ++ Sign.lexemes 20 signs := by
  have hchars : (Sign.source methodFront signs).toList =
      methodFront.toList ++ Sign.chars signs := by
    rw [Sign.source, String.toList_append, String.join_eq, String.toList_ofList, List.map_map]
    rfl
  obtain ⟨behind, hblank⟩ : ∃ behind, Sign.chars signs = ' ' :: behind := by
    cases h with
    | nil => exact absurd rfl hsome
    | @token _ text rest =>
        exact ⟨text.toList ++ Sign.chars rest, by simp [Sign.chars, Sign.written]⟩
    | shift => exact ⟨_, rfl⟩
  have hlength : (Sign.source methodFront signs).length = (Sign.chars signs).length + 7 + 13 := by
    rw [← String.length_toList, hchars, List.length_append, Nat.add_comm]
    rfl
  rw [Lexeme.ofText, hchars, hlength, hblank, listFrom_methodFront, ← hblank,
    Sign.listFrom_chars h _ _ (Nat.le_add_right _ _)]

theorem owned_method (h : Sign.Spaced signs) (hsome : signs ≠ []) :
    owned (Lexeme.ofText (Sign.source methodFront signs)) =
      owned (Lexeme.ofText methodFront) ++ owned (Sign.lexemes 20 signs) := by
  rw [ofText_method h hsome, owned, List.filter_append]
  rfl

theorem method_diagnostics (h : Sign.Spaced signs) (hsome : signs ≠ []) :
    (lex (Sign.source methodFront signs)).diagnostics = [] := by
  have hfront : (Lexeme.ofText methodFront).filterMap (·.diagnostic?) = [] := by decide
  rw [lex_diagnostics, ofText_method h hsome, List.filterMap_append, hfront,
    Sign.lexemes_diagnostic?]
  rfl

theorem method_spelling (h : Sign.Spaced signs) (hsome : signs ≠ []) :
    (lex (Sign.source methodFront signs)).tokens.inner.map
        (·.spelling (Sign.source methodFront signs)) =
      (methodHead ++ signs).map (·.spelling) := by
  have hfront : (owned (Lexeme.ofText methodFront)).map (·.spelling) =
      methodHead.map (·.spelling) := by decide
  rw [inner_spelling, owned_method h hsome, List.map_append, Sign.spelling_lexemes, hfront,
    List.map_append]

theorem method_symbols (h : Sign.Spaced signs) (hsome : signs ≠ []) :
    Sentence.ofTokens (lex (Sign.source methodFront signs)).tokens =
      ⟨((methodHead ++ signs).map (·.symbol)).toArray⟩ := by
  have hfront (behind : List Lexeme) :
      Lexeme.symbols none (owned (Lexeme.ofText methodFront) ++ behind) =
        methodHead.map (·.symbol) ++
          Lexeme.symbols (some (Sign.lexeme 19 (.fixed .lBrace))) behind := rfl
  have hlast : ∀ front ∈ some (Sign.lexeme 19 (.fixed .lBrace)), front.span.stop ≤ 20 := by
    decide
  rw [Sentence.ofTokens_lex, owned_method h hsome, hfront, h.symbols hlast, List.map_append]

theorem method_shows (h : Sign.Spaced signs) (hsome : signs ≠ []) :
    (Sentence.ofTokens (lex (Sign.source methodFront signs)).tokens).Shows
      (fun index => (Finding.tokenAt (lex (Sign.source methodFront signs)).tokens index).spelling
        (Sign.source methodFront signs)) 0 (methodHead ++ signs) :=
  Sign.shows_of_lex (method_symbols h hsome) (method_spelling h hsome)

end StmtTerm

namespace Parse

variable {input : Input} {word : Nat → Spelling} {state : ParseState} {stop : Nat}

/-! ## A method -/

theorem noParameters_back (hopening : input.sentence.kindAt state.position = .lParen)
    (hclosing : input.sentence.kindAt (state.position + 1) = .rParen) :
    Ends roundParameters input state fun _ after =>
      after = { state with position := state.position + 1 + 1 } := by
  unfold roundParameters parameterList
  refine .expectTaken hopening (by decide) (.askIf (fun hyes => ?_) fun _ => ?_)
  · rw [hclosing] at hyes
    simp [TokenSet.parameterStart, TokenSet.typeStart, TokenSet.predefinedTypes,
      TokenSet.parameterModifiers] at hyes
  · exact .pureBind (.expectTaken hclosing (by decide) (.pure rfl))

theorem methodDecl_back (head : MemberHead) (type : TypeSyntax) {stmts : List StmtTerm}
    (hstmts : ∀ stmt ∈ stmts, stmt.WellFormed)
    (hshows : input.sentence.Shows word state.position
      (⟨.identifier, "M", false⟩ :: .fixed .lParen :: .fixed .rParen ::
        (StmtTerm.block stmts).signs)) :
    Ends (methodDecl head type) input state
      (Back (fun member => ∃ info name params block,
          member = .method info type name none params (.block block) ∧
            block.terms? word = some stmts)
        (state.position + 3 + (StmtTerm.block stmts).signs.length) state) := by
  have hname : input.sentence.kindAt state.position = .identifier := hshows.kind
  have hopening : input.sentence.kindAt (state.position + 1) = .lParen := hshows.tail.kind
  have hclosing : input.sentence.kindAt (state.position + 1 + 1) = .rParen :=
    hshows.tail.tail.kind
  have hbody := hshows.tail.tail.tail
  have hbrace : input.sentence.kindAt (state.position + 3) = .lBrace := hbody.kind
  have hblock : Ends memberBody input { state with position := state.position + 3 }
      (Back (fun body => ∃ block, body = .block block ∧ block.terms? word = some stmts)
        (state.position + 3 + (StmtTerm.block stmts).signs.length) state) := by
    unfold memberBody
    refine .kind fun kind hkind => ?_
    obtain rfl : kind = .lBrace := hkind.symm.trans hbrace
    exact .map ((block_back hstmts hbody).imp fun block last hlast =>
      ⟨⟨block, rfl, hlast.reads⟩, hlast.position, hlast.quiet⟩)
  unfold methodDecl
  refine .advance (by simp [hname]) ((typeParameters?_declines (by simp [hopening])).bind ?_)
  refine (noParameters_back hopening hclosing).bind ?_
  rintro params _ rfl
  refine hblock.bind ?_
  rintro _ last ⟨⟨block, rfl, hterms⟩, hposition, hquiet⟩
  exact .memberInfo fun info =>
    .pure ⟨⟨info, _, params, block, rfl, hterms⟩, hposition, hquiet⟩

theorem method_back (nested : ParseContext → Parse (List Member)) (context : ParseContext)
    {stmts : List StmtTerm} (hstmts : ∀ stmt ∈ stmts, stmt.WellFormed)
    (hshows : input.sentence.Shows word state.position
      (.fixed .voidKw :: ⟨.identifier, "M", false⟩ :: .fixed .lParen :: .fixed .rParen ::
        (StmtTerm.block stmts).signs)) :
    Ends (member nested context) input state
      (Back (fun member => ∃ info type name params block,
          member = .method info type name none params (.block block) ∧
            block.terms? word = some stmts)
        (state.position + 4 + (StmtTerm.block stmts).signs.length) state) := by
  have hvoid : input.sentence.kindAt state.position = .voidKw := hshows.kind
  have hname : input.sentence.kindAt (state.position + 1) = .identifier := hshows.tail.kind
  have hopening : input.sentence.kindAt (state.position + 1 + 1) = .lParen := hshows.tail.tail.kind
  have hfront : input.sentence.Shows word state.position (TypeTerm.predefined .voidKw).signs :=
    ⟨hshows.1, trivial⟩
  have hends : (TypeTerm.predefined .voidKw).EndsAt input.sentence (state.position + 1) :=
    .of_kind (by rw [hname]; rfl)
  unfold member
  refine .kind fun kind hkind => ?_
  obtain rfl : kind = .voidKw := hkind.symm.trans hvoid
  refine .memberHead hvoid (by decide) fun head hqualifier => ?_
  unfold declaredMember
  rw [hqualifier]
  refine .kind fun kind hkind => ?_
  obtain rfl : kind = .voidKw := hkind.symm.trans hvoid
  unfold typedMember
  rw [hqualifier]
  refine Ends.bind (type_back (.predefined rfl) hfront.tells hends) fun tree after htree => ?_
  have hread : tree.term? word = some (.predefined .voidKw) := htree.reads
  have hposition : after.position = state.position + 1 := htree.position
  obtain ⟨hmissing, href⟩ : tree.valueType.isMissing = false ∧ tree.isByRef = false := by
    cases tree with
    | byRef | missing => cases hread
    | _ => exact ⟨rfl, rfl⟩
  rw [hmissing, href]
  rw [← hposition] at hname hopening
  refine .kind fun kind hkind => ?_
  obtain rfl : kind = .identifier := hkind.symm.trans hname
  refine .ask fun kind hkind => ?_
  obtain rfl : kind = .lParen := hkind.symm.trans hopening
  have htail := hshows.tail
  rw [← hposition] at htail
  refine (methodDecl_back head tree hstmts htail).imp ?_
  rintro _ last ⟨⟨info, name, params, block, rfl, hterms⟩, hlast, hquiet⟩
  refine ⟨⟨info, tree, name, params, block, rfl, hterms⟩, ?_, htree.quiet.trans hquiet⟩
  rw [hlast, hposition]

theorem compilationUnit_method {stmts : List StmtTerm} (hstmts : ∀ stmt ∈ stmts, stmt.WellFormed)
    (hshows : input.sentence.Shows word 0 (StmtTerm.methodHead ++ StmtTerm.methodBody stmts))
    (hsize : input.sentence.size = (StmtTerm.methodHead ++ StmtTerm.methodBody stmts).length) :
    Ends compilationUnit input .start fun root after =>
      (∃ info header opening? info' type name params block closing? semicolon?,
        root.members = [.typeDecl info header opening?
          [.method info' type name none params (.block block)] closing? semicolon?] ∧
        block.terms? word = some stmts) ∧ Quiet .start after := by
  have hsigns : StmtTerm.methodHead ++ StmtTerm.methodBody stmts =
      .fixed .classKw :: ⟨.identifier, "C", false⟩ :: .fixed .lBrace ::
        ((.fixed .voidKw :: ⟨.identifier, "M", false⟩ :: .fixed .lParen :: .fixed .rParen ::
          (StmtTerm.block stmts).signs) ++ [.fixed .rBrace]) := by
    simp [StmtTerm.methodHead, StmtTerm.methodBody, StmtTerm.signs]
  rw [hsigns] at hshows hsize
  obtain ⟨hmethod, hback⟩ := Sentence.shows_append.mp hshows.tail.tail.tail
  have hvoid : input.sentence.kindAt 3 = .voidKw := hmethod.kind
  simp only [List.length_cons, List.length_append, List.length_nil] at hsize
  have hlength : 0 + 1 + 1 + 1 + (Sign.fixed .voidKw :: ⟨.identifier, "M", false⟩ ::
      Sign.fixed .lParen :: Sign.fixed .rParen :: (StmtTerm.block stmts).signs).length =
      3 + 4 + (StmtTerm.block stmts).signs.length := by
    simp only [List.length_cons]
    omega
  rw [hlength] at hback
  have hread (n : Nat) : Ends (member (membersWithin n) ParseContext.none.enterType) input
      { ParseState.start with position := 3 }
      (ReadTo (fun member noted => (∃ info type name params block,
        member = .method info type name none params (.block block) ∧
          block.terms? word = some stmts) ∧ Quiet .start ⟨0, noted, .empty⟩)
        (3 + 4 + (StmtTerm.block stmts).signs.length)) :=
    (method_back _ _ hstmts hmethod).imp fun member after hafter =>
      ⟨⟨hafter.reads, hafter.quiet⟩, hafter.position⟩
  refine (compilationUnit_single hshows.kind hshows.tail.kind hshows.tail.tail.kind
    (by simp [hvoid, TokenSet.memberStart, TokenSet.typeStart, TokenSet.predefinedTypes]) hread
    (by omega) hback.kind (Sentence.kindAt_eq_eof (by omega))).imp ?_
  rintro root after ⟨info, header, opening?, _, closing?, semicolon?, hmembers,
    ⟨info', type, name, params, block, rfl, hterms⟩, hquiet⟩
  exact ⟨⟨info, header, opening?, info', type, name, params, block, closing?, semicolon?,
    hmembers, hterms⟩, hquiet⟩

end Parse

open StmtTerm in
/-- Statements that are written as the body of a method are read back, whatever they start with
and however their branches are nested, and nothing is reported. -/
theorem SyntaxTree.ofText_inMethod {stmts : List StmtTerm}
    (h : ∀ stmt ∈ stmts, stmt.WellFormed) {version : LanguageVersion} (hversion : .v7 ≤ version) :
    (ofText (inMethod stmts) version).diagnostics = [] ∧
      ∃ info header opening? info' type name params block closing? semicolon?,
        (ofText (inMethod stmts) version).root.members = [.typeDecl info header opening?
          [.method info' type name none params (.block block)] closing? semicolon?] ∧
        block.terms? (ofText (inMethod stmts) version).word = some stmts := by
  have hspaced := spaced_methodBody h
  have hsome : methodBody stmts ≠ [] := by simp [methodBody]
  have hlexical := method_diagnostics hspaced hsome
  have hsymbols := method_symbols hspaced hsome
  have hshows := method_shows hspaced hsome
  rw [← inMethod_eq] at hlexical hsymbols hshows
  have hsize : (Sentence.ofTokens (lex (inMethod stmts)).tokens).size =
      (methodHead ++ methodBody stmts).length := by
    rw [hsymbols, Sentence.size, List.size_toArray, List.length_map]
  have hword : (ofText (inMethod stmts) version).word = fun index =>
      (Finding.tokenAt (lex (inMethod stmts)).tokens index).spelling (inMethod stmts) := by
    funext index
    rw [word, ofText_tokens, ofText_source]
  have hread : Parse.Ends Parse.compilationUnit
      (.ofSentence (.ofTokens (lex (inMethod stmts)).tokens)) .start fun root after =>
        (∃ info header opening? info' type name params block closing? semicolon?,
          root.members = [.typeDecl info header opening?
            [.method info' type name none params (.block block)] closing? semicolon?] ∧
          block.terms? (ofText (inMethod stmts) version).word = some stmts) ∧
        Parse.Quiet .start after := by
    rw [hword]
    exact Parse.compilationUnit_method h hshows hsize
  obtain ⟨hmembers, hquiet⟩ := hread
  constructor
  · rw [ofText_diagnostics, hlexical, List.nil_append]
    unfold ofSentence
    rw [hquiet.findingsIn _ _ hversion]
    simp [findingsIn, ParseState.start, DiagnosticBag.sorted]
  · simp only [ofText_root, ofSentence]
    exact hmembers

/-- Statements that start with a type, with a parenthesis and with keywords, and an `else` that
two `if`s might claim. -/
def StmtTerm.mixed : List StmtTerm :=
  [.declaration true
      (.generic "L" [.mk (.tuple [.mk (.nullable (.predefined .intKw)) (some "x"),
        .mk (.array (.named "V") [1]) none]) none])
      [⟨"a", some (.literal .intLiteral "1")⟩, ⟨"b", none⟩],
    .expression (.assign .assign (.memberAccess (.parenthesized .this) "f") .this),
    .ifThen (.literal .trueKw "true")
      (.ifElse .this (.whileLoop .this .empty) (.block [.returnStmt none])),
    .throwStmt (some (.literal .nullKw "null"))]

theorem SyntaxTree.ofText_inMethod_mixed :
    StmtTerm.inMethod StmtTerm.mixed =
        "class C \x7b void M() \x7b const L < ( int ? x , V [ ] ) > a = 1 , b ; " ++
          "( this ) . f = this ; if ( true ) if ( this ) while ( this ) ; " ++
          "else \x7b return ; \x7d throw null ; \x7d \x7d" ∧
      (∀ stmt ∈ StmtTerm.mixed, stmt.WellFormed) ∧
      (ofText (StmtTerm.inMethod StmtTerm.mixed) .v7_1).diagnostics = [] ∧
      ∃ info header opening? info' type name params block closing? semicolon?,
        (ofText (StmtTerm.inMethod StmtTerm.mixed) .v7_1).root.members =
          [.typeDecl info header opening?
            [.method info' type name none params (.block block)] closing? semicolon?] ∧
        block.terms? (ofText (StmtTerm.inMethod StmtTerm.mixed) .v7_1).word =
          some StmtTerm.mixed := by
  have hwellFormed : ∀ stmt ∈ StmtTerm.mixed, stmt.WellFormed := by
    simp only [StmtTerm.mixed, List.forall_mem_cons]
    refine ⟨.declaration true ?_ (by decide) (by decide) ?_, .expression ?_, .ifThen ?_ ?_,
      .throwStmt ?_, nofun⟩
    · refine .generic "L" (by decide) (List.forall_mem_singleton.mpr (.tuple (by decide) ?_)) ?_
      · simp only [List.forall_mem_cons]
        exact ⟨.nullable rfl (.predefined rfl), .array rfl (by decide) (by decide) (.named "V"),
          nofun⟩
      · decide
    · simp only [List.forall_mem_cons]
      refine ⟨⟨by decide, ?_⟩, ⟨by decide, nofun⟩, nofun⟩
      rintro _ ⟨⟩
      exact .literal rfl (by decide)
    · refine .assign (by decide) ?_ .this
      exact .memberAccess (by decide) (.parenthesized .this) (by decide)
    · exact .literal rfl (by decide)
    · refine .ifElse .this rfl (.whileLoop .this .empty) (.block ?_)
      exact List.forall_mem_singleton.mpr (.returnStmt nofun)
    · rintro _ ⟨⟩
      exact .literal rfl (by decide)
  exact ⟨by decide +kernel, hwellFormed, ofText_inMethod hwellFormed (by decide)⟩

end TolerantSyntax
