import TolerantSyntax.Proofs.RoundTrip.Climbing
import TolerantSyntax.Proofs.RoundTrip.StmtTerm
import TolerantSyntax.Proofs.RoundTrip.TypeReading
import TolerantSyntax.Grammar.Stmt

/-!
# Simple statements are read back

Declarations, expressions, and what returns or throws: all that has no statement inside.  An
operand never begins with a type and a name, and a declaration always does, so that reading
ahead tells the one from the other.
-/

namespace TolerantSyntax

def TokenKind.startsNoStmt : TokenKind → Bool
  | elseKw | rBrace | eof => true
  | _ => false

theorem TokenKind.ne_of_not_startsNoStmt {kind : TokenKind} (h : kind.startsNoStmt = false) :
    kind ≠ .elseKw ∧ kind ≠ .rBrace ∧ kind ≠ .eof := by
  refine ⟨?_, ?_, ?_⟩
  all_goals
    rintro rfl
    cases h

theorem TokenKind.not_startsNoStmt_of_leadsIn {kind : TokenKind} (h : kind.leadsIn = true) :
    kind.startsNoStmt = false := by
  cases kind <;> first | rfl | cases h

theorem TokenKind.not_startsNoStmt_of_type {kind : TokenKind}
    (h : kind = .identifier ∨ kind = .lParen ∨ kind.isPredefinedType = true) :
    kind.startsNoStmt = false := by
  rcases h with rfl | rfl | h
  · rfl
  · rfl
  · cases kind <;> first | rfl | cases h

theorem Term.WellFormed.head {sentence : Sentence} {word : Nat → Spelling} {index : Nat}
    {term : Term} (h : term.WellFormed) (hshows : sentence.Shows word index term.signs) :
    (sentence.kindAt index).leadsIn = true := by
  obtain ⟨stop, hleads⟩ := h.leadsIn hshows
  exact hleads.kind index (Nat.le_refl _) hleads.le

namespace StmtTerm

theorem signs_ne_nil (stmt : StmtTerm) : stmt.signs ≠ [] := by
  cases stmt <;> simp [signs]

theorem WellFormed.head {sentence : Sentence} {word : Nat → Spelling} {index : Nat}
    {stmt : StmtTerm} (h : stmt.WellFormed) (hshows : sentence.Shows word index stmt.signs) :
    (sentence.kindAt index).startsNoStmt = false := by
  cases h with
  | @declaration isConst type _ htype htokens hsome hdeclarators =>
      cases isConst with
      | true =>
          rw [signs, if_pos rfl] at hshows
          rw [hshows.kind]
          rfl
      | false =>
          rw [signs, if_neg Bool.false_ne_true, List.nil_append] at hshows
          exact TokenKind.not_startsNoStmt_of_type
            (htype.head (Sentence.shows_append.mp hshows).1.tells)
  | expression hterm =>
      exact TokenKind.not_startsNoStmt_of_leadsIn (hterm.head (Sentence.shows_append.mp hshows).1)
  | _ =>
      rw [hshows.kind]
      rfl

end StmtTerm

namespace Parse

variable {n : Nat} {input : Input} {word : Nat → Spelling} {state : ParseState} {stop : Nat}

theorem condition_back {term : Term} (hterm : term.WellFormed)
    (hshows : input.sentence.Shows word state.position term.conditionSigns) :
    Ends condition input state
      (Back (fun got => got.term? word = some term) (state.position + term.conditionSigns.length)
        state) := by
  have hopening : input.sentence.kindAt state.position = .lParen := hshows.kind
  obtain ⟨hinner, hback⟩ := Sentence.shows_append.mp hshows.tail
  have hclosing : input.sentence.kindAt (state.position + 1 + term.signs.length) = .rParen :=
    hback.kind
  have hexpr : Ends expr input { state with position := state.position + 1 }
      (ReadBack word term (state.position + 1 + term.signs.length)
        { state with position := state.position + 1 }) :=
    expr_back hterm hinner (by dsimp only; rw [hclosing]; rfl)
  unfold condition
  refine .expectTaken hopening (by decide) (hexpr.bind fun got after hgot => ?_)
  rw [← hgot.position] at hclosing
  refine .expectTaken hclosing (by decide) (.pure ⟨hgot.term, ?_, .of_findings hgot.findings⟩)
  simp only [Term.conditionSigns, List.length_cons, List.length_append, List.length_nil,
    hgot.position]
  omega

theorem returned_back {value? : Option Term} (hvalue : ∀ value ∈ value?, value.WellFormed)
    (hshows : input.sentence.Shows word state.position (Term.signs? value?))
    (hstop : stop = state.position + (Term.signs? value?).length)
    (hsemicolon : input.sentence.kindAt stop = .semicolon) :
    Ends returned? input state
      (Back (fun got => Expr.terms? word got = some value?) stop state) := by
  unfold returned?
  cases value? with
  | none =>
      obtain rfl : stop = state.position := hstop
      refine .checkIf (fun _ => .pure ⟨rfl, rfl, .of_findings rfl⟩) fun hno => ?_
      exact absurd hsemicolon hno
  | some value =>
      have hsigns : Term.signs? (some value) = value.signs := by simp [Term.signs?]
      rw [hsigns] at hshows hstop
      have hterm := hvalue value rfl
      refine .checkIf (fun hyes => ?_) fun _ => ?_
      · exact absurd hyes (TokenKind.ne_of_leadsIn (hterm.head hshows) (by decide))
      · subst hstop
        refine (expr_back hterm hshows (by rw [hsemicolon]; rfl)).bind fun got after hgot => ?_
        refine .pure ⟨?_, hgot.position, .of_findings hgot.findings⟩
        simp [Expr.terms?, hgot.term]

/-! ## Declarations -/

theorem declarator_back {declarator : DeclaratorTerm} (hterm : declarator.WellFormed)
    (hshows : input.sentence.Shows word state.position declarator.signs)
    (hstop : stop = state.position + declarator.signs.length)
    (hcloses : input.sentence.kindAt stop = .comma ∨ input.sentence.kindAt stop = .semicolon) :
    Ends Parse.declarator input state
      (Back (fun got => got.term? word = some declarator) stop state) := by
  obtain ⟨name, value?⟩ := declarator
  have hname : input.sentence.kindAt state.position = .identifier := hshows.kind
  have htext : (word state.position).text = name := hshows.1.2.2.2
  unfold Parse.declarator
  refine .expectTaken hname (by decide) ?_
  cases value? with
  | none =>
      obtain rfl : stop = state.position + 1 := hstop
      have heq : input.sentence.kindAt (state.position + 1) ≠ .eq := by
        rcases hcloses with h | h <;> simp [h]
      refine (eat_declines heq).bind (.pure ⟨?_, rfl, .of_findings rfl⟩)
      simp [Declarator.term?, Expr.terms?, htext]
  | some value =>
      have hbehind :
          input.sentence.Shows word (state.position + 1) (.fixed .eq :: value.signs) := by
        simpa [DeclaratorTerm.signs] using hshows.tail
      have heq : input.sentence.kindAt (state.position + 1) = .eq := hbehind.kind
      have hlength : stop = state.position + 1 + 1 + value.signs.length := by
        simp only [hstop, DeclaratorTerm.signs, Option.toList_some, List.flatMap_singleton,
          List.length_cons]
        omega
      have hvalue : Ends variableValue input { state with position := state.position + 1 + 1 }
          (ReadBack word value (state.position + 1 + 1 + value.signs.length)
            { state with position := state.position + 1 + 1 }) :=
        variableValue_back (hterm.value value rfl) hbehind.tail (by
          dsimp only
          rw [← hlength]
          rcases hcloses with h | h <;> rw [h] <;> rfl)
      refine .eatTaken heq (by decide) (hvalue.bind fun got after hgot => .pure ⟨?_, ?_, ?_⟩)
      · simp [Declarator.term?, Expr.terms?, htext, hgot.term]
      · rw [hlength, hgot.position]
      · exact .of_findings hgot.findings

theorem declaratorTerms_of_forall₂ {terms : List DeclaratorTerm} {trees : List Declarator}
    (h : List.Forall₂ (fun term tree => tree.term? word = some term) terms trees) :
    declaratorTerms? word trees = some terms := by
  induction h with
  | nil => rfl
  | cons htree _ ih => simp [declaratorTerms?, htree, ih]

theorem declarators_back {terms : List DeclaratorTerm} (hsome : terms ≠ [])
    (hterms : ∀ term ∈ terms, term.WellFormed)
    (hshows : input.sentence.Shows word state.position
      (declaratorSigns terms ++ [.fixed .semicolon])) :
    Ends declarators input state
      (Back (fun got => declaratorTerms? word got = some terms)
        (state.position + (declaratorSigns terms).length) state) := by
  have hclose : input.sentence.kindAt (state.position + (declaratorSigns terms).length) =
      .semicolon := (Sentence.shows_append.mp hshows).2.kind
  obtain ⟨first, rest, rfl⟩ := List.exists_cons_of_ne_nil hsome
  rw [declaratorSigns, List.append_assoc] at hshows
  have hlisted := Sentence.Listed.of_signs
    (fun _ _ _ => Sentence.shows_append.mp) (fun _ _ _ => Sentence.Shows.kind)
    (Nat.le_refl state.position) hshows
  rw [← List.length_append, ← declaratorSigns] at hlisted
  unfold declarators
  refine (separated_back ?_ (by simp [hclose]) hlisted).imp fun trees after h =>
    ⟨declaratorTerms_of_forall₂ h.reads, h.position, h.quiet⟩
  rintro value hmem before after ⟨-, hvalue, hstop, hcloses⟩
  exact declarator_back (hterms value hmem) hvalue hstop hcloses

theorem refQualifier?_declines (hqualifier : input.sentence.qualifierAt state.position = false) :
    Declines refQualifier? input state := by
  unfold Sentence.qualifierAt at hqualifier
  unfold refQualifier?
  refine .askIf (fun hyes => ?_) fun _ => .checkIf (fun hyes => ?_) fun _ => ⟨rfl, rfl⟩
  · simp only [Bool.and_eq_true, beq_iff_eq] at hyes
    simp [hyes.1, hyes.2] at hqualifier
  · simp [hyes] at hqualifier

theorem eatModifier_declines {modifier : Modifier} {keyword : TokenKind} {set : ModifierSet}
    (h : input.sentence.kindAt state.position ≠ keyword) :
    Ends (eatModifier modifier keyword set) input state fun got after =>
      got = set ∧ after = state :=
  (eat_declines h).bind (.pure ⟨rfl, rfl⟩)

theorem eatConst_back (isConst : Bool)
    (hkind : isConst = true ↔ input.sentence.kindAt state.position = .constKw) :
    Ends (eatModifier .constKw .constKw .empty) input state fun set after =>
      set.isConst? = some isConst ∧
        after = { state with position := state.position + (if isConst then 1 else 0) } := by
  cases isConst with
  | true => exact .eatTaken (hkind.mp rfl) (by decide) (.pure ⟨rfl, rfl⟩)
  | false =>
      refine (eatModifier_declines fun h => nomatch hkind.mpr h).imp ?_
      rintro _ _ ⟨rfl, rfl⟩
      exact ⟨rfl, rfl⟩

theorem typeHead_ne {kind : TokenKind}
    (h : kind = .identifier ∨ kind = .lParen ∨ kind.isPredefinedType = true) :
    kind ≠ .constKw ∧ kind ≠ .readonlyKw ∧ TokenSet.typeStart.contains kind = true ∧
      TokenSet.expressionStart.contains kind = true := by
  have hstart : TokenSet.typeStart.contains kind = true := by
    rw [TokenSet.contains_typeStart]
    rcases h with rfl | rfl | hpredefined
    · rfl
    · rfl
    · rw [hpredefined, Bool.true_or]
  refine ⟨?_, ?_, hstart, TokenSet.expressionStart_of_typeStart hstart⟩
  all_goals
    rintro rfl
    rw [TokenSet.contains_typeStart] at hstart
    exact absurd hstart (by decide)

section Declaration

variable {isConst : Bool} {type : TypeTerm} {terms : List DeclaratorTerm}
  (htype : type.WellFormed) (hsome : terms ≠ [])

include hsome in
theorem declaratorFollow_of_shows {index : Nat}
    (hshows : input.sentence.Shows word index (declaratorSigns terms ++ [.fixed .semicolon])) :
    input.sentence.kindAt index = .identifier ∧
      TokenSet.declaratorFollow.contains (input.sentence.kindAt (index + 1)) = true := by
  obtain ⟨⟨name, value?⟩, rest, rfl⟩ := List.exists_cons_of_ne_nil hsome
  refine ⟨hshows.kind, ?_⟩
  have hbehind := hshows.tail
  cases value? with
  | some value =>
      have hkind : input.sentence.kindAt (index + 1) = .eq := hbehind.kind
      rw [hkind]
      decide
  | none =>
      cases rest with
      | nil =>
          have hkind : input.sentence.kindAt (index + 1) = .semicolon := hbehind.kind
          rw [hkind]
          decide
      | cons next rest =>
          have hkind : input.sentence.kindAt (index + 1) = .comma := hbehind.kind
          rw [hkind]
          decide

include htype hsome in
theorem typed_back
    (hshows : input.sentence.Shows word state.position
      (type.signs ++ (declaratorSigns terms ++ [.fixed .semicolon]))) :
    Ends Parse.type input state
      (TypeBack word type (state.position + type.signs.length) state) := by
  obtain ⟨hfront, hback⟩ := Sentence.shows_append.mp hshows
  obtain ⟨hname, -⟩ := declaratorFollow_of_shows hsome hback
  exact type_back htype hfront.tells (.of_kind (by rw [hname]; rfl))

include htype hsome in
theorem startsDeclaration_holds
    (hshows : input.sentence.Shows word state.position
      (type.signs ++ (declaratorSigns terms ++ [.fixed .semicolon]))) :
    Ends startsDeclaration input state fun answer after => answer = true ∧ after = state := by
  obtain ⟨hfront, hback⟩ := Sentence.shows_append.mp hshows
  obtain ⟨hname, hfollow⟩ := declaratorFollow_of_shows hsome hback
  have hanswer : Ends typeAndName input state fun answer _ => answer = true := by
    unfold typeAndName
    refine (typed_back htype hsome hshows).bind fun tree after htree => ?_
    have hmissing : tree.isMissing = false := by
      have hread := htree.reads
      cases tree with
      | missing => cases hread
      | _ => rfl
    refine .ask fun isName hisName => .ite (fun _ => ?_) fun hno => ?_
    · refine .ask fun next hnext => .pure ?_
      rw [← hnext, htree.position]
      exact hfollow
    · rw [← hisName, htree.position, hname, hmissing] at hno
      exact absurd rfl hno
  refine .askIf (fun _ => ⟨hanswer, rfl⟩) fun hno => ?_
  obtain ⟨-, -, hstart, -⟩ := typeHead_ne (htype.head hfront.tells)
  exact absurd (hstart.symm.trans hno) (by decide)

theorem declaration_front
    (hshows : input.sentence.Shows word state.position
      (StmtTerm.declaration isConst type terms).signs) :
    (isConst = true → input.sentence.kindAt state.position = .constKw) ∧
      input.sentence.Shows word (state.position + if isConst then 1 else 0)
        (type.signs ++ (declaratorSigns terms ++ [.fixed .semicolon])) := by
  cases isConst with
  | true => exact ⟨fun _ => hshows.kind, hshows.tail⟩
  | false => exact ⟨nofun, hshows⟩

include htype hsome in
theorem localDeclaration_back (hterms : ∀ term ∈ terms, term.WellFormed)
    (hshows : input.sentence.Shows word state.position
      (StmtTerm.declaration isConst type terms).signs) :
    Ends localDeclaration input state
      (Back (fun got => got.term? word = some (.declaration isConst type terms))
        (state.position + (StmtTerm.declaration isConst type terms).signs.length) state) := by
  obtain ⟨hconst, hbehind⟩ := declaration_front hshows
  obtain ⟨hfront, hback⟩ := Sentence.shows_append.mp hbehind
  have hhead := htype.head hfront.tells
  obtain ⟨hqualifier, -, -⟩ := not_qualifierAt_of_head rfl hhead
  obtain ⟨hno, hreadonly, -, -⟩ := typeHead_ne hhead
  have hkind : isConst = true ↔ input.sentence.kindAt state.position = .constKw := by
    refine ⟨hconst, fun h => ?_⟩
    by_contra hfalse
    rw [if_neg hfalse, Nat.add_zero] at hno
    exact hno h
  unfold localDeclaration
  refine (eatConst_back isConst hkind).bind ?_
  rintro set _ ⟨hset, rfl⟩
  refine (refQualifier?_declines hqualifier).bind ?_
  refine .join (.ite (fun _ => eatModifier_declines hreadonly) fun hsome => absurd rfl hsome) ?_
  rintro _ _ ⟨rfl, rfl⟩
  refine (typed_back htype hsome hbehind).bind fun tree after htree => ?_
  rw [← htree.position] at hback
  have hsemicolon := (Sentence.shows_append.mp hback).2.kind
  refine (declarators_back hsome hterms hback).bind fun trees last htrees => ?_
  rw [← htrees.position] at hsemicolon
  refine .expectTaken hsemicolon (by decide) (.pure ⟨?_, ?_, ?_⟩)
  · simp [LocalDeclaration.term?, hset, htree.reads, htrees.reads]
  · have hlength : (StmtTerm.declaration isConst type terms).signs.length =
        (if isConst then 1 else 0) +
          (type.signs.length + ((declaratorSigns terms).length + 1)) := by
      cases isConst <;> simp only [StmtTerm.signs, List.length_append, List.length_cons,
        List.length_nil, Bool.false_eq_true, if_false, if_true]
    rw [hlength, htrees.position, htree.position]
    dsimp only
    omega
  · exact htree.quiet.trans htrees.quiet

end Declaration

/-! ## Simple statements -/

theorem expressionStart_of_leadsIn {kind : TokenKind} (h : kind.leadsIn = true) :
    TokenSet.expressionStart.contains kind = true := by
  rw [TokenSet.expressionStart, TokenSet.castOperandStart]
  simp only [TokenSet.contains_union, TokenSet.contains_predefinedTypes, TokenSet.contains_ofList]
  cases kind <;> first | rfl | cases h

theorem startsDeclaration_declines (hleads : input.sentence.LeadsIn state.position stop) :
    Ends startsDeclaration input state fun answer after => answer = false ∧ after = state := by
  have hanswer : Ends typeAndName input state fun answer _ => answer = false := by
    unfold typeAndName
    refine (type_inside hleads ⟨Nat.le_refl _, hleads.le⟩).bind fun tree after hinside => ?_
    have hname : input.sentence.kindAt after.position ≠ .identifier :=
      TokenKind.ne_of_leadsIn (hleads.kind _ hinside.1 hinside.2) (by decide)
    refine .ask fun isName hisName => .ite (fun hyes => ?_) fun _ => .pure rfl
    obtain rfl : isName = false := hisName.symm.trans (by simpa using hname)
    simp at hyes
  exact .askIf (fun _ => ⟨hanswer, rfl⟩) fun _ => .pure ⟨rfl, rfl⟩

theorem declarationStmt_back {isConst : Bool} {type : TypeTerm} {terms : List DeclaratorTerm}
    (htype : type.WellFormed) (hsome : terms ≠ []) (hterms : ∀ term ∈ terms, term.WellFormed)
    (hshows : input.sentence.Shows word state.position
      (StmtTerm.declaration isConst type terms).signs) :
    Ends declarationStmt input state
      (Back (fun got => got.term? word = some (.declaration isConst type terms))
        (state.position + (StmtTerm.declaration isConst type terms).signs.length) state) := by
  unfold declarationStmt
  refine .position
    ((localDeclaration_back htype hsome hterms hshows).bind fun decl after hdecl => ?_)
  exact .rangeFrom (.pure ⟨hdecl.reads, hdecl.position, hdecl.quiet⟩)

section Semicolon

variable {front : List Sign} (hshows : input.sentence.Shows word state.position front)
  (hsemicolon : input.sentence.kindAt (state.position + front.length) = .semicolon)
include hshows hsemicolon

theorem expressionStmt_back {term : Term} (hterm : term.WellFormed) (hfront : front = term.signs) :
    Ends expressionStmt input state
      (Back (fun got => got.term? word = some (.expression term))
        (state.position + front.length + 1) state) := by
  subst hfront
  unfold expressionStmt
  refine .position
    ((expr_back hterm hshows (by rw [hsemicolon]; rfl)).bind fun got after hgot => ?_)
  rw [← hgot.position] at hsemicolon ⊢
  refine .expectTaken hsemicolon (by decide)
    (.rangeFrom (.pure ⟨?_, rfl, .of_findings hgot.findings⟩))
  simp [hgot.term]

theorem value_back {keyword : TokenKind} {value? : Option Term}
    (hvalue : ∀ value ∈ value?, value.WellFormed)
    (hfront : front = .fixed keyword :: Term.signs? value?) :
    input.sentence.kindAt state.position = keyword ∧
      input.sentence.kindAt (state.position + 1) ≠ .refKw ∧
      Ends returned? input { state with position := state.position + 1 }
        (Back (fun got => Expr.terms? word got = some value?) (state.position + front.length)
          { state with position := state.position + 1 }) := by
  subst hfront
  have hlength : state.position + (Sign.fixed keyword :: Term.signs? value?).length =
      state.position + 1 + (Term.signs? value?).length := by
    rw [List.length_cons]
    omega
  rw [hlength] at hsemicolon ⊢
  refine ⟨hshows.kind, ?_, returned_back hvalue hshows.tail rfl hsemicolon⟩
  cases value? with
  | none =>
      have hkind : input.sentence.kindAt (state.position + 1) = .semicolon := hsemicolon
      simp [hkind]
  | some value =>
      have hinner : input.sentence.Shows word (state.position + 1) value.signs := by
        simpa [Term.signs?] using hshows.tail
      exact TokenKind.ne_of_leadsIn ((hvalue value rfl).head hinner) (by decide)

theorem returnStmt_back {value? : Option Term} (hvalue : ∀ value ∈ value?, value.WellFormed)
    (hfront : front = .fixed .returnKw :: Term.signs? value?) :
    Ends returnStmt input state
      (Back (fun got => got.term? word = some (.returnStmt value?))
        (state.position + front.length + 1) state) := by
  obtain ⟨hkeyword, href, hback⟩ := value_back hshows hsemicolon hvalue hfront
  unfold returnStmt
  refine .position (.advance (by simp [hkeyword]) ?_)
  refine .checkIf (fun hyes => absurd hyes href) fun _ => (eat_declines href).bind ?_
  refine hback.bind fun got after hgot => ?_
  rw [← hgot.position] at hsemicolon ⊢
  refine .expectTaken hsemicolon (by decide) (.rangeFrom (.pure ⟨?_, rfl, hgot.quiet⟩))
  simp [hgot.reads]

theorem throwStmt_back {value? : Option Term} (hvalue : ∀ value ∈ value?, value.WellFormed)
    (hfront : front = .fixed .throwKw :: Term.signs? value?) :
    Ends throwStmt input state
      (Back (fun got => got.term? word = some (.throwStmt value?))
        (state.position + front.length + 1) state) := by
  obtain ⟨hkeyword, -, hback⟩ := value_back hshows hsemicolon hvalue hfront
  unfold throwStmt
  refine .position (.advance (by simp [hkeyword]) (hback.bind fun got after hgot => ?_))
  rw [← hgot.position] at hsemicolon ⊢
  refine .expectTaken hsemicolon (by decide) (.rangeFrom (.pure ⟨?_, rfl, hgot.quiet⟩))
  simp [hgot.reads]

end Semicolon

end Parse
end TolerantSyntax
