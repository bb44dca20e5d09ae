import TolerantSyntax.Grammar.Stmt
import TolerantSyntax.Proofs.Builds.Type
import TolerantSyntax.Proofs.Parse.Known
import TolerantSyntax.Proofs.Recovery.Type
import TolerantSyntax.Proofs.Speculation.Cast
import TolerantSyntax.Proofs.TypeEnd.Agreement

/-!
# What the symbols alone decide

Whether a `(` opens a cast and whether a type starts a declaration is asked of the symbols,
before anything is read.  The answers are exact: what is read afterwards is what was expected,
also where symbols are missing in the type and at the end of the sentence.
-/

namespace TolerantSyntax

structure Sentence.DeclaresAt (sentence : Sentence) (index stop : Nat) : Prop where
  scanned : sentence.typeEnd? (Input.ofSentence sentence).tupleEnd index = some stop
  name : sentence.kindAt stop = .identifier
  follow : sentence.kindAt (stop + 1) ∈ [.eq, .semicolon, .comma]

structure LocalDeclaration.NamedAt (decl : LocalDeclaration) (stop : Nat) : Prop where
  present : decl.type.isMissing = false
  byValue : decl.type.isByRef = false
  typeStop : decl.type.range.stop = stop
  name : decl.declarators.head?.bind (·.name?) = some stop

namespace Parse

variable {α : Type} {input : Input} {state : ParseState}

theorem simpleName_isPredefined (nested : Parse TypeSyntax) :
    Ends (simpleName nested) input state fun type _ => TypeSyntax.isPredefined type = false := by
  refine .position (.behind fun name after => .checkIf (fun _ => ?_) fun _ => ?_)
  · exact .behind fun _ _ => .rangeFrom (.pure rfl)
  · exact .rangeFrom (.pure rfl)

theorem qualifiedName_isPredefined (nested : Parse TypeSyntax) :
    Ends (qualifiedName nested) input state fun type _ => TypeSyntax.isPredefined type = false := by
  refine .position ((simpleName_isPredefined nested).bind fun first after hfirst => ?_)
  refine grow_ends (fun type _ => TypeSyntax.isPredefined type = false) ?_ hfirst
  intro left before hleft
  refine .askIf (fun _ => ?_) fun _ => .pure hleft
  exact .behind fun _ _ => .behind fun _ _ => .rangeFrom (.pure rfl)

theorem tupleType_isPredefined (nested : Parse TypeSyntax) :
    Ends (tupleType nested) input state fun type _ => type.isPredefined = false := by
  refine .position (.noteHere (.behind fun opening _ => .behind fun elements _ =>
    .behind fun closing? after => ?_))
  exact .skip (fun _ => True) (fun _ => trivial) (fun _ => trivial) fun _ _ =>
    .rangeFrom (.pure rfl)

theorem typeSuffix?_wraps (start : Nat) (type : TypeSyntax) :
    Ends (typeSuffix? start type) input state fun grown? after =>
      match grown? with
      | none => after = state
      | some grown => grown.isPredefined = false ∧ state.position < after.position := by
  have hwrapped : Ends (typeSuffix? start type) input state fun grown? _ =>
      ∀ grown, grown? = some grown → grown.isPredefined = false := by
    unfold typeSuffix?
    refine .kind fun kind _ => ?_
    split
    · refine .ite (fun _ => .pure nofun) fun _ => .behind fun _ _ => .rangeFrom (.pure ?_)
      rintro grown ⟨⟩
      rfl
    · refine .behind fun _ _ => .rangeFrom (.pure ?_)
      rintro grown ⟨⟩
      rfl
    · refine .behind fun ranks after => ?_
      cases ranks with
      | nil => exact .pure nofun
      | cons rank ranks =>
          refine .rangeFrom (.pure ?_)
          rintro grown ⟨⟩
          rfl
    · exact .pure nofun
  refine (hwrapped.and (typeSuffix?_follows start type)).imp fun grown? after h => ?_
  obtain ⟨hgrown, hstep⟩ := h
  cases grown? with
  | none => exact hstep.1
  | some grown => exact ⟨hgrown grown rfl, hstep.1.2⟩

theorem typeSuffixes_wrap (start : Nat) (type : TypeSyntax) :
    Ends (grow (typeSuffix? start) type) input state fun grown after =>
      (grown = type ∧ after = state) ∨
        (grown.isPredefined = false ∧ state.position < after.position) := by
  refine grow_ends (fun (grown : TypeSyntax) (after : ParseState) =>
    (grown = type ∧ after = state) ∨
      (grown.isPredefined = false ∧ state.position < after.position)) ?_ (.inl ⟨rfl, rfl⟩)
  intro inner before hinner
  have hforward : state.position ≤ before.position := by
    rcases hinner with ⟨-, rfl⟩ | ⟨-, hlt⟩
    · exact Nat.le_refl _
    · exact Nat.le_of_lt hlt
  refine (typeSuffix?_wraps start inner).imp fun grown? after h => ?_
  cases grown? with
  | none => exact h ▸ hinner
  | some grown => exact .inr ⟨h.1, Nat.lt_of_le_of_lt hforward h.2⟩

theorem typeSuffixes_isPredefined (start : Nat) {type : TypeSyntax}
    (h : type.isPredefined = false) :
    Ends (grow (typeSuffix? start) type) input state fun grown _ => grown.isPredefined = false := by
  refine (typeSuffixes_wrap start type).imp fun grown after hwrap => ?_
  rcases hwrap with ⟨rfl, -⟩ | ⟨hgrown, -⟩
  · exact h
  · exact hgrown

def KeywordAt (sentence : Sentence) (before : ParseState) (type : TypeSyntax)
    (after : ParseState) : Prop :=
  type.isPredefined =
    ((sentence.kindAt before.position).isPredefinedType &&
      after.position == before.position + 1)

theorem missingType_keyword (h : (input.sentence.kindAt state.position).isPredefinedType = false) :
    Ends missingType input state (KeywordAt input.sentence state) := by
  refine .noteHere (.position (.pure ?_))
  unfold KeywordAt
  rw [h]
  rfl

theorem typeStep_keyword (nested : Parse TypeSyntax) :
    Ends (typeStep nested) input state (KeywordAt input.sentence state) := by
  unfold typeStep
  refine .position (.kind fun kind hkind => ?_)
  have hother : ∀ type : TypeSyntax, type.isPredefined = false → kind.isPredefinedType = false →
      ∀ after, KeywordAt input.sentence state type after := by
    intro type htype hpredefined after
    unfold KeywordAt
    rw [hkind, htype, hpredefined]
    rfl
  split
  · refine (qualifiedName_isPredefined nested).bind fun name after hname => ?_
    exact (typeSuffixes_isPredefined _ hname).imp fun type after htype =>
      hother type htype (by decide) after
  · refine (tupleType_isPredefined nested).bind fun tuple after htuple => ?_
    exact (typeSuffixes_isPredefined _ htuple).imp fun type after htype =>
      hother type htype (by decide) after
  · refine .ite (fun hpredefined => ?_) fun hpredefined => ?_
    · have hinner : input.sentence.kindAt state.position ≠ .eof := by
        rw [hkind]
        rintro rfl
        exact absurd hpredefined (by decide)
      refine .advance hinner (.rangeFrom ((typeSuffixes_wrap _ _).imp fun type after hwrap => ?_))
      unfold KeywordAt
      rw [hkind, hpredefined]
      rcases hwrap with ⟨rfl, rfl⟩ | ⟨htype, hlt⟩
      · simp [TypeSyntax.isPredefined]
      · have hne : after.position ≠ state.position + 1 := Nat.ne_of_gt hlt
        simp [htype, hne]
    · exact missingType_keyword (by rw [hkind]; simpa using hpredefined)

theorem type_keyword : Ends type input state (KeywordAt input.sentence state) := by
  unfold type
  refine .left ?_
  cases hleft : input.sentence.left state.position with
  | zero =>
      have heof := Sentence.kindAt_of_left hleft
      exact missingType_keyword (by rw [heof]; decide)
  | succ n => exact typeStep_keyword _

/-! ## Casts and declarations -/

theorem typeEnd?_of_eof {sentence : Sentence} {index : Nat} (tuples : Nat → Nat)
    (h : sentence.kindAt index = .eof) : sentence.typeEnd? tuples index = none := by
  unfold Sentence.typeEnd?
  cases sentence.left index with
  | zero => rfl
  | succ n =>
      unfold Sentence.typeEndWithin? Sentence.typeEndStep
      rw [h]
      rfl

def castFollow (isKeyword : Bool) : TokenSet :=
  if isKeyword then .expressionStart else .castOperandStart

theorem castClosing_exact (type : TypeSyntax) :
    Ends (do
      match ← eat .rParen with
      | none => return none
      | some _ =>
          let follow := if type.isPredefined then TokenSet.expressionStart else .castOperandStart
          if ← checkAny follow then return some type else return none) input state
      fun type? _ => type?.isSome =
        (input.sentence.kindAt state.position == .rParen &&
          (castFollow type.isPredefined).contains
            (input.sentence.kindAt (state.position + 1))) := by
  refine (eat_ends (by decide)).bind ?_
  rintro closing? after (⟨hclosing, rfl, rfl⟩ | ⟨hclosing, rfl, rfl⟩)
  · rw [hclosing, beq_self_eq_true, Bool.true_and]
    exact .askIf (fun hfollow => .pure hfollow.symm) fun hfollow => .pure hfollow.symm
  · rw [beq_eq_false_iff_ne.mpr hclosing]
    exact .pure rfl

section Tokens

variable (tokens : TokenList) (state : ParseState)

/-- The head of a cast is read to its end exactly if the symbols open a cast. -/
theorem castHead_exact :
    Ends castHead (.ofSentence (.ofTokens tokens)) state fun type? _ =>
      type?.isSome = (mayBeCast (.ofSentence (.ofTokens tokens)) state).1 := by
  unfold castHead mayBeCast Sentence.castAt
  by_cases heof : (Sentence.ofTokens tokens).kindAt state.position = .eof
  · have hbehind : (Sentence.ofTokens tokens).kindAt (state.position + 1) = .eof :=
      Sentence.kindAt_ofTokens_eq_eof.mpr
        (Nat.le_succ_of_le (Sentence.kindAt_ofTokens_eq_eof.mp heof))
    refine (Ends.advance_at_end heof).bind fun _ after hafter => ?_
    subst hafter
    refine (type_follows _ _).bind fun type last htype => ?_
    rw [typeEnd?_of_eof _ heof] at htype
    simp only [Input.ofSentence, typeEnd?_of_eof _ hbehind]
    exact .ite (fun _ => .pure rfl) fun hmissing => absurd htype.1 hmissing
  · refine .advance heof (((type_follows _ _).and type_keyword).bind ?_)
    rintro type after ⟨htype, hkeyword⟩
    simp only [Input.ofSentence, KeywordAt] at htype hkeyword ⊢
    cases hscan : (Sentence.ofTokens tokens).typeEnd? _ (state.position + 1) with
    | none =>
        rw [hscan] at htype
        exact .ite (fun _ => .pure rfl) fun hmissing => absurd htype.1 hmissing
    | some closing =>
        rw [hscan] at htype
        obtain ⟨hmissing, rfl⟩ := htype
        refine .ite (fun h => absurd h (by simp [hmissing])) fun _ => ?_
        refine (castClosing_exact type).imp fun type? last hlast => ?_
        rw [hlast, hkeyword, Bool.and_comm (TokenKind.isPredefinedType _)]
        rfl

end Tokens

theorem typeStart_of_typeEnd? {sentence : Sentence} {tuples : Nat → Nat} {index stop : Nat}
    (h : sentence.typeEnd? tuples index = some stop) :
    TokenSet.typeStart.contains (sentence.kindAt index) = true := by
  rw [TokenSet.contains_typeStart]
  unfold Sentence.typeEnd? at h
  cases hleft : sentence.left index with
  | zero =>
      rw [hleft] at h
      cases h
  | succ n =>
      rw [hleft] at h
      unfold Sentence.typeEndWithin? Sentence.typeEndStep at h
      split at h
      · rename_i hkind
        rw [hkind]
        decide
      · rename_i hkind
        rw [hkind]
        decide
      · split at h
        · rename_i hpredefined
          rw [hpredefined, Bool.true_or]
        · cases h

theorem declaratorFollow_iff (kind : TokenKind) :
    TokenSet.declaratorFollow.contains kind = true ↔ kind ∈ [.eq, .semicolon, .comma] := by
  rw [TokenSet.declaratorFollow, TokenSet.contains_ofList, List.contains_iff_mem]

section Declarations

variable {sentence : Sentence} {stop : Nat}

theorem typeAndName_exact :
    Ends typeAndName (.ofSentence sentence) state fun answer _ =>
      answer = true ↔ ∃ stop, sentence.DeclaresAt state.position stop := by
  refine (type_follows sentence state).bind fun type after htype => ?_
  have hstop : ∀ stop, sentence.DeclaresAt state.position stop ↔
      (type.isMissing = false ∧ after.position = stop) ∧ sentence.kindAt stop = .identifier ∧
        sentence.kindAt (stop + 1) ∈ [.eq, .semicolon, .comma] := by
    intro stop
    rw [← htype.some_iff stop]
    exact ⟨fun h => ⟨h.scanned, h.name, h.follow⟩, fun h => ⟨h.1, h.2.1, h.2.2⟩⟩
  simp only [hstop]
  refine .ask fun isName hname => .ite (fun hboth => ?_) fun hnot => .pure ?_
  all_goals change (sentence.kindAt after.position == .identifier) = isName at hname
  · obtain ⟨hmissing, hname'⟩ : type.isMissing = false ∧
        sentence.kindAt after.position = .identifier := by simpa [← hname] using hboth
    refine .ask fun next hnext => .pure ?_
    rw [declaratorFollow_iff, ← hnext]
    constructor
    · intro hfollow
      exact ⟨_, ⟨hmissing, rfl⟩, hname', hfollow⟩
    · rintro ⟨stop, ⟨-, rfl⟩, -, hfollow⟩
      exact hfollow
  · simp only [Bool.false_eq_true, false_iff]
    rintro ⟨stop, ⟨hmissing, rfl⟩, hname', -⟩
    exact hnot (by simpa [← hname, hmissing] using hname')

theorem startsDeclaration_exact :
    Ends startsDeclaration (.ofSentence sentence) state fun answer after =>
      (answer = true ↔ ∃ stop, sentence.DeclaresAt state.position stop) ∧ after = state := by
  refine .askIf (fun _ => ⟨typeAndName_exact, rfl⟩) fun hstart => .pure ⟨?_, rfl⟩
  simp only [Bool.false_eq_true, false_iff]
  rintro ⟨stop, hdeclares⟩
  have hyes := typeStart_of_typeEnd? hdeclares.scanned
  exact absurd (hyes.symm.trans hstart) (by decide)

theorem declarators_named (hname : input.sentence.kindAt state.position = .identifier) :
    Ends declarators input state fun decls _ =>
      decls.head?.bind (·.name?) = some state.position := by
  have hfirst : Ends declarator input state fun decl _ => decl.name? = some state.position := by
    refine .expectTaken hname (by decide) (.behind fun eq? after => ?_)
    cases eq? with
    | none => exact .pure rfl
    | some eq => exact .behind fun _ _ => .pure rfl
  refine .left ?_
  cases input.sentence.left state.position with
  | zero => exact hfirst.bind fun decl after hdecl => .pure hdecl
  | succ n =>
      refine hfirst.bind fun decl after hdecl => .behind fun comma? last => ?_
      cases comma? with
      | none => exact .pure hdecl
      | some comma => exact .behind fun _ _ => .pure hdecl

theorem localDeclaration_named (h : sentence.DeclaresAt state.position stop) :
    Ends localDeclaration (.ofSentence sentence) state fun decl _ => decl.NamedAt stop := by
  have hstart := typeStart_of_typeEnd? h.scanned
  have hne : ∀ kind ∈ [.readonlyKw, .refKw, .constKw],
      (Input.ofSentence sentence).sentence.kindAt state.position ≠ kind := by
    have hothers : ∀ kind ∈ [.readonlyKw, .refKw, .constKw],
        TokenSet.typeStart.contains kind = false := by
      simp only [TokenSet.contains_typeStart]
      decide
    rintro kind hkind rfl
    exact absurd ((hothers _ hkind).symm.trans hstart) (by decide)
  have hmodifier : ∀ modifier set, ∀ keyword ∈ [.readonlyKw, .refKw, .constKw],
      Ends (eatModifier modifier keyword set) (.ofSentence sentence) state fun _ after =>
        after = state :=
    fun modifier set keyword hkeyword => (eat_declines (hne keyword hkeyword)).bind (.pure rfl)
  have hqualifier : Declines refQualifier? (.ofSentence sentence) state := by
    have hreadonly := hne .readonlyKw (by decide)
    refine .askIf (fun hyes => ?_) fun _ => .checkIf (fun hyes => ?_) fun _ => .pure ⟨rfl, rfl⟩
    · exact absurd hyes (by simp [hreadonly])
    · exact absurd hyes (hne .refKw (by decide))
  have htype : Ends type (.ofSentence sentence) state fun type after =>
      (type.isMissing = false ∧ type.isByRef = false ∧ type.range.stop = stop) ∧
        after.position = stop := by
    refine (((type_follows sentence state).and (type_builds state)).and (type_covers state)).imp ?_
    rintro type after ⟨⟨hends, -, hbuilt⟩, hplain, -⟩
    obtain ⟨hmissing, hafter⟩ := (hends.some_iff stop).mp h.scanned
    exact ⟨⟨hmissing, hplain, by rw [hbuilt.range, hafter]⟩, hafter⟩
  unfold localDeclaration
  refine (hmodifier _ _ _ (by decide)).bind ?_
  rintro constant _ rfl
  refine hqualifier.bind ((hmodifier _ _ _ (by decide)).bind ?_)
  rintro modifiers _ rfl
  refine htype.bind ?_
  rintro type after ⟨⟨hpresent, hbyValue, hstop⟩, rfl⟩
  refine (declarators_named h.name).bind fun decls last hdecls => .behind fun semicolon? _ => ?_
  exact .pure ⟨hpresent, hbyValue, hstop, hdecls⟩

theorem stmtStep_named (nested : Parse Stmt) (h : sentence.DeclaresAt state.position stop) :
    Ends (stmtStep nested) (.ofSentence sentence) state fun stmt _ =>
      ∃ range decl, stmt = .declaration range decl ∧ decl.NamedAt stop := by
  have hstmt : Ends declarationStmt (.ofSentence sentence) state fun stmt _ =>
      ∃ range decl, stmt = .declaration range decl ∧ decl.NamedAt stop :=
    .position ((localDeclaration_named h).bind fun decl after hdecl =>
      .rangeFrom (.pure ⟨_, decl, rfl, hdecl⟩))
  have hstart := typeStart_of_typeEnd? h.scanned
  unfold stmtStep
  refine .kind fun kind hkind => ?_
  replace hstart : TokenSet.typeStart.contains kind = true := hkind ▸ hstart
  have hexpr := TokenSet.expressionStart_of_typeStart hstart
  rw [TokenSet.contains_typeStart] at hstart
  split
  · exact absurd hstart (by decide)
  · exact absurd hstart (by decide)
  · exact absurd hstart (by decide)
  · exact absurd hstart (by decide)
  · exact absurd hstart (by decide)
  · exact absurd hstart (by decide)
  · exact hstmt
  · exact hstmt
  · exact hstmt
  · refine .ite (fun hnot => ?_) fun _ => startsDeclaration_exact.bind ?_
    · exact absurd hnot (by simp [hexpr])
    · rintro answer _ ⟨hanswer, rfl⟩
      exact .ite (fun _ => hstmt) fun hno => absurd (hanswer.mpr ⟨stop, h⟩) hno

end Declarations

/-! ## Exactness -/

theorem attempt_of_isSome {parse : Parse (Option α)} (h : (parse input state).1.isSome = true) :
    attempt parse input state = parse input state := by
  unfold attempt
  revert h
  rcases parse input state with ⟨_ | value, after⟩
  · nofun
  · exact fun _ => rfl

theorem attempt_of_isNone {parse : Parse (Option α)} (h : (parse input state).1.isSome = false) :
    attempt parse input state = (none, state) := by
  unfold attempt
  revert h
  rcases parse input state with ⟨_ | value, after⟩
  · exact fun _ => rfl
  · nofun

/-- The symbols open a cast exactly if one is read, so a cast that is begun is never given up,
and none is missed.  They start a declaration exactly if the type that is scanned has a name
behind it and `=`, `;` or `,` behind that, and then it is this declaration that is read. -/
theorem symbols_decide (tokens : TokenList) (state : ParseState) (exprs : ExprLevel → Parse Expr)
    (stmts : Parse Stmt) :
    let sentence := Sentence.ofTokens tokens
    let input := Input.ofSentence sentence
    ((mayBeCast input state).1 = true ↔ (castExpr exprs input state).1.isSome = true) ∧
    castExpr? exprs input state =
      (if (mayBeCast input state).1 then castExpr exprs input state else (none, state)) ∧
    castExpr? exprs input state = attempt (castExpr exprs) input state ∧
    ((startsDeclaration input state).1 = true ↔
      ∃ stop, sentence.DeclaresAt state.position stop) ∧
    ∀ stop, sentence.DeclaresAt state.position stop →
      ∃ range decl, (stmtStep stmts input state).1 = .declaration range decl ∧
        decl.NamedAt stop := by
  intro sentence input
  have hcast : (castExpr exprs input state).1.isSome = (mayBeCast input state).1 :=
    (isSome_castExpr exprs input state).trans (castHead_exact tokens state)
  have hasked : castExpr? exprs input state =
      (if (mayBeCast input state).1 then attempt (castExpr exprs) else Pure.pure none)
        input state := rfl
  rw [hasked, ← hcast]
  refine ⟨Iff.rfl, ?_, ?_, startsDeclaration_exact.1, fun stop hdeclares =>
    stmtStep_named stmts hdeclares⟩
  · cases hsome : (castExpr exprs input state).1.isSome with
    | false => rfl
    | true => exact attempt_of_isSome hsome
  · cases hsome : (castExpr exprs input state).1.isSome with
    | false => exact (attempt_of_isNone hsome).symm
    | true => rfl

theorem symbols_decide_cast_and_declaration :
    let kinds : List TokenKind := [.lParen, .intKw, .rParen, .identifier, .semicolon, .intKw,
      .identifier, .semicolon, .eof]
    let tokens : TokenList := ⟨(kinds.map fun kind => Token.bare kind (.point 0)).toArray⟩
    let input := Input.ofSentence (.ofTokens tokens)
    (castExpr exprAt input .start).1.isSome = true ∧
      ∃ range decl,
        (stmtStep stmt input { ParseState.start with position := 5 }).1 =
          .declaration range decl ∧ decl.NamedAt 6 := by
  intro kinds tokens input
  have hcast := (symbols_decide tokens .start exprAt stmt).1
  have hdeclares : (Sentence.ofTokens tokens).DeclaresAt 5 6 :=
    ⟨by decide, by decide, by decide⟩
  refine ⟨hcast.mp (by decide +kernel), ?_⟩
  exact (symbols_decide tokens { ParseState.start with position := 5 } exprAt stmt).2.2.2.2 6
    hdeclares

end Parse
end TolerantSyntax
