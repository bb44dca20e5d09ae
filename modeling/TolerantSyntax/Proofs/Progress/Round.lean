import TolerantSyntax.Proofs.Progress.Loop
import TolerantSyntax.Proofs.Progress.Production
import TolerantSyntax.Proofs.Recovery.Skipping

/-!
# The loops of the grammar

Every round takes a symbol or declines.  For statements and accessors this says that they take a
symbol wherever they are asked for, and a list of members skips what takes none.
-/

namespace TolerantSyntax

theorem Sentence.lt_accessorBoundary {sentence : Sentence} {index : Nat}
    (heof : sentence.kindAt index ≠ .eof) (hbrace : sentence.kindAt index ≠ .rBrace)
    (hkeyword : sentence.accessorKeywordAt index = false) :
    index < sentence.accessorBoundary index := by
  have hfresh := sentence.not_behindSemicolon index
  have hfirst : FirstAt (sentence.OrEnd (sentence.EndsAccessor index)) index
      (sentence.accessorBoundary index) (index + sentence.left index) :=
    accessorBoundaryWithin_first _ (.refl _ _) hfresh
  refine Nat.lt_of_le_of_ne hfirst.le fun hstop => ?_
  rw [← hstop] at hfirst
  rcases hfirst.ends with hend | hat | hends
  · have hsize := lt_size_of_kindAt heof
    unfold left at hend
    omega
  · exact heof hat
  · exact not_endsAccessor hfresh (fun _ => ⟨hbrace, hkeyword⟩) hends

namespace Parse

variable {α β : Type} {input : Input} {state : ParseState}

/-- A symbol is taken unless the item declines. -/
def Takes (item : Parse (Option α)) (input : Input) (state : ParseState) : Prop :=
  Ends item input state fun value? after => value?.isSome = true → state.position < after.position

theorem advance_moves (hkind : input.sentence.kindAt state.position ≠ .eof) :
    Ends advance input state fun _ after => state.position < after.position :=
  (advance_covers hkind).imp fun _ _ h => by omega

theorem moves_behind {first : Parse α} {next : α → Parse β}
    (h : Ends first input state fun _ after => state.position < after.position)
    (hnext : ∀ value, Scripted fun _ => next value) :
    Ends (first >>= next) input state fun _ after => state.position < after.position :=
  h.bind fun value after hmoved => Nat.lt_of_lt_of_le hmoved ((hnext value).onward .none after)

def Moves (parse : Parse α) (input : Input) : Prop :=
  ∀ state, input.sentence.kindAt state.position ≠ .eof →
    input.sentence.kindAt state.position ≠ .rBrace →
      Ends parse input state fun _ after => state.position < after.position

namespace Takes

theorem declined : Takes (pure none : Parse (Option α)) input state := nofun

theorem moved {item : Parse (Option α)}
    (h : Ends item input state fun _ after => state.position < after.position) :
    Takes item input state := fun _ => h

theorem behind {first : Parse α} {next : α → Parse (Option β)}
    (h : Ends first input state fun _ after => state.position < after.position)
    (hnext : ∀ value, Scripted fun _ => next value) : Takes (first >>= next) input state :=
  moved (moves_behind h hnext)

theorem completed {first : Parse α} {start : Nat} {make : α → ExprInfo → Expr}
    (h : Ends first input state fun _ after => state.position < after.position) :
    Takes (first >>= fun value => complete start (make value) >>= fun longer => pure (some longer))
      input state :=
  behind h fun _ => (Scripted.complete _ _).bind fun _ => .pure _

end Takes

/-! ## Rounds -/

namespace Round

theorem whenever {question : Sentence → Nat → Bool} {parse : Parse α}
    (honward : Onward (whenever (ask question) parse) input)
    (htakes : ∀ state, question input.sentence state.position = true →
      Ends parse input state fun _ after => state.position < after.position)
    (hended : ∀ index, input.sentence.kindAt index = .eof →
      question input.sentence index = false) :
    Round (Parse.whenever (ask question) parse) input where
  onward := honward
  takes state := whenever_ends (fun hyes => (htakes state hyes).imp fun _ _ h _ => h) fun _ => nofun
  ended state hleft := by
    have hno := hended state.position (Sentence.kindAt_of_left hleft)
    exact whenever_ends (fun hyes => absurd (hyes.symm.trans hno) (by decide)) fun _ => ⟨rfl, rfl⟩

theorem eat {kind : TokenKind} (hkind : kind ≠ .eof) : Round (Parse.eat kind) input where
  onward := (Scripted.eat kind).onward .none
  takes state := by
    refine (eat_ends hkind).imp ?_
    rintro token? after (⟨-, rfl, rfl⟩ | ⟨-, rfl, rfl⟩)
    · exact fun _ => Nat.lt_succ_self _
    · exact nofun
  ended _ := eat_ended hkind

theorem arrayRank? : Round Parse.arrayRank? input :=
  .whenever (Scripted.arrayRank?.onward .none)
    (fun _ hrank => (arrayRank_covers (by simp [Sentence.kindAt_of_rankAt hrank])).imp
      fun _ _ h => h.1)
    fun index hkind => Sentence.rankAt_of_ne (by simp [hkind])

theorem typeSuffix? (start : Nat) (type : TypeSyntax) :
    Round (Parse.typeSuffix? start type) input where
  onward := (Scripted.typeSuffix? start type).onward .none
  takes state := by
    have hrest : ∀ make : TokenRange → TypeSyntax,
        Scripted fun _ => rangeFrom start >>= fun range => pure (some (make range)) :=
      fun _ => (Scripted.ask _).bind fun _ => .pure _
    unfold Parse.typeSuffix?
    refine .kind fun kind hkind => ?_
    split
    · exact .ite (fun _ => Takes.declined) fun _ =>
        Takes.behind (advance_moves (by simp [hkind])) fun _ => hrest _
    · exact Takes.behind (advance_moves (by simp [hkind])) fun _ => hrest _
    · refine arrayRanks_covers.bind ?_
      rintro ranks after ⟨-, -, hmoved, -⟩
      cases ranks with
      | nil => exact .pure nofun
      | cons rank ranks => exact .rangeFrom (.pure fun _ => hmoved nofun)
    · exact Takes.declined
  ended state hleft := by
    unfold Parse.typeSuffix?
    refine .kind fun kind hkind => ?_
    obtain rfl := hkind.symm.trans (Sentence.kindAt_of_left hleft)
    exact .pure ⟨rfl, rfl⟩

theorem segment? {nested : Parse TypeSyntax} (hnested : Scripted fun _ => nested) (start : Nat)
    (left : TypeSyntax) : Round (Parse.segment? nested start left) input where
  onward := (Scripted.segment? hnested start left).onward .none
  takes state := by
    unfold Parse.segment?
    refine .askIf (fun hsegment => ?_) fun _ => Takes.declined
    have hkind : input.sentence.kindAt state.position ≠ .eof := by
      intro heof
      simp [heof] at hsegment
    exact Takes.behind (advance_moves hkind) fun _ =>
      (Scripted.simpleName hnested).bind fun _ => (Scripted.ask _).bind fun _ => .pure _
  ended state hleft := by
    have hkind := Sentence.kindAt_of_left hleft
    unfold Parse.segment?
    exact .askIf (fun hsegment => by simp [hkind] at hsegment) fun _ => .pure ⟨rfl, rfl⟩

section Exprs

variable {nested : ExprLevel → Parse Expr} (hnested : ∀ level, Scripted fun _ => nested level)
include hnested

theorem argumentList_moves (closing : TokenKind)
    (hkind : input.sentence.kindAt state.position ≠ .eof) :
    Ends (argumentList nested closing) input state fun _ after =>
      state.position < after.position :=
  (argumentList_stepped (fun level _ _ _ => .shared (hnested level)) closing hkind
    (Nat.le_succ _)).moved

theorem exprSuffix? (start : Nat) (expr : Expr) :
    Round (Parse.exprSuffix? nested start expr) input where
  onward := (Scripted.exprSuffix? hnested start expr).onward .none
  takes state := by
    unfold Parse.exprSuffix?
    refine .kind fun kind hkind => ?_
    split
    · refine Takes.behind (advance_moves (by simp [hkind])) fun dot => ?_
      have hrest : ∀ name? args?, Scripted fun _ => complete start (fun info =>
          .memberAccess info expr dot name? args?) >>= fun longer => pure (some longer) :=
        fun _ _ => (Scripted.complete _ _).bind fun _ => .pure _
      exact (Scripted.expect _).bind fun name? =>
        .ite (Scripted.typeArguments?.bind fun _ => hrest _ _) (hrest _ _)
    · exact Takes.completed (argumentList_moves hnested _ (by simp [hkind]))
    · exact Takes.completed (argumentList_moves hnested _ (by simp [hkind]))
    · split
      · rename_i op hop
        have hplain := hkind ▸ StepOp.isPlain_of_ofKind? hop
        exact Takes.completed (advance_moves (TokenKind.ne_of_isPlain hplain).1)
      · exact Takes.declined
  ended state hleft := by
    unfold Parse.exprSuffix?
    refine .kind fun kind hkind => ?_
    obtain rfl := hkind.symm.trans (Sentence.kindAt_of_left hleft)
    exact .pure ⟨rfl, rfl⟩

theorem infixStep? (start least : Nat) (left : Expr) :
    Round (Parse.infixStep? nested start least left) input where
  onward := (Scripted.infixStep? hnested start least left).onward .none
  takes state := by
    unfold Parse.infixStep?
    refine .ask fun op? hop => ?_
    cases op? with
    | none => exact Takes.declined
    | some op =>
        refine .ite (fun _ => Takes.declined) fun _ => ?_
        have hmove : Ends (moveTo fun _ index => index + op.width) input state fun _ after =>
            state.position < after.position := Nat.lt_add_of_pos_right op.width_pos
        refine Takes.behind hmove fun _ => ?_
        cases op with
        | binary op =>
            exact (hnested _).bind fun _ => (Scripted.complete _ _).bind fun _ => .pure _
        | isTest | asTest =>
            exact Scripted.type.bind fun _ => (Scripted.complete _ _).bind fun _ => .pure _
  ended state hleft := by
    have hkind := Sentence.kindAt_of_left hleft
    unfold Parse.infixStep?
    refine .ask fun op? hop => ?_
    have hnone : input.sentence.infixAt? state.position = none := by
      simp [Sentence.infixAt?, Sentence.shiftAt, hkind, BinaryOp.ofKind?]
    obtain rfl := hop.symm.trans hnone
    exact .pure ⟨rfl, rfl⟩

theorem sizedRank? :
    Round (Parse.whenever (check .lBracket) (sizedRank nested)) input := by
  refine .whenever ((Scripted.whenever (.ask _) (.sizedRank hnested)).onward .none)
    (fun state hbracket => ?_) fun index hkind => by simp [hkind]
  have hkind : input.sentence.kindAt state.position = .lBracket := by simpa using hbracket
  unfold sizedRank
  refine .askIf (fun _ => ?_) fun _ => ?_
  · refine moves_behind ?_ fun _ => .pure _
    exact (arrayRank_covers (by simp [hkind])).imp fun _ _ h => h.1
  · exact moves_behind (advance_moves (by simp [hkind])) fun _ =>
      (Scripted.separated (hnested _)).bind fun _ => (Scripted.expect _).bind fun _ => .pure _

end Exprs

theorem modifierEntry? : Round Parse.modifierEntry? input where
  onward := Scripted.modifierEntry?.onward .none
  takes state := by
    unfold Parse.modifierEntry?
    refine .ask fun modifier? hmodifier => ?_
    cases modifier? with
    | none => exact Takes.declined
    | some modifier =>
        exact Takes.behind (advance_moves (modifierAt?_ne_eof hmodifier)) fun _ => .pure _
  ended state hleft := by
    have hkind := Sentence.kindAt_of_left hleft
    unfold Parse.modifierEntry?
    refine .ask fun modifier? hmodifier => ?_
    cases modifier? with
    | none => exact .pure ⟨rfl, rfl⟩
    | some modifier => exact absurd hkind (modifierAt?_ne_eof hmodifier)

theorem keywordModifier? : Round Parse.keywordModifier? input where
  onward := Scripted.keywordModifier?.onward .none
  takes state := by
    unfold Parse.keywordModifier?
    refine .kind fun kind hkind => ?_
    split
    · exact Takes.declined
    · rename_i modifier hmodifier
      have hne := kind_ne_eof_of_keyword hmodifier
      exact Takes.behind (advance_moves (hkind ▸ hne)) fun _ => .pure _
  ended state hleft := by
    unfold Parse.keywordModifier?
    refine .kind fun kind hkind => ?_
    obtain rfl := hkind.symm.trans (Sentence.kindAt_of_left hleft)
    exact .pure ⟨rfl, rfl⟩

end Round

theorem stmtWithin_moves (n : Nat) (hkind : input.sentence.kindAt state.position ≠ .eof) :
    Ends (stmtWithin n) input state fun _ after => state.position < after.position :=
  (stmtWithin_collects n state).imp fun _ _ h => h.moves hkind

theorem stmt_moves (hkind : input.sentence.kindAt state.position ≠ .eof) :
    Ends stmt input state fun _ after => state.position < after.position :=
  .left (stmtWithin_moves _ hkind)

theorem accessor?_moves : Moves accessor? input := by
  intro state heof hbrace
  have hmodifiers : Ends (many keywordModifier?) input state fun _ after =>
      after.position = state.position ∨ state.position < after.position := by
    have honward : Onward (many keywordModifier?) input :=
      (Scripted.many Scripted.keywordModifier?).onward .none
    exact (Nat.eq_or_lt_of_le (honward state)).imp_left Eq.symm
  unfold accessor?
  refine hmodifiers.bind fun entries after₁ hentries => ?_
  refine .askIf (fun hkeyword => ?_) fun hkeyword => .noteHere ?_
  · have hkind : input.sentence.kindAt after₁.position ≠ .eof := by
      intro heof
      simp [Sentence.accessorKeywordAt, heof] at hkeyword
    refine (moves_behind (advance_moves hkind) fun _ => ?_).imp fun _ _ h => by omega
    exact Scripted.memberBody.bind fun _ => .pure _
  · -- Skipping may stop at once, but only behind a modifier.
    have hboundary : state.position < input.sentence.accessorBoundary after₁.position := by
      rcases hentries with hat | hmoved
      · rw [hat] at hkeyword ⊢
        exact Sentence.lt_accessorBoundary heof hbrace hkeyword
      · exact Nat.lt_of_lt_of_le hmoved (Sentence.accessorBoundaryWithin_bounds _ 0 _).1
    have hmove : Ends (moveTo Sentence.accessorBoundary) input
        { after₁ with findings := .accessorExpected after₁.position :: after₁.findings }
        fun _ after => state.position < after.position := hboundary
    exact hmove.bind fun _ after hmoved => .pure hmoved

theorem someMember_moves {nested : ParseContext → Parse (List Member)}
    (hnested : ∀ context, Reads (nested context) input memberPieces) (context : ParseContext)
    (hkind : input.sentence.kindAt state.position ≠ .eof) :
    Ends (someMember nested context) input state fun _ after =>
      state.position < after.position :=
  (someMember_covers hnested hkind context).imp fun _ _ h => h.1

namespace Round

theorem unlessClosed {parse : Parse α} (honward : Onward (Parse.unlessClosed parse) input)
    (h : Moves parse input) : Round (Parse.unlessClosed parse) input := by
  refine .whenever honward (fun state hopen => ?_) fun index hkind => by simp [hkind]
  obtain ⟨hbrace, heof⟩ : input.sentence.kindAt state.position ≠ .rBrace ∧
      input.sentence.kindAt state.position ≠ .eof := by simpa using hopen
  exact h state heof hbrace

theorem stmt : Round (Parse.unlessClosed Parse.stmt) input :=
  unlessClosed ((Scripted.unlessClosed .stmt).onward .none) fun _ heof _ => stmt_moves heof

theorem accessor? : Round (Parse.unlessClosed Parse.accessor?) input :=
  unlessClosed ((Scripted.unlessClosed .accessor?).onward .none) accessor?_moves

theorem someMember {nested : ParseContext → Parse (List Member)} (hscript : Scripted nested)
    (hnested : ∀ context, Reads (nested context) input memberPieces) (context : ParseContext) :
    Round (Parse.whenever (hasMember context) (Parse.someMember nested context)) input := by
  refine .whenever ((Scripted.whenever .hasMember (.someMember hscript)).onward context)
    (fun state hhas => ?_) fun index hkind => by simp [hkind]
  have hkind : input.sentence.kindAt state.position ≠ .eof := by
    intro heof
    simp [heof] at hhas
  exact someMember_moves hnested context hkind

end Round

/-! ## All loops -/

/-- The loops of the grammar. -/
inductive Loop : {κ β : Type} → Recursion κ β → Prop where
  | members (context : ParseContext) :
      Loop (.many (whenever (hasMember context) (someMember members context)))
  | stmts : Loop (.many (unlessClosed stmt))
  | accessors : Loop (.many (unlessClosed accessor?))
  | modifiers : Loop (.many modifierEntry?)
  | accessorModifiers : Loop (.many keywordModifier?)
  | ranks : Loop (.many arrayRank?)
  | dimensions : Loop (.many (eat .comma))
  | sizedRanks : Loop (.many (whenever (check .lBracket) (sizedRank exprAt)))
  | typeSuffixes (start : Nat) : Loop (.grow (typeSuffix? start))
  | segments (start : Nat) : Loop (.grow (segment? type start))
  | exprSuffixes (start : Nat) : Loop (.grow (exprSuffix? exprAt start))
  | infixes (start least : Nat) : Loop (.grow (infixStep? exprAt start least))
  | elements (named : Bool) : Loop (.separated (elementType type named))
  | arguments : Loop (.separated (argument exprAt))
  | exprs : Loop (.separated expr)
  | typeParameters : Loop (.separated (expect .identifier))
  | baseTypes : Loop (.separated clauseType)
  | declarators : Loop (.separated declarator)
  | initializer : Loop (.listed (initializerElement exprAt) .rBrace)
  | parameters : Loop .parameters

theorem Loop.terminates {κ β : Type} {loop : Recursion κ β} (h : Loop loop) :
    loop.Terminates input := by
  refine Recursion.Rising.terminates ?_
  cases h with
  | members context =>
      exact (Round.someMember .members
        (fun context state => .left (membersWithin_covers _ context state)) context).many
  | stmts => exact Round.stmt.many
  | accessors => exact Round.accessor?.many
  | modifiers => exact Round.modifierEntry?.many
  | accessorModifiers => exact Round.keywordModifier?.many
  | ranks => exact Round.arrayRank?.many
  | dimensions => exact (Round.eat (by decide)).many
  | sizedRanks => exact (Round.sizedRank? Scripted.exprAt).many
  | typeSuffixes start => exact Round.grow fun type => .typeSuffix? start type
  | segments start => exact Round.grow fun left => .segment? .type start left
  | exprSuffixes start => exact Round.grow fun expr => .exprSuffix? Scripted.exprAt start expr
  | infixes start least => exact Round.grow fun left => .infixStep? Scripted.exprAt start least left
  | elements named => exact ((Scripted.elementType .type named).onward .none).separated
  | arguments => exact ((Scripted.argument Scripted.exprAt).onward .none).separated
  | exprs => exact ((Scripted.exprAt .full).onward .none).separated
  | typeParameters => exact ((Scripted.expect _).onward .none).separated
  | baseTypes => exact (Scripted.clauseType.onward .none).separated
  | declarators => exact (Scripted.declarator.onward .none).separated
  | initializer => exact ((Scripted.initializerElement Scripted.exprAt).onward .none).listed _
  | parameters => exact parameters_rising

end Parse
end TolerantSyntax
