import TolerantSyntax.Proofs.Committed.Type
import TolerantSyntax.Proofs.Diagnostics
import TolerantSyntax.Proofs.Keeps.Member

/-!
# Readings that are committed to

A cast stays when its type is there and a `)` behind it, and type arguments stay when their `>`
is there.  Nobody looks at what recovery did inside of them.  So they have artefacts exactly if
no well-formed type and no well-formed arguments stand there.
-/

namespace TolerantSyntax

namespace Expr

def speculated : Expr → List Piece
  | cast _ type _ => type.pieces
  | genericName _ _ args | memberAccess _ _ _ _ (some args) => args.pieces
  | _ => []

/-- The outermost token that closes what the expression was committed to is there. -/
def Confirmed (sentence : Sentence) : Expr → Prop
  | cast _ type _ => type.isMissing = false ∧ sentence.kindAt type.range.stop = .rParen
  | genericName _ _ args | memberAccess _ _ _ _ (some args) => args.gt?.isSome = true
  | _ => True

/-- Something well-formed stands where the expression was committed to it. -/
def Founded (sentence : Sentence) (word : Nat → Spelling) : Expr → Prop
  | cast _ type _ => sentence.TypeAt word type.range.start
  | genericName _ _ args | memberAccess _ _ _ _ (some args) => sentence.ArgumentsAt word args.lt
  | _ => True

/-- What the expression was committed to is closed, and has no artefacts exactly if it is
well-formed. -/
structure Committed (sentence : Sentence) (word : Nat → Spelling) (expr : Expr) : Prop where
  confirmed : expr.Confirmed sentence
  sound_iff : Piece.Sound expr.speculated ↔ expr.Founded sentence word

def isSpeculative : Expr → Bool
  | cast .. | genericName .. | memberAccess _ _ _ _ (some _) => true
  | _ => false

theorem Committed.of_plain {sentence : Sentence} {word : Nat → Spelling} {expr : Expr}
    (h : expr.isSpeculative = false) : expr.Committed sentence word := by
  cases expr with
  | cast | genericName => cases h
  | memberAccess _ _ _ _ args? =>
      cases args? with
      | some args => cases h
      | none => exact ⟨trivial, iff_of_true Piece.sound_nil trivial⟩
  | _ => exact ⟨trivial, iff_of_true Piece.sound_nil trivial⟩

theorem Committed.of_isPlain {sentence : Sentence} {word : Nat → Spelling} {expr : Expr}
    (h : expr.isPlain = true) : expr.Committed sentence word := by
  refine .of_plain ?_
  cases expr <;> first | rfl | cases h

theorem Committed.memberAccess {sentence : Sentence} {word : Nat → Spelling}
    {args? : Option TypeArguments} (h : ∀ args ∈ args?, args.gt?.isSome = true ∧
      (Piece.Sound args.pieces ↔ sentence.ArgumentsAt word args.lt))
    (info : ExprInfo) (receiver : Expr) (dot : Nat) (name? : Option Nat) :
    (Expr.memberAccess info receiver dot name? args?).Committed sentence word := by
  cases args? with
  | none => exact .of_plain rfl
  | some args => exact ⟨(h args rfl).1, (h args rfl).2⟩

end Expr

theorem Sentence.names_ofTokens (source : String) (tokens : TokenList) :
    (ofTokens tokens).Names fun index => (Finding.tokenAt tokens index).spelling source := by
  intro index hkind
  have hindex := lt_size_of_kindAt hkind
  rw [size_ofTokens] at hindex
  exact (Finding.kindAt_inner hindex).symm

namespace Parse

variable {bound : Nat} {input : Input} {word : Nat → Spelling} {state : ParseState}
  {nested : ExprLevel → Parse Expr} (hnames : input.sentence.Names word)
include hnames

theorem typeArguments?_committed :
    Ends typeArguments? input state fun args? _ => ∀ args ∈ args?,
      args.gt?.isSome = true ∧
        (Piece.Sound args.pieces ↔ input.sentence.ArgumentsAt word args.lt) := by
  unfold typeArguments?
  refine .checkIf (fun hlt => attempt_ends ?_) fun _ => .pure nofun
  unfold confirmedArguments
  refine (typeArguments_sound_iff hnames hlt).bind fun args after hsound => ?_
  refine .ask fun follows _ => .ite (fun hyes => .pure ?_) fun _ => .pure nofun
  rintro _ ⟨⟩
  rw [Bool.and_eq_true] at hyes
  exact ⟨hyes.1, hsound⟩

theorem castHead?_committed :
    Ends castHead? input state fun type? _ => ∀ type ∈ type?,
      (type.isMissing = false ∧ input.sentence.kindAt type.range.stop = .rParen) ∧
        (Piece.Sound type.pieces ↔ input.sentence.TypeAt word type.range.start) := by
  have hhead : Ends castHead input state fun type? _ => ∀ type ∈ type?,
      (type.isMissing = false ∧ input.sentence.kindAt type.range.stop = .rParen) ∧
        (Piece.Sound type.pieces ↔ input.sentence.TypeAt word type.range.start) := by
    unfold castHead
    refine .behind fun _ before => ?_
    refine ((type_sound_iff hnames).and (type_builds before)).bind ?_
    rintro type after ⟨hsound, -, hbuilt⟩
    refine .ite (fun _ => .pure nofun) fun hpresent => ?_
    refine (eat_ends (by decide)).bind ?_
    rintro closing? after₁ (⟨hclosing, rfl, rfl⟩ | ⟨-, rfl, rfl⟩)
    · refine .ask fun follows _ => .ite (fun _ => .pure ?_) fun _ => .pure nofun
      rintro _ ⟨⟩
      rw [hbuilt.range]
      exact ⟨⟨by simpa using hpresent, hclosing⟩, hsound hclosing⟩
    · exact .pure nofun
  have hanswer : Ends mayBeCast input state fun _ after => after = state := rfl
  refine hanswer.bind ?_
  rintro answer _ rfl
  refine .ite (fun _ => attempt_ends (hhead.imp fun type? after h => ?_)) fun _ => .pure nofun
  cases type? with
  | none => exact h
  | some type => exact h

theorem name_committed : Keeps (Expr.Committed input.sentence word) bound input name := by
  unfold name
  refine (Keeps.ask _).bind fun _ => Keeps.advance.bind fun _ => fun state hstate => ?_
  refine ((Keeps.typeArguments? state hstate).and (typeArguments?_committed hnames)).bind ?_
  rintro args? after ⟨hafter, hargs⟩
  cases args? with
  | none => exact Keeps.complete (fun _ => .of_plain rfl) after hafter
  | some args =>
      obtain ⟨hclosed, hsound⟩ := hargs args rfl
      exact Keeps.complete (fun _ => ⟨hclosed, hsound⟩) after hafter

section Nested

variable (hinput : input.sentence.Unbroken)
  (hnested : ∀ level, Keeps (Expr.Committed input.sentence word) bound input (nested level))
include hinput hnested

theorem exprSuffix?_committed (start : Nat) (expr : Expr) :
    Keeps (Expr.Committed input.sentence word) (bound + 1) input
      (exprSuffix? nested start expr) := by
  have hargs : ∀ closing, Keeps (Expr.Committed input.sentence word) (bound + 1) input
      (argumentList nested closing) :=
    fun closing => .behind hinput (Keeps.argumentsBehind hnested closing)
  have hgrown {make : ExprInfo → Expr} (h : ∀ info, (make info).Committed input.sentence word) :
      Keeps (Expr.Committed input.sentence word) (bound + 1) input do
        return some (← complete start make) :=
    (Keeps.complete h).bind fun _ => .pure _
  unfold exprSuffix?
  refine (Keeps.ask _).bind fun kind => ?_
  split
  · refine Keeps.advance.bind fun dot => (Keeps.expect _).bind fun name? => .ite ?_ ?_
    · intro state hstate
      refine ((Keeps.typeArguments? state hstate).and (typeArguments?_committed hnames)).bind ?_
      exact fun args? after hargs => hgrown (fun _ => .memberAccess hargs.2 ..) after hargs.1
    · exact fun state hstate => .pureBind (hgrown (fun _ => .of_plain rfl) state hstate)
  · exact (hargs _).bind fun _ => hgrown fun _ => .of_plain rfl
  · exact (hargs _).bind fun _ => hgrown fun _ => .of_plain rfl
  · split
    · exact Keeps.advance.bind fun _ => hgrown fun _ => .of_plain rfl
    · exact .pure _

theorem suffixed_committed :
    Keeps (Expr.Committed input.sentence word) (bound + 1) input (suffixed nested) := by
  have hprimary : KeepsWith (Expr.Committed input.sentence word) (bound + 1) input (fun _ => True)
      (primary nested) :=
    .primary hnested hinput (fun _ hplain => ⟨.of_isPlain hplain, trivial⟩)
      fun state hstate => (name_committed hnames state hstate).imp fun _ _ h => ⟨h, trivial⟩
  unfold suffixed
  refine (Keeps.ask _).bind fun start => hprimary.keeps.bind fun first => ?_
  exact .grow (exprSuffix?_committed hnames hinput hnested start) first

theorem unary_committed :
    Keeps (Expr.Committed input.sentence word) (bound + 1) input (unary nested) := by
  have hsuffixed := suffixed_committed hnames hinput hnested
  unfold unary
  refine (Keeps.ask _).bind fun start => (Keeps.ask _).bind fun kind => ?_
  split
  · exact (Keeps.noteHere _).bind fun _ => .behind hinput fun _ =>
      (hnested .unary).bind fun _ => .complete fun _ => .of_plain rfl
  · intro state hstate
    refine ((castHead?_all hinput hstate).and (castHead?_committed hnames)).bind ?_
    rintro type? after ⟨hafter, htype⟩
    cases type? with
    | none => exact hsuffixed after hafter
    | some type =>
        obtain ⟨hconfirmed, hsound⟩ := htype type rfl
        have hcast : Keeps (Expr.Committed input.sentence word) bound input (do
            let operand ← nested .unary
            complete start fun info => .cast info type operand) :=
          (hnested .unary).bind fun operand => .complete fun _ => ⟨hconfirmed, hsound⟩
        exact (hcast after hafter).imp fun _ _ hlast => hlast.weaken
  · split
    · exact .behind hinput fun _ => (hnested .unary).bind fun _ => .complete fun _ => .of_plain rfl
    · exact hsuffixed

omit hnames hinput in
theorem infixStep?_committed (start least : Nat) (left : Expr) :
    Keeps (Expr.Committed input.sentence word) (bound + 1) input
      (infixStep? nested start least left) := by
  intro state hstate
  unfold infixStep?
  refine .ask fun op? hop => ?_
  cases op? with
  | none => exact .pure hstate
  | some op =>
      refine .ite (fun _ => .pure hstate) fun _ => ?_
      refine (moveTo_behind hstate hop).bind fun _ after ⟨hmoved, _⟩ => ?_
      refine (Keeps.ends ?_ hmoved).imp fun _ _ hlast => hlast.weaken
      cases op with
      | isTest | asTest =>
          exact Keeps.type.bind fun _ => (Keeps.complete fun _ => .of_plain rfl).bind fun _ =>
            .pure _
      | binary op =>
          exact (hnested _).bind fun _ => (Keeps.complete fun _ => .of_plain rfl).bind fun _ =>
            .pure _

theorem binary_committed (least : Nat) :
    Keeps (Expr.Committed input.sentence word) (bound + 1) input (binary nested least) := by
  unfold binary
  refine (Keeps.ask _).bind fun start =>
    (unary_committed hnames hinput hnested).bind fun first => ?_
  exact .grow (infixStep?_committed hnested start least) first

theorem conditional_committed :
    Keeps (Expr.Committed input.sentence word) (bound + 1) input (conditional nested) := by
  unfold conditional
  refine (Keeps.ask _).bind fun start => (binary_committed hnames hinput hnested 1).bind ?_
  intro condition state hstate
  refine (eat_ends (by decide)).bind ?_
  rintro question? after (⟨hyes, rfl, rfl⟩ | ⟨-, rfl, rfl⟩)
  · have hlt := Sentence.lt_size_of_kindAt (by rw [hyes]; decide)
    refine (Keeps.ends ?_ (hstate.behind hlt (Nat.lt_succ_self _))).imp fun _ _ h => h.weaken
    exact (hnested .full).bind fun _ => (Keeps.expect _).bind fun _ => (hnested .full).bind fun _ =>
      .complete fun _ => .of_plain rfl
  · exact .pure hstate

theorem assignment_committed :
    Keeps (Expr.Committed input.sentence word) (bound + 1) input (assignment nested) := by
  unfold assignment
  refine (Keeps.ask _).bind fun start => (conditional_committed hnames hinput hnested).bind ?_
  refine fun target => (Keeps.ask _).bind fun kind => ?_
  split
  · exact .pure _
  · exact .behind hinput fun _ => (hnested .full).bind fun _ => .complete fun _ => .of_plain rfl

theorem exprStep_committed (level : ExprLevel) :
    Keeps (Expr.Committed input.sentence word) (bound + 1) input (exprStep nested level) := by
  cases level with
  | full => exact assignment_committed hnames hinput hnested
  | binary least => exact binary_committed hnames hinput hnested least
  | unary => exact unary_committed hnames hinput hnested
  | initializer =>
      have hinitializer : KeepsWith (Expr.Committed input.sentence word) (bound + 1) input
          (fun _ => True) (arrayInitializer nested) :=
        .arrayInitializer hnested hinput fun _ hplain => ⟨.of_isPlain hplain, trivial⟩
      exact hinitializer.keeps

end Nested

theorem exprWithin_committed (hinput : input.sentence.Unbroken) (n : Nat) (level : ExprLevel) :
    Keeps (Expr.Committed input.sentence word) n input (exprWithin n level) := by
  induction n generalizing level with
  | zero =>
      have hmissing : KeepsWith (Expr.Committed input.sentence word) 0 input (fun _ => True)
          missingExpr := .missingExpr fun _ hplain => ⟨.of_isPlain hplain, trivial⟩
      exact hmissing.keeps
  | succ n ih => exact exprStep_committed hnames hinput ih level

theorem exprAt_committed (hinput : input.sentence.Unbroken) (level : ExprLevel) :
    Keeps (Expr.Committed input.sentence word) bound input (exprAt level) :=
  .of_within fun n => exprWithin_committed hnames hinput n level

end Parse

namespace SyntaxTree

/-- In every tree, whatever a cast or a name was committed to is closed, and it has artefacts
exactly if nothing well-formed stands there. -/
theorem ofText_committed (source : String) (version : LanguageVersion) :
    ∀ expr ∈ (ofText source version).exprs.toList,
      expr.Committed (.ofTokens (lex source).tokens)
        fun index => (Finding.tokenAt (lex source).tokens index).spelling source := by
  rw [ofText_exprs]
  generalize (lex source).tokens = tokens
  have hnames : (Input.ofSentence (.ofTokens tokens)).sentence.Names
      fun index => (Finding.tokenAt tokens index).spelling source :=
    Sentence.names_ofTokens source tokens
  have hkeeps : Parse.Keeps _ (Sentence.ofTokens tokens).size _ Parse.compilationUnit :=
    .compilationUnit fun level =>
      Parse.exprAt_committed hnames (Sentence.unbroken_ofTokens tokens) level
  exact (hkeeps .start ⟨Nat.le_refl _, nofun⟩).good

theorem ofText_committed_cast :
    ∃ expr ∈ (ofText "class C { object f = (List<int>)x; }" .v7_1).exprs.toList,
      expr.isSpeculative = true ∧
        expr.Founded (.ofTokens (lex "class C { object f = (List<int>)x; }").tokens) fun index =>
          (Finding.tokenAt (lex "class C { object f = (List<int>)x; }").tokens index).spelling
            "class C { object f = (List<int>)x; }" := by
  have hcast : ∃ expr ∈ (ofText "class C { object f = (List<int>)x; }" .v7_1).exprs.toList,
      expr.isSpeculative = true ∧ Piece.Sound expr.speculated := by decide +kernel
  obtain ⟨expr, hmem, hspeculative, hsound⟩ := hcast
  exact ⟨expr, hmem, hspeculative, (ofText_committed _ _ expr hmem).sound_iff.mp hsound⟩

/-- A comparison that is called is read as a cast to `a<b` without its `>`, and two comparisons
are read as the arguments of a generic name, a tuple type of one element and a name. -/
theorem ofText_committed_comparisons :
    (¬∀ expr ∈ (ofText "class C { object f = (a < b)(c); }" .v7_1).exprs.toList,
      Piece.Sound expr.speculated) ∧
    ¬∀ expr ∈ (ofText "class C { object f = M(x < (y), z > (w)); }" .v7_1).exprs.toList,
      Piece.Sound expr.speculated := by
  constructor <;> decide +kernel

end SyntaxTree
end TolerantSyntax
