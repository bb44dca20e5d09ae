import TolerantSyntax.Proofs.Builds.Expr
import TolerantSyntax.Proofs.Keeps.Basic

/-!
# Expressions that bind no operand

The parts of a plain expression stand between symbols of its own, so it says nothing about
them: it is as good as told whatever they are.  Only the expressions inside it have to be kept
good.
-/

namespace TolerantSyntax

/-- Whether an expression is complete in itself: no operator, no suffix, no cast, and no type
arguments. -/
def Expr.isPlain : Expr → Bool
  | literal .. | name .. | thisRef .. | baseRef .. | predefinedType .. | parenthesized ..
  | tuple .. | newObject .. | newArray .. | arrayInitializer .. | defaultValue .. | typeOf ..
  | throwExpr .. | missing .. => true
  | _ => false

theorem InfixOp.width_pos (op : InfixOp) : 0 < op.width := by
  cases op with
  | binary op => cases op <;> decide
  | isTest | asTest => decide

namespace Sentence

variable {sentence : Sentence} {index : Nat}

theorem infixAt?_of_eof (h : sentence.kindAt index = .eof) : sentence.infixAt? index = none := by
  have hshift : sentence.shiftAt index = false := by simp [shiftAt, h]
  simp [infixAt?, hshift, h, BinaryOp.ofKind?]

theorem lt_size_of_infixAt? {op : InfixOp} (h : sentence.infixAt? index = some op) :
    index < sentence.size := by
  apply lt_size_of_kindAt
  intro heof
  rw [infixAt?_of_eof heof] at h
  cases h

end Sentence

namespace Parse

variable {good result : Expr → Prop} {bound : Nat} {input : Input} {nested : ExprLevel → Parse Expr}
  (hnested : ∀ level, Keeps good bound input (nested level))

namespace Keeps

theorem typeArguments? : Keeps good bound input typeArguments? :=
  of_gives typeArguments?_builds fun args? => by
    cases args? with
    | none => rfl
    | some args =>
        have hargs : Layout.exprsOf args.parts = [] := by
          rw [args.reveals.exprsOf_eq, Layout.exprsOf_eq_flatMap]
          simp [TypeArguments.nodes, Node.layout]
        simpa using hargs

include hnested

theorem argument : Keeps good bound input (argument nested) :=
  (whenever (ask _) advance).bind fun _ => (hnested .full).bind fun _ => .pure _

theorem argumentsBehind (closing : TokenKind) (opening : Nat) : Keeps good bound input (do
    let args ← if ← check closing then Pure.pure [] else Parse.separated (Parse.argument nested)
    let closing? ← Parse.expect closing
    return ArgumentList.mk opening args closing?) := by
  have hrest : ∀ args, Keeps good bound input (do
      let closing? ← Parse.expect closing
      return ArgumentList.mk opening args closing?) :=
    fun _ => (expect _).bind fun _ => .pure _
  exact (ask _).bind fun _ =>
    .ite (hrest _) ((separated (argument hnested)).bind fun _ => hrest _)

theorem argumentList (closing : TokenKind) : Keeps good bound input (argumentList nested closing) :=
  advance.bind (argumentsBehind hnested closing)

theorem initializerElement : Keeps good bound input (initializerElement nested) :=
  (ask _).bind fun _ => hnested _

theorem sizedRank : Keeps good bound input (sizedRank nested) := by
  have hrank : Keeps good bound input arrayRank :=
    advance.bind fun _ => (many (eat _)).bind fun _ => (expect _).bind fun _ => .pure _
  refine (ask _).bind fun _ => .ite (hrank.bind fun _ => .pure _) ?_
  exact advance.bind fun _ => (separated (hnested _)).bind fun _ => (expect _).bind fun _ => .pure _

omit hnested in
theorem of_within {level : ExprLevel} (h : ∀ n, Keeps good n input (exprWithin n level)) :
    Keeps good bound input (exprAt level) := by
  intro state hstate
  refine .left ((h _ state ⟨Nat.le_refl _, hstate.good⟩).imp fun _ after hafter => ?_)
  exact ⟨Nat.le_trans hafter.left hstate.left, hafter.good⟩

end Keeps

theorem moveTo_behind {op : InfixOp} {state : ParseState}
    (hstate : state.All good (bound + 1) input)
    (hop : input.sentence.infixAt? state.position = some op) :
    Ends (moveTo fun _ index => index + op.width) input state fun _ after =>
      after.All good bound input ∧ state.position < after.position := by
  have hforward := Nat.lt_add_of_pos_right (n := state.position) op.width_pos
  exact ⟨hstate.behind (Sentence.lt_size_of_infixAt? hop) hforward, hforward⟩

theorem castHead?_all {state : ParseState} (hinput : input.sentence.Unbroken)
    (hstate : state.All good (bound + 1) input) :
    Ends castHead? input state fun type? after =>
      match type? with
      | none => after.All good (bound + 1) input
      | some _ => after.All good bound input := by
  have hhead : Ends castHead input state fun _ after => after.All good bound input := by
    refine (advance_all hinput hstate).bind fun _ after hafter => Keeps.ends ?_ hafter
    refine Keeps.type.bind fun type => .ite (.pure _) ((Keeps.eat _).bind fun closing? => ?_)
    cases closing? with
    | none => exact .pure _
    | some closing => exact (Keeps.ask _).bind fun _ => .ite (.pure _) (.pure _)
  have hanswer : Ends mayBeCast input state fun _ after => after = state := rfl
  refine hanswer.bind ?_
  rintro answer _ rfl
  refine .ite (fun _ => attempt_ends (hhead.imp fun type? after hafter => ?_)) fun _ => .pure hstate
  cases type? with
  | none => exact hstate
  | some type => exact hafter

namespace KeepsWith

variable (hinput : input.sentence.Unbroken)
  (hplain : ∀ expr, expr.isPlain = true → good expr ∧ result expr)

section Plain

omit hnested
include hplain

theorem completePlain {start : Nat} {make : ExprInfo → Expr}
    (hmake : ∀ info, (make info).isPlain = true) :
    KeepsWith good bound input result (Parse.complete start make) :=
  complete (fun info => (hplain _ (hmake info)).1) fun info => (hplain _ (hmake info)).2

theorem single {make : ExprInfo → Nat → Expr}
    (hmake : ∀ info token, (make info token).isPlain = true) :
    KeepsWith good bound input result (single make) :=
  (Keeps.ask _).bindWith fun _ => Keeps.advance.bindWith fun _ =>
    completePlain hplain (hmake · _)

theorem missingExpr : KeepsWith good bound input result missingExpr :=
  (Keeps.noteHere _).bindWith fun _ => (Keeps.ask _).bindWith fun _ =>
    completePlain hplain fun _ => rfl

theorem typeOf : KeepsWith good bound input result typeOf :=
  (Keeps.ask _).bindWith fun _ => Keeps.advance.bindWith fun _ => (Keeps.expect _).bindWith fun _ =>
    Keeps.type.bindWith fun _ => (Keeps.expect _).bindWith fun _ =>
    completePlain hplain fun _ => rfl

theorem defaultValue : KeepsWith good bound input result defaultValue := by
  refine (Keeps.ask _).bindWith fun _ => Keeps.advance.bindWith fun _ =>
    (Keeps.eat _).bindWith fun opening? => ?_
  cases opening? with
  | none => exact completePlain hplain fun _ => rfl
  | some opening =>
      exact Keeps.type.bindWith fun _ => (Keeps.expect _).bindWith fun _ =>
        completePlain hplain fun _ => rfl

end Plain

include hnested hinput hplain

theorem arrayInitializer : KeepsWith good (bound + 1) input result (arrayInitializer nested) :=
  (Keeps.ask _).bindWith fun _ => behind hinput fun _ =>
    (Keeps.listed (Keeps.initializerElement hnested) _).bindWith fun _ =>
    (Keeps.expect _).bindWith fun _ => completePlain hplain fun _ => rfl

theorem parenthesized : KeepsWith good (bound + 1) input result (parenthesized nested) := by
  refine (Keeps.ask _).bindWith fun _ => behind hinput fun _ =>
    (hnested _).bindWith fun _ => (Keeps.eat _).bindWith fun comma? => ?_
  cases comma? with
  | none => exact (Keeps.expect _).bindWith fun _ => completePlain hplain fun _ => rfl
  | some comma =>
      exact (Keeps.note _).bindWith fun _ => (Keeps.separated (hnested _)).bindWith fun _ =>
        (Keeps.expect _).bindWith fun _ => completePlain hplain fun _ => rfl

theorem throwExpr : KeepsWith good (bound + 1) input result (throwExpr nested) :=
  (Keeps.ask _).bindWith fun _ => (Keeps.noteHere _).bindWith fun _ => behind hinput fun _ =>
    (hnested _).bindWith fun _ => completePlain hplain fun _ => rfl

theorem creation : KeepsWith good (bound + 1) input result (creation nested) := by
  have hitems : Keeps good bound input (Parse.whenever (check .lBrace) (nested .initializer)) :=
    .whenever (.ask _) (hnested _)
  unfold Parse.creation
  refine (Keeps.ask _).bindWith fun _ => behind hinput fun _ =>
    Keeps.type.bindWith fun type => (Keeps.ask _).bindWith fun _ => .ite ?_ ?_
  · exact (Keeps.many (.whenever (.ask _) (Keeps.sizedRank hnested))).bindWith fun _ =>
      hitems.bindWith fun _ => completePlain hplain fun _ => rfl
  · split
    · refine hitems.bindWith fun _ => .ite ?_ (completePlain hplain fun _ => rfl)
      exact (Keeps.noteHere _).bindWith fun _ => completePlain hplain fun _ => rfl
    · refine (Keeps.whenever (.ask _) (Keeps.argumentList hnested _)).bindWith fun _ =>
        hitems.bindWith fun _ => .ite ?_ (completePlain hplain fun _ => rfl)
      exact (Keeps.noteHere _).bindWith fun _ => completePlain hplain fun _ => rfl

theorem primary (hname : KeepsWith good (bound + 1) input result Parse.name) :
    KeepsWith good (bound + 1) input result (primary nested) := by
  unfold Parse.primary
  refine (Keeps.ask _).bindWith fun kind => ?_
  split
  · exact hname
  · exact single hplain fun _ _ => rfl
  · exact single hplain fun _ _ => rfl
  · exact parenthesized hnested hinput hplain
  · exact creation hnested hinput hplain
  · exact defaultValue hplain
  · exact typeOf hplain
  · exact throwExpr hnested hinput hplain
  · exact .ite (single hplain fun _ _ => rfl)
      (.ite (single hplain fun _ _ => rfl) (missingExpr hplain))

end KeepsWith
end Parse
end TolerantSyntax
