import TolerantSyntax.Proofs.Qualifier.Stmt

/-!
# Parts of members have plain types

The types of parameters and the bases of a class have no qualifier.  Only the modifiers of an
accessor may end between a `readonly` and a `ref`, and what is skipped from there on ends at
the next accessor.
-/

namespace TolerantSyntax.Parse

variable {input : Input} {state : ParseState} {place : Nat}

theorem typeParameters?_steady : Steady typeParameters? input place fun _ => True := by
  unfold typeParameters?
  refine (eat_steady (by decide)).bind fun lt? _ => ?_
  cases lt? with
  | none => exact .pure trivial
  | some lt =>
      refine (separated_steady (expect_steady (by decide))).bind fun params _ => ?_
      exact (expect_steady (by decide)).bind fun gt? _ => .pure trivial

theorem parameter_steady :
    Steady parameter input place fun parameter => input.sentence.Plain parameter.nodes := by
  unfold parameter
  refine (advanceAny_steady (by simp [TokenSet.parameterModifiers])).bind fun modifier? _ => ?_
  refine type_steady.bind fun type htype => (expect_steady (by decide)).bind fun name? _ => ?_
  refine .skip (synchronize_steady (by simp [TokenSet.parameterRecovery]))
    ((eat_steady (by decide)).bind fun eq? _ => ?_)
  cases eq? with
  | none => exact .pure htype
  | some eq => exact expr_steady.bind fun value hvalue => .pure (htype.append hvalue)

theorem parametersWithin_steady (n : Nat) :
    Steady (parametersWithin n) input place fun params =>
      input.sentence.Plain (params.flatMap (·.nodes)) := by
  induction n with
  | zero => exact .pure .nil
  | succ n ih =>
      unfold parametersWithin
      refine parameter_steady.bind fun first hfirst => (eat_steady (by decide)).bind
        fun comma? _ => ?_
      have hsingle : input.sentence.Plain ([first].flatMap (·.nodes)) := by simpa using hfirst
      cases comma? with
      | none => exact .pure hsingle
      | some comma =>
          refine .ask fun starts => .ite (fun _ => ?_) fun _ => .noteHere (.pure hsingle)
          exact ih.bind fun rest hrest => .pure (hfirst.append hrest)

theorem parameterList_steady {opening closing : TokenKind} (hopening : opening ≠ .readonlyKw)
    (hclosing : closing ≠ .readonlyKw) :
    Steady (parameterList opening closing) input place fun list =>
      input.sentence.Plain list.nodes := by
  have hparams : ∀ starts : Bool,
      Steady (if starts then (do parametersWithin (← left)) else pure []) input place
        fun params => input.sentence.Plain (params.flatMap (·.nodes)) :=
    fun starts => .ite (fun _ => .left parametersWithin_steady) fun _ => .pure .nil
  unfold parameterList
  refine (expect_steady hopening).bind fun opening? _ => .ask fun starts => ?_
  refine (hparams starts).join fun params hparams => ?_
  exact (expect_steady hclosing).bind fun closing? _ => .pure hparams

theorem roundParameters_steady :
    Steady roundParameters input place fun list => input.sentence.Plain list.nodes :=
  parameterList_steady nofun nofun

theorem arrowBody_kept (hclear : input.sentence.Clear place state.position)
    (hkind : input.sentence.kindAt state.position = .arrow) :
    Ends arrowBody input state
      (Kept input place fun body => input.sentence.Plain [.expr body.expr]) := by
  unfold arrowBody
  refine .noteHere (.onward (advance_kept hclear (by simp [hkind])) fun arrow _ => ?_)
  refine expr_steady.bind fun expr hexpr => ?_
  exact (expect_steady (by decide)).bind fun semicolon? _ => .pure hexpr

theorem memberBody_steady :
    Steady memberBody input place fun body => input.sentence.Plain body.nodes := by
  unfold memberBody
  refine .kind fun state kind hclear hkind => ?_
  split
  · exact .map (block_kept hclear hkind)
  · exact .map (arrowBody_kept hclear hkind)
  · refine .map ((expect_steady (by decide) state hclear).imp fun _ _ h => ?_)
    exact ⟨.nil, h.2⟩

theorem keywordModifiers_forward :
    Ends (many keywordModifier?) input state fun _ after => state.position ≤ after.position := by
  refine many_ends (fun _ after => state.position ≤ after.position) ?_ (Nat.le_refl _)
  intro entries before hbefore
  unfold keywordModifier?
  refine .kind fun kind hkind => ?_
  split
  · exact .pure hbefore
  · rename_i modifier hmodifier
    have heof : input.sentence.kindAt before.position ≠ .eof := by
      rw [hkind]
      rintro rfl
      cases hmodifier
    exact .advance heof (.pure (Nat.le_succ_of_le hbefore))

theorem accessor?_steady :
    SteadySome accessor? input place fun accessor =>
      input.sentence.Plain accessor.body.nodes := by
  intro state hclear
  unfold accessor?
  refine keywordModifiers_forward.bind fun entries before hforward => ?_
  have hle : place ≤ before.position := Nat.le_trans hclear.le hforward
  refine .askIf (fun hkeyword => ?_) fun _ => .noteHere ?_
  · have hkind : input.sentence.kindAt before.position = .identifier := by
      simp [Sentence.accessorKeywordAt] at hkeyword
      exact hkeyword.1
    have hbefore : input.sentence.Clear place before.position :=
      .of_kind hle (by rw [hkind]; decide)
    refine (advance_kept hbefore (by simp [hkind])).onward fun keyword _ => ?_
    refine memberBody_steady.bind fun body hbody => .pure ?_
    rintro _ ⟨⟩
    exact hbody
  · have hboundary : input.sentence.Clear place
        (input.sentence.accessorBoundary before.position) :=
      Sentence.accessorBoundaryWithin_clear 0 hle (Nat.le_refl _)
    exact .onward (moveTo_kept hboundary) fun _ _ => .pure (by simp)

theorem propertyBody_steady :
    Steady propertyBody input place fun body => input.sentence.Plain body.nodes := by
  have hitem : SteadySome (unlessClosed accessor?) input place fun accessor? =>
      ∀ accessor ∈ accessor?, input.sentence.Plain accessor.body.nodes :=
    whenever_steady fun state hclear _ => accessor?_steady state hclear
  unfold propertyBody
  refine .checkIf (fun state hclear harrow => ?_) ?_
  · exact (arrowBody_kept hclear harrow).onward fun body hbody => .pure hbody
  · refine (braced_steady nofun (many_steady hitem)).bind ?_
    rintro ⟨opening?, accessors, closing?⟩ haccessors
    refine .pure (.flatMap fun accessor hmem => ?_)
    exact haccessors _ (List.reduceOption_mem_iff.mp hmem) _ rfl

theorem clauseType_steady : SteadyTypes clauseType input place := by
  unfold clauseType
  refine type_steady.bind fun type htype => ?_
  exact .skip (synchronize_steady (by decide)) (.pure htype)

theorem baseTypes_steady :
    Steady baseTypes input place fun bases => input.sentence.Plain (bases.map .type) := by
  unfold baseTypes
  refine (eat_steady (by decide)).bind fun colon? _ => ?_
  cases colon? with
  | none => exact .pure .nil
  | some colon => exact (separated_steady clauseType_steady).imp fun bases hbases => .map hbases

end TolerantSyntax.Parse
