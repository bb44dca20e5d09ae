import TolerantSyntax.Proofs.RoundTrip.Sequence
import TolerantSyntax.Proofs.RoundTrip.TypeTerm

/-!
# Elements and names are read back

Given that the types inside them are read back, so are the elements of tuples and of type
arguments, and names.  The token behind an element never goes on with its type: it is the name
of the element, a comma, or what closes the list.
-/

namespace TolerantSyntax.Parse

variable {n : Nat} {input : Input} {word : Nat → Spelling} {state : ParseState}
  {nested : Parse TypeSyntax} {type : TypeTerm} {stop : Nat}

def TypeBack (word : Nat → Spelling) (type : TypeTerm) : Nat → ParseState → TypeSyntax →
    ParseState → Prop :=
  Back fun tree => tree.term? word = some type

def RestoresTypes (n : Nat) (input : Input) (word : Nat → Spelling) (nested : Parse TypeSyntax) :
    Prop :=
  ∀ (type : TypeTerm) (state : ParseState) (stop : Nat), type.WellFormed →
    input.sentence.Tells word state.position type.signs →
    stop = state.position + type.signs.length → input.sentence.left state.position ≤ n →
    type.EndsAt input.sentence stop → Ends nested input state (TypeBack word type stop state)

theorem not_qualifierAt_of_head {kind : TokenKind} {index : Nat}
    (hkind : input.sentence.kindAt index = kind)
    (h : kind = .identifier ∨ kind = .lParen ∨ kind.isPredefinedType = true) :
    input.sentence.qualifierAt index = false ∧ kind ≠ .refKw ∧ kind ≠ .eof := by
  have hnone : ∀ kind ∈ TokenKind.all,
      kind = .identifier ∨ kind = .lParen ∨ kind.isPredefinedType = true →
      kind ≠ .refKw ∧ kind ≠ .readonlyKw ∧ kind ≠ .eof := by decide
  obtain ⟨href, hreadonly, heof⟩ := hnone kind kind.mem_all h
  refine ⟨?_, href, heof⟩
  unfold Sentence.qualifierAt
  rw [hkind]
  split <;> first | contradiction | rfl

def closesElements : TokenKind → Bool
  | .comma | .gt | .rParen => true
  | _ => false

theorem closesElements_ends {kind : TokenKind} (h : closesElements kind = true) :
    kind.continuesType = false ∧ kind ≠ .identifier := by
  unfold closesElements at h
  split at h <;> first | decide | cases h

theorem terms_of_forall₂ {elements : List ElementTerm} {trees : List ElementType}
    (h : List.Forall₂ (fun element tree => tree.term? word = some element) elements trees) :
    elementTerms? word trees = some elements := by
  induction h with
  | nil => rfl
  | cons htree _ ih => simp [elementTerms?, htree, ih]

theorem length_of_terms {elements : List ElementTerm} {trees : List ElementType}
    (h : elementTerms? word trees = some elements) : trees.length = elements.length := by
  induction trees generalizing elements with
  | nil =>
      cases h
      rfl
  | cons tree rest ih =>
      simp only [elementTerms?, Option.pure_def, Option.bind_eq_bind, Option.bind_eq_some_iff,
        Option.some.injEq] at h
      obtain ⟨element, -, elements, hrest, rfl⟩ := h
      rw [List.length_cons, List.length_cons, ih hrest]

theorem elementSigns_eq (elements : List ElementTerm) :
    elementSigns elements = elements.flatMap fun element => .fixed .comma :: element.signs := by
  induction elements with
  | nil => rfl
  | cons next rest ih => rw [elementSigns, ih, List.flatMap_cons, List.cons_append]

theorem elementSigns_cons (element : ElementTerm) (rest : List ElementTerm) :
    (elementSigns (element :: rest)).tail =
      element.signs ++ rest.flatMap fun element => .fixed .comma :: element.signs := by
  rw [elementSigns, List.tail_cons, elementSigns_eq]

section Nested

variable (hnested : RestoresTypes n input word nested)
include hnested

theorem element_back {named : Bool} {element : ElementTerm} (hterm : element.type.WellFormed)
    (hname : element.name? = none ∨ named = true)
    (htells : input.sentence.Tells word state.position element.signs)
    (hstop : stop = state.position + element.signs.length)
    (hn : input.sentence.left state.position ≤ n)
    (hcloses : closesElements (input.sentence.kindAt stop) = true) :
    Ends (elementType nested named) input state
      (Back (fun tree => tree.term? word = some element) stop state) := by
  obtain ⟨type, name?⟩ := element
  rw [ElementTerm.signs] at htells hstop
  obtain ⟨htype, hbehind⟩ := Sentence.tells_append.mp htells
  obtain ⟨hqualifier, href, -⟩ := not_qualifierAt_of_head rfl (hterm.head htype)
  -- Behind the type comes its name, or what ends the element.
  have hends : type.EndsAt input.sentence (state.position + type.signs.length) := by
    refine .of_kind ?_
    cases name? with
    | none =>
        simp only [Option.toList_none, List.map_nil, List.append_nil] at hstop
        rw [← hstop]
        exact (closesElements_ends hcloses).1
    | some name =>
        have hkind : input.sentence.kindAt (state.position + type.signs.length) = .identifier :=
          hbehind.kind
        rw [hkind]
        rfl
  unfold elementType
  refine .position (.ask fun answer hanswer => ?_)
  obtain rfl : answer = false := hanswer.symm.trans hqualifier
  refine .pureBind (.position ((eat_declines href).bind ?_))
  refine .skip (· = state) (fun hyes => by cases hyes) (fun _ => rfl) ?_
  rintro _ rfl
  refine (hnested type _ _ hterm htype rfl hn hends).bind fun tree after htree => ?_
  have hread : Ends (if named = true then eat .identifier else pure none) input after
      (Back (fun token? => token?.map (fun token => (word token).text) = name?) stop after) := by
    cases name? with
    | none =>
        simp only [Option.toList_none, List.map_nil, List.append_nil] at hstop
        have hposition : after.position = stop := htree.position.trans hstop.symm
        refine .ite (fun _ => ?_) fun _ => .pure ⟨rfl, hposition, .of_findings rfl⟩
        refine Ends.imp (eat_declines ?_) ?_
        · rw [hposition]
          exact (closesElements_ends hcloses).2
        · rintro _ _ ⟨rfl, rfl⟩
          exact ⟨rfl, hposition, .of_findings rfl⟩
    | some name =>
        obtain rfl : named = true := hname.resolve_left (by simp [ElementTerm.name?])
        have hkind : input.sentence.kindAt after.position = .identifier := by
          rw [htree.position]
          exact hbehind.kind
        have htext : (word after.position).text = name := by
          rw [htree.position]
          exact hbehind.1.2.2 rfl
        rw [if_pos rfl]
        refine (eat_ends (by decide)).imp ?_
        rintro _ _ (⟨-, rfl, rfl⟩ | ⟨hno, -, -⟩)
        · refine ⟨congrArg some htext, ?_, .of_findings rfl⟩
          simp only [Option.toList_some, List.map_cons, List.map_nil, List.length_append,
            List.length_singleton] at hstop
          simp only [htree.position, hstop, Nat.add_assoc]
        · exact absurd hkind hno
  refine .join hread fun token? last hlast => .rangeFrom (.pure ?_)
  refine ⟨?_, hlast.position, htree.quiet.trans hlast.quiet⟩
  simp [ElementType.term?, htree.reads, hlast.reads]

theorem elements_back {named : Bool} {elements : List ElementTerm} {closing : TokenKind}
    (hclosing : closing = .gt ∨ closing = .rParen) (hsome : elements ≠ [])
    (hterms : ∀ element ∈ elements, element.type.WellFormed)
    (hnames : ∀ element ∈ elements, element.name? = none ∨ named = true)
    (htells : input.sentence.Tells word state.position
      ((elementSigns elements).tail ++ [.fixed closing]))
    (hn : input.sentence.left state.position ≤ n) :
    Ends (separated (elementType nested named)) input state
      (Back (fun trees => elementTerms? word trees = some elements)
        (state.position + (elementSigns elements).tail.length) state) := by
  have hclose : input.sentence.kindAt (state.position + (elementSigns elements).tail.length) =
      closing := (Sentence.tells_append.mp htells).2.kind
  have hlast : input.sentence.kindAt (state.position + (elementSigns elements).tail.length) ≠
      .comma := by
    rw [hclose]
    rcases hclosing with rfl | rfl <;> decide
  obtain ⟨element, rest, rfl⟩ := List.exists_cons_of_ne_nil hsome
  rw [elementSigns_cons, List.append_assoc] at htells
  have hlisted := Sentence.Listed.of_signs
    (fun _ _ _ => Sentence.tells_append.mp) (fun _ _ _ => Sentence.Tells.kind)
    (Nat.le_refl state.position) htells
  rw [← List.length_append, ← elementSigns_cons] at hlisted
  have hitem : ∀ value ∈ element :: rest, ∀ before after,
      state.position ≤ before.position ∧
        input.sentence.Tells word before.position value.signs ∧
        after = before.position + value.signs.length ∧
        (input.sentence.kindAt after = .comma ∨ input.sentence.kindAt after = closing) →
      Ends (elementType nested named) input before
        (Back (fun tree => tree.term? word = some value) after before) := by
    rintro value hmem before after ⟨hfirst, hvalue, hstop, hbehind⟩
    refine element_back hnested (hterms value hmem) (hnames value hmem) hvalue hstop ?_ ?_
    · unfold Sentence.left at hn ⊢
      omega
    · rcases hbehind with h | h <;> rw [h]
      · rfl
      · rcases hclosing with rfl | rfl <;> rfl
  exact (separated_back hitem hlast hlisted).imp fun trees after h =>
    ⟨terms_of_forall₂ h.reads, h.position, h.quiet⟩

theorem typeArguments_back {args : List ElementTerm} (hsome : args ≠ [])
    (hterms : ∀ arg ∈ args, arg.type.WellFormed) (hnames : ∀ arg ∈ args, arg.name? = none)
    (htells : input.sentence.Tells word state.position
      (.fixed .lt :: ((elementSigns args).tail ++ [.fixed .gt])))
    (hn : input.sentence.left state.position ≤ n + 1) :
    Ends (typeArguments nested) input state
      (Back (fun got => elementTerms? word got.args = some args ∧ got.gt?.isSome = true)
        (state.position + ((elementSigns args).tail.length + 2)) state) := by
  have hlt : input.sentence.kindAt state.position = .lt := htells.kind
  have hgt : input.sentence.kindAt (state.position + 1 + (elementSigns args).tail.length) = .gt :=
    (Sentence.tells_append.mp htells.tail).2.kind
  have hargs : Ends (separated (elementType nested false)) input
      { state with position := state.position + 1 }
      (Back (fun trees => elementTerms? word trees = some args)
        (state.position + 1 + (elementSigns args).tail.length)
        { state with position := state.position + 1 }) :=
    elements_back hnested (.inl rfl) hsome hterms (fun arg hmem => .inl (hnames arg hmem))
      htells.tail (by unfold Sentence.left at hn ⊢; dsimp only; omega)
  unfold typeArguments
  refine .advance (by simp [hlt]) (hargs.bind fun trees after htrees => ?_)
  rw [← htrees.position] at hgt
  refine .expectTaken hgt (by decide) (.pure ⟨⟨htrees.reads, rfl⟩, ?_, htrees.quiet⟩)
  simp only [htrees.position]
  omega

theorem tupleType_back {elements : List ElementTerm} (hterm : (TypeTerm.tuple elements).WellFormed)
    (htells : input.sentence.Tells word state.position (TypeTerm.tuple elements).signs)
    (hn : input.sentence.left state.position ≤ n + 1) :
    Ends (tupleType nested) input state
      (TypeBack word (.tuple elements) (state.position + (TypeTerm.tuple elements).signs.length)
        state) := by
  cases hterm with
  | tuple hlong hterms =>
  have hopening : input.sentence.kindAt state.position = .lParen := htells.kind
  have hclosing : input.sentence.kindAt
      (state.position + 1 + (elementSigns elements).tail.length) = .rParen :=
    (Sentence.tells_append.mp htells.tail).2.kind
  have hsome : elements ≠ [] := by
    rintro rfl
    simp at hlong
  let noted : ParseState :=
    ⟨state.position + 1, .uses .tuples state.position :: state.findings, state.exprs⟩
  have helements : Ends (separated (elementType nested true)) input noted
      (Back (fun trees => elementTerms? word trees = some elements)
        (state.position + 1 + (elementSigns elements).tail.length) noted) :=
    elements_back hnested (.inr rfl) hsome hterms (fun _ _ => .inr rfl) htells.tail
      (by unfold Sentence.left at hn ⊢; dsimp only [noted]; omega)
  have hquiet : Quiet state noted := ⟨[state.position], rfl⟩
  unfold tupleType
  refine .position (.noteHere (.advance (by simp [hopening]) (helements.bind ?_)))
  intro trees after htrees
  rw [← htrees.position] at hclosing
  refine .expectTaken hclosing (by decide) ?_
  refine .skip (· = { after with position := after.position + 1 }) (fun hshort => ?_)
    (fun _ => rfl) ?_
  · exact absurd hshort (Nat.not_lt.mpr (length_of_terms htrees.reads ▸ hlong))
  · rintro _ rfl
    refine .rangeFrom (.pure ⟨?_, ?_, hquiet.trans htrees.quiet⟩)
    · simp [TypeSyntax.term?, htrees.reads]
    · simp only [TypeTerm.signs, List.length_cons, List.length_append, List.length_nil,
        htrees.position]
      omega

/-! ## Names -/

theorem simpleName_back (hterm : type.WellFormed) (hsimple : type.isSimple = true)
    (htells : input.sentence.Tells word state.position type.signs)
    (hn : input.sentence.left state.position ≤ n + 1)
    (hlt : type.isUnargued = true →
      input.sentence.kindAt (state.position + type.signs.length) ≠ .lt) :
    Ends (simpleName nested) input state
      (TypeBack word type (state.position + type.signs.length) state) := by
  unfold simpleName
  cases hterm with
  | named name =>
      have hkind : input.sentence.kindAt state.position = .identifier := htells.kind
      have htext : (word state.position).text = name := htells.1.2.2 rfl
      refine .position (.advance (by simp [hkind]) ?_)
      refine .checkIf (fun hyes => absurd hyes (hlt rfl)) fun _ => ?_
      exact .rangeFrom (.pure ⟨by simp [TypeSyntax.term?, htext], rfl, .of_findings rfl⟩)
  | @generic name args hsome hargs hnames =>
      have hkind : input.sentence.kindAt state.position = .identifier := htells.kind
      have htext : (word state.position).text = name := htells.1.2.2 rfl
      have hlt : input.sentence.kindAt (state.position + 1) = .lt := htells.tail.kind
      have hback : Ends (typeArguments nested) input { state with position := state.position + 1 }
          (Back (fun got => elementTerms? word got.args = some args ∧ got.gt?.isSome = true)
            (state.position + 1 + ((elementSigns args).tail.length + 2))
            { state with position := state.position + 1 }) :=
        typeArguments_back hnested hsome hargs hnames htells.tail
          (by unfold Sentence.left at hn ⊢; dsimp only; omega)
      refine .position (.advance (by simp [hkind]) ?_)
      refine .checkIf (fun _ => ?_) fun hno => absurd hlt hno
      refine hback.bind fun got after hgot => .rangeFrom (.pure ⟨?_, ?_, hgot.quiet⟩)
      · obtain ⟨gt, hgt⟩ := Option.isSome_iff_exists.mp hgot.reads.2
        simp [TypeSyntax.term?, htext, hgt, hgot.reads.1]
      · rw [hgot.position]
        simp only [TypeTerm.signs, List.length_cons, List.length_append, List.length_nil]
        omega
  | _ => cases hsimple

theorem segment?_back {left right : TypeTerm} {first : Nat} {before : ParseState}
    {tree : TypeSyntax} (hleft : TypeBack word left state.position before tree state)
    (hright : right.WellFormed) (hsimple : right.isSimple = true)
    (htells : input.sentence.Tells word state.position (.fixed .dot :: right.signs))
    (hn : input.sentence.left state.position ≤ n + 1)
    (hlt : right.isUnargued = true →
      input.sentence.kindAt (state.position + 1 + right.signs.length) ≠ .lt) :
    Ends (segment? nested first tree) input state
      (Given (TypeBack word (.qualified left right) (state.position + 1 + right.signs.length)
        before)) := by
  have hdot : input.sentence.kindAt state.position = .dot := htells.kind
  have hname : input.sentence.kindAt (state.position + 1) = .identifier := by
    cases hright with
    | named | generic => exact htells.tail.kind
    | _ => cases hsimple
  have hback : Ends (simpleName nested) input { state with position := state.position + 1 }
      (TypeBack word right (state.position + 1 + right.signs.length)
        { state with position := state.position + 1 }) :=
    simpleName_back hnested hright hsimple htells.tail
      (by unfold Sentence.left at hn ⊢; dsimp only; omega) hlt
  unfold segment?
  refine .askIf (fun _ => ?_) fun hno => ?_
  · refine .advance (by simp [hdot]) (hback.bind fun segment after hsegment => ?_)
    refine .rangeFrom (.pure ⟨_, rfl, ?_, hsegment.position, hleft.quiet.trans hsegment.quiet⟩)
    simp [TypeSyntax.term?, hleft.reads, hsegment.reads]
  · simp [hdot, hname] at hno

theorem qualifiedName_leads (hterm : type.WellFormed) (hname : type.isName = true)
    (htells : input.sentence.Tells word state.position type.signs)
    (hn : input.sentence.left state.position ≤ n + 1)
    (hlt : type.isUnargued = true →
      input.sentence.kindAt (state.position + type.signs.length) ≠ .lt) :
    Leads (qualifiedName nested) (segment? nested state.position) input state
      (TypeBack word type (state.position + type.signs.length) state) := by
  have hfirst {type : TypeTerm} (h : Ends (simpleName nested) input state
      (TypeBack word type (state.position + type.signs.length) state)) :
      Leads (qualifiedName nested) (segment? nested state.position) input state
        (TypeBack word type (state.position + type.signs.length) state) :=
    fun post hpost => .position (Leads.of_first h post hpost)
  induction hterm with
  | named name => exact hfirst (simpleName_back hnested (.named name) rfl htells hn hlt)
  | generic name hsome hargs hnames =>
      exact hfirst (simpleName_back hnested (.generic name hsome hargs hnames) rfl htells hn hlt)
  | @qualified left right hleft hsimple _ hright ih =>
      obtain ⟨hfront, hback⟩ := Sentence.tells_append.mp htells
      have hdot : input.sentence.kindAt (state.position + left.signs.length) = .dot := hback.kind
      have hlength : (TypeTerm.qualified left right).signs.length =
          left.signs.length + 1 + right.signs.length := by
        simp only [TypeTerm.signs, List.length_append, List.length_cons]
        omega
      rw [hlength, ← Nat.add_assoc, ← Nat.add_assoc] at hlt ⊢
      refine (ih hleft hfront fun _ => by simp [hdot]).grow ?_ fun tree after htree => ?_
      · intro tree after htree
        simp [htree.position, hdot]
      · have hposition := htree.position
        rw [← hposition] at hback hlt ⊢
        refine (segment?_back hnested ⟨htree.reads, rfl, htree.quiet⟩ hright hsimple hback ?_
          hlt).imp ?_
        · unfold Sentence.left at hn ⊢
          omega
        · rintro _ last ⟨grown, rfl, hgrown⟩
          refine ⟨grown, rfl, hgrown, ?_⟩
          rw [hgrown.position]
          omega
  | _ => cases hname

theorem qualifiedName_back (hterm : type.WellFormed) (hname : type.isName = true)
    (htells : input.sentence.Tells word state.position type.signs)
    (hn : input.sentence.left state.position ≤ n + 1)
    (hlt : type.isUnargued = true →
      input.sentence.kindAt (state.position + type.signs.length) ≠ .lt)
    (hdot : input.sentence.kindAt (state.position + type.signs.length) = .dot →
      input.sentence.kindAt (state.position + type.signs.length + 1) ≠ .identifier) :
    Ends (qualifiedName nested) input state
      (TypeBack word type (state.position + type.signs.length) state) := by
  refine (qualifiedName_leads hnested hterm hname htells hn hlt).ends fun tree after htree => ?_
  rw [← htree.position] at hdot
  unfold segment?
  refine .askIf (fun hyes => ?_) fun _ => .pure ⟨rfl, rfl⟩
  simp only [Bool.and_eq_true, beq_iff_eq] at hyes
  exact absurd hyes.2 (hdot hyes.1)

end Nested
end TolerantSyntax.Parse
