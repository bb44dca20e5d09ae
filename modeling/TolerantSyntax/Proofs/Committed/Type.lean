import TolerantSyntax.Proofs.Committed.Artefact
import TolerantSyntax.Proofs.Reads.Type
import TolerantSyntax.Proofs.RoundTrip.TypeReading

/-!
# Types without artefacts

Where recovery has left nothing in a type, the type stands for a well-formed term, and the tokens
that it was read from are those of the term.  Together with reading back this decides from the
tokens alone whether a type is read without artefacts.
-/

namespace TolerantSyntax

def Sentence.Names (sentence : Sentence) (word : Nat → Spelling) : Prop :=
  ∀ index, sentence.kindAt index ≠ .eof → (word index).kind = sentence.kindAt index

namespace Sentence

variable {sentence : Sentence} {word : Nat → Spelling} {index : Nat}

theorem Names.tells_fixed (hnames : sentence.Names word) {kind : TokenKind}
    (hkind : sentence.kindAt index = kind) (heof : kind ≠ .eof) (hname : kind ≠ .identifier) :
    sentence.Tells word index [.fixed kind] :=
  ⟨⟨hkind, (hnames index (by rw [hkind]; exact heof)).trans hkind,
    fun hidentifier => absurd hidentifier hname⟩, trivial⟩

theorem Names.tells_name (hnames : sentence.Names word)
    (hkind : sentence.kindAt index = .identifier) :
    sentence.Tells word index [⟨.identifier, (word index).text, false⟩] :=
  ⟨⟨hkind, (hnames index (by simp [hkind])).trans hkind, fun _ => rfl⟩, trivial⟩

/-- The signs stand from an index up to another one. -/
structure TellsUpTo (sentence : Sentence) (word : Nat → Spelling) (signs : List Sign)
    (start stop : Nat) : Prop where
  tells : sentence.Tells word start signs
  stop : stop = start + signs.length

namespace TellsUpTo

variable {left right : List Sign} {start middle stop : Nat}

theorem nil : sentence.TellsUpTo word [] start start := ⟨trivial, rfl⟩

theorem append (hleft : sentence.TellsUpTo word left start middle)
    (hright : sentence.TellsUpTo word right middle stop) :
    sentence.TellsUpTo word (left ++ right) start stop := by
  obtain ⟨htells, rfl⟩ := hleft
  obtain ⟨htells', rfl⟩ := hright
  exact ⟨tells_append.mpr ⟨htells, htells'⟩, by rw [List.length_append, Nat.add_assoc]⟩

theorem fixed (hnames : sentence.Names word) {kind : TokenKind}
    (hkind : sentence.kindAt index = kind) (heof : kind ≠ .eof) (hname : kind ≠ .identifier) :
    sentence.TellsUpTo word [.fixed kind] index (index + 1) :=
  ⟨hnames.tells_fixed hkind heof hname, rfl⟩

theorem name (hnames : sentence.Names word) (hkind : sentence.kindAt index = .identifier) :
    sentence.TellsUpTo word [⟨.identifier, (word index).text, false⟩] index (index + 1) :=
  ⟨hnames.tells_name hkind, rfl⟩

end TellsUpTo
end Sentence

def Sentence.TypeAt (sentence : Sentence) (word : Nat → Spelling) (index : Nat) : Prop :=
  ∃ term : TypeTerm, term.WellFormed ∧
    sentence.Tells word index (term.signs ++ [.fixed .rParen])

def Sentence.ArgumentsAt (sentence : Sentence) (word : Nat → Spelling) (index : Nat) : Prop :=
  ∃ terms : List ElementTerm, terms ≠ [] ∧ (∀ term ∈ terms, term.type.WellFormed) ∧
    (∀ term ∈ terms, term.name? = none) ∧
    sentence.Tells word index (.fixed .lt :: ((elementSigns terms).tail ++ [.fixed .gt]))

namespace Parse

variable {input : Input} {word : Nat → Spelling} {state : ParseState} {nested : Parse TypeSyntax}
  {start stop : Nat}

/-- A tree that stands for a term, whose tokens are those from `start` up to `stop`. -/
structure StandsFor (input : Input) (word : Nat → Spelling) (start stop : Nat) (tree : TypeSyntax)
    (term : TypeTerm) : Prop where
  wellFormed : term.WellFormed
  tells : input.sentence.TellsUpTo word term.signs start stop
  reads : tree.term? word = some term

/-- Without artefacts the tree stands for a term of the form. -/
def StandsAs (input : Input) (word : Nat → Spelling) (form : TypeTerm → Prop) (start : Nat)
    (tree : TypeSyntax) (after : ParseState) : Prop :=
  Piece.Sound tree.pieces →
    ∃ term, form term ∧ StandsFor input word start after.position tree term

theorem StandsAs.imp {form weaker : TypeTerm → Prop} {tree : TypeSyntax}
    (h : StandsAs input word form start tree state) (himp : ∀ term, form term → weaker term) :
    StandsAs input word weaker start tree state := fun hsound => by
  obtain ⟨term, hform, hterm⟩ := h hsound
  exact ⟨term, himp term hform, hterm⟩

structure StandsForElement (input : Input) (word : Nat → Spelling) (named : Bool) (start stop : Nat)
    (tree : ElementType) (element : ElementTerm) : Prop where
  wellFormed : element.type.WellFormed
  unnamed : named = false → element.name? = none
  tells : input.sentence.TellsUpTo word element.signs start stop
  reads : tree.term? word = some element

def StandForElements (word : Nat → Spelling) (named : Bool) :
    List ElementTerm → List ElementType → Prop :=
  List.Forall₂ fun element tree => element.type.WellFormed ∧
    (named = false → element.name? = none) ∧ tree.term? word = some element

namespace StandForElements

variable {named : Bool} {elements : List ElementTerm} {trees : List ElementType}

theorem wellFormed (h : StandForElements word named elements trees) :
    ∀ element ∈ elements, element.type.WellFormed :=
  ((List.forall₂_and_left _ _).mp h).1

theorem unnamed (h : StandForElements word false elements trees) :
    ∀ element ∈ elements, element.name? = none :=
  fun element hmem =>
    ((List.forall₂_and_left _ _).mp ((List.forall₂_and_left _ _).mp h).2).1 element hmem rfl

theorem terms (h : StandForElements word named elements trees) :
    elementTerms? word trees = some elements :=
  terms_of_forall₂ (h.imp fun _ _ h => h.2.2)

end StandForElements

def ReadsTerms (input : Input) (word : Nat → Spelling) (parse : Parse TypeSyntax) : Prop :=
  ∀ state, Ends parse input state fun tree after => Piece.Sound tree.pieces →
    ∃ term, StandsFor input word state.position after.position tree term

/-! ## Elements, tuples and names -/

theorem elementReadonly_ends {atRef : Bool}
    (hatRef : input.sentence.qualifierAt state.position = atRef) :
    Ends (if atRef = true then eat .readonlyKw else pure none) input state fun readonly? after =>
      (readonly? = none ∧ after = state) ∨ input.sentence.kindAt after.position = .refKw := by
  refine .ite (fun hyes => (eat_ends (by decide)).imp ?_) fun _ => .pure (.inl ⟨rfl, rfl⟩)
  rintro readonly? after (⟨hkind, -, rfl⟩ | ⟨-, rfl, rfl⟩)
  · rw [hyes, Sentence.qualifierAt_iff, hkind] at hatRef
    exact .inr (by simpa using hatRef)
  · exact .inl ⟨rfl, rfl⟩

theorem elementName_sound (hnames : input.sentence.Names word) (named : Bool) :
    Ends (if named = true then eat .identifier else pure none) input state fun name? after =>
      (named = false → name? = none) ∧
        input.sentence.TellsUpTo word
          ((name?.map fun name => (word name).text).toList.map (⟨.identifier, ·, false⟩))
          state.position after.position := by
  refine .ite (fun hyes => (eat_ends (by decide)).imp ?_) fun _ => .pure ⟨fun _ => rfl, .nil⟩
  rintro name? after (⟨hkind, rfl, rfl⟩ | ⟨-, rfl, rfl⟩)
  · exact ⟨fun hno => by simp [hyes] at hno, .name hnames hkind⟩
  · exact ⟨fun _ => rfl, .nil⟩

section Nested

variable (hnames : input.sentence.Names word) (hnested : ReadsTerms input word nested)
include hnames hnested

theorem elementType_sound (named : Bool) :
    Ends (elementType nested named) input state fun tree after => Piece.Sound tree.pieces →
      ∃ element, StandsForElement input word named state.position after.position tree element := by
  unfold elementType
  refine .position (.ask fun atRef hatRef => ?_)
  refine .join (elementReadonly_ends hatRef) fun readonly? after₁ hreadonly => .position ?_
  refine (eat_ends (by decide)).bind ?_
  rintro ref? after₂ (⟨-, rfl, rfl⟩ | ⟨href, rfl, rfl⟩)
  · -- A `ref` that is skipped stays in the tree.
    have hany {parse : Parse (Option Nat)} {before : ParseState} :
        Ends parse input before fun _ _ => True := trivial
    refine .behind fun _ _ => .behind fun _ _ => .join hany fun _ _ _ => .rangeFrom (.pure ?_)
    intro hsound
    simp [ElementType.pieces, sound_skippedPieces] at hsound
  · obtain ⟨rfl, rfl⟩ := hreadonly.resolve_right href
    refine .skip (· = after₂) (fun hyes => by cases hyes) (fun _ => rfl) ?_
    rintro before rfl
    refine (hnested before).bind fun type after₃ htype => ?_
    refine .join (elementName_sound hnames named) fun name? after₄ hname => ?_
    refine .rangeFrom (.pure fun hsound => ?_)
    obtain ⟨term, hterm⟩ := htype (by simpa [ElementType.pieces, sound_skippedPieces] using hsound)
    refine ⟨.mk term (name?.map fun name => (word name).text), hterm.wellFormed, fun hno => ?_,
      hterm.tells.append hname.2, ?_⟩
    · rw [hname.1 hno]
      rfl
    · simp [ElementType.term?, hterm.reads]

theorem elements_sound (named : Bool) :
    Ends (separated (elementType nested named)) input state fun trees after =>
      (∀ tree ∈ trees, Piece.Sound tree.pieces) → ∃ elements, elements ≠ [] ∧
        StandForElements word named elements trees ∧
        input.sentence.TellsUpTo word (elementSigns elements).tail state.position
          after.position := by
  -- Behind elements there is one comma more than between them.
  refine separated_ends (fun trees before => (∀ tree ∈ trees, Piece.Sound tree.pieces) →
    ∃ elements, StandForElements word named elements trees ∧
      input.sentence.TellsUpTo word (elementSigns elements ++ [Sign.fixed .comma]).tail
        state.position before.position) ?_ fun _ => ⟨[], .nil, .nil⟩
  intro trees before hbefore
  refine (elementType_sound hnames hnested named).imp fun tree after htree => ?_
  have hgrown (hsound : ∀ each ∈ trees ++ [tree], Piece.Sound each.pieces) :
      ∃ elements, elements ≠ [] ∧ StandForElements word named elements (trees ++ [tree]) ∧
        input.sentence.TellsUpTo word (elementSigns elements).tail state.position
          after.position := by
    obtain ⟨hfront, hlast⟩ := List.forall_mem_append.mp hsound
    obtain ⟨elements, hstand, htells⟩ := hbefore hfront
    obtain ⟨element, helement⟩ := htree (hlast tree List.mem_cons_self)
    have hsigns : elementSigns (elements ++ [element]) =
        elementSigns elements ++ [Sign.fixed .comma] ++ element.signs := by
      simp [elementSigns_eq]
    refine ⟨elements ++ [element], by simp, ?_, ?_⟩
    · exact List.rel_append hstand
        (.cons ⟨helement.wellFormed, helement.unnamed, helement.reads⟩ .nil)
    · rw [hsigns, List.tail_append_of_ne_nil (by simp)]
      exact htells.append helement.tells
  refine ⟨hgrown, fun hcomma hsound => ?_⟩
  obtain ⟨elements, hsome, hstand, htells⟩ := hgrown hsound
  refine ⟨elements, hstand, ?_⟩
  have hsigns : elementSigns elements ≠ [] := by
    obtain ⟨element, rest, rfl⟩ := List.exists_cons_of_ne_nil hsome
    exact List.cons_ne_nil _ _
  rw [List.tail_append_of_ne_nil hsigns]
  exact htells.append (.fixed hnames hcomma (by decide) (by decide))

theorem typeArguments_sound (hkind : input.sentence.kindAt state.position = .lt) :
    Ends (typeArguments nested) input state fun args after => Piece.Sound args.pieces →
      ∃ terms, terms ≠ [] ∧ StandForElements word false terms args.args ∧
        args.gt?.isSome = true ∧
        input.sentence.TellsUpTo word (.fixed .lt :: ((elementSigns terms).tail ++ [.fixed .gt]))
          state.position after.position := by
  unfold typeArguments
  refine .advance (by simp [hkind]) ((elements_sound hnames hnested false).bind ?_)
  intro args after₁ hargs
  refine (expect_ends (by decide)).bind ?_
  rintro gt? after₂ (⟨hgt, rfl, rfl⟩ | ⟨-, rfl, rfl⟩)
  · refine .pure fun hsound => ?_
    have helements : ∀ tree ∈ args, Piece.Sound tree.pieces := by
      simpa [TypeArguments.pieces, Piece.isArtefact, Piece.sound_joined] using hsound
    obtain ⟨terms, hsome, hstand, htells⟩ := hargs helements
    have hlt : input.sentence.TellsUpTo word [.fixed .lt] state.position (state.position + 1) :=
      .fixed hnames hkind (by decide) (by decide)
    exact ⟨terms, hsome, hstand, rfl,
      hlt.append (htells.append (.fixed hnames hgt (by decide) (by decide)))⟩
  · exact .pure fun hsound => by simp [TypeArguments.pieces] at hsound

theorem tupleType_sound (hkind : input.sentence.kindAt state.position = .lParen) :
    Ends (tupleType nested) input state
      (StandsAs input word (·.isArray = false) state.position) := by
  unfold tupleType
  refine .position (.noteHere (.advance (by simp [hkind]) ?_))
  refine (elements_sound hnames hnested true).bind fun trees after₁ htrees => ?_
  refine (expect_ends (by decide)).bind ?_
  rintro closing? after₂ (⟨hclosing, rfl, rfl⟩ | ⟨-, rfl, rfl⟩)
  · refine .skip (·.position = after₁.position + 1) (fun _ => rfl) (fun _ => rfl) ?_
    intro after₃ hafter
    refine .rangeFrom (.pure fun hsound => ?_)
    obtain ⟨helements, hlong⟩ : (∀ tree ∈ trees, Piece.Sound tree.pieces) ∧ 2 ≤ trees.length := by
      simp only [TypeSyntax.pieces, Piece.sound_cons, Piece.sound_append, sound_elements] at hsound
      refine ⟨hsound.2.1.1, Nat.le_of_not_lt fun hshort => ?_⟩
      simp [hshort, Piece.isArtefact] at hsound
    obtain ⟨elements, hsome, hstand, htells⟩ := htrees helements
    have hopening : input.sentence.TellsUpTo word [.fixed .lParen] state.position
        (state.position + 1) := .fixed hnames hkind (by decide) (by decide)
    refine ⟨.tuple elements, rfl, .tuple (hstand.length_eq ▸ hlong) hstand.wellFormed, ?_, ?_⟩
    · rw [hafter]
      exact hopening.append (htells.append (.fixed hnames hclosing (by decide) (by decide)))
    · simp [TypeSyntax.term?, hstand.terms]
  · refine .skip (fun _ => True) (fun _ => trivial) (fun _ => trivial) fun _ _ => ?_
    exact .rangeFrom (.pure fun hsound => by simp [TypeSyntax.pieces] at hsound)

theorem simpleName_sound (hkind : input.sentence.kindAt state.position = .identifier) :
    Ends (simpleName nested) input state
      (StandsAs input word (·.isSimple = true) state.position) := by
  have hname : input.sentence.TellsUpTo word [⟨.identifier, (word state.position).text, false⟩]
      state.position (state.position + 1) := .name hnames hkind
  unfold simpleName
  refine .position (.advance (by simp [hkind]) ?_)
  refine .checkIf (fun hlt => ?_) fun _ => ?_
  · refine (typeArguments_sound hnames hnested hlt).bind fun args after hargs => ?_
    refine .rangeFrom (.pure fun hsound => ?_)
    rw [TypeSyntax.pieces, elementPieces_eq, Piece.sound_cons] at hsound
    obtain ⟨terms, hsome, hstand, hgt, htells⟩ := hargs hsound.2
    obtain ⟨gt, hgt⟩ := Option.isSome_iff_exists.mp hgt
    refine ⟨.generic (word state.position).text terms, rfl,
      .generic _ hsome hstand.wellFormed hstand.unnamed, hname.append htells, ?_⟩
    simp [TypeSyntax.term?, hgt, hstand.terms]
  · exact .rangeFrom (.pure fun _ => ⟨_, rfl, .named _, hname, rfl⟩)

theorem segment?_sound {left : TypeSyntax}
    (hleft : StandsAs input word (·.isName = true) start left state) :
    Ends (segment? nested start left) input state fun tree? after =>
      match tree? with
      | none => after = state
      | some tree => StandsAs input word (·.isName = true) start tree after := by
  unfold segment?
  refine .askIf (fun hsegment => ?_) fun _ => .pure rfl
  obtain ⟨hdot, hkind⟩ : input.sentence.kindAt state.position = .dot ∧
      input.sentence.kindAt (state.position + 1) = .identifier := by simpa using hsegment
  refine .advance (by simp [hdot]) ((simpleName_sound hnames hnested hkind).bind ?_)
  intro right after hright
  refine .rangeFrom (.pure fun hsound => ?_)
  rw [TypeSyntax.pieces, Piece.sound_append, Piece.sound_cons] at hsound
  obtain ⟨front, hname, hfront⟩ := hleft hsound.1
  obtain ⟨last, hsimple, hlast⟩ := hright hsound.2.2
  have hsign : input.sentence.TellsUpTo word [.fixed .dot] state.position (state.position + 1) :=
    .fixed hnames hdot (by decide) (by decide)
  refine ⟨.qualified front last, rfl, .qualified hname hsimple hfront.wellFormed hlast.wellFormed,
    hfront.tells.append (hsign.append hlast.tells), ?_⟩
  simp [TypeSyntax.term?, hfront.reads, hlast.reads]

theorem qualifiedName_sound (hkind : input.sentence.kindAt state.position = .identifier) :
    Ends (qualifiedName nested) input state
      (StandsAs input word (·.isName = true) state.position) := by
  unfold qualifiedName
  refine .position ((simpleName_sound hnames hnested hkind).bind fun first after₁ hfirst => ?_)
  refine grow_ends (StandsAs input word (·.isName = true) state.position) ?_
    (hfirst.imp fun _ => TypeTerm.isName_of_isSimple)
  intro left before hleft
  refine (segment?_sound hnames hnested hleft).imp fun tree? after h => ?_
  cases tree? with
  | none => exact h ▸ hleft
  | some tree => exact h

end Nested

theorem missingType_sound : ReadsTerms input word missingType := by
  intro state
  unfold missingType
  refine .noteHere (.position (.pure fun hsound => ?_))
  simp [TypeSyntax.missingAt, TypeSyntax.pieces, Piece.isArtefact] at hsound

theorem type_restores (n : Nat) : RestoresTypes n input word type := by
  rintro term state _ hterm htells rfl - hends
  exact type_back hterm htells hends

/-! ## Suffixes and types -/

section Suffixes

variable (hnames : input.sentence.Names word)
include hnames

theorem arrayRank_sound (hkind : input.sentence.kindAt state.position = .lBracket) :
    Ends arrayRank input state fun rank after => Piece.Sound rank.pieces →
      1 ≤ rank.dimensions ∧
        input.sentence.TellsUpTo word (TypeTerm.rankSigns rank.dimensions) state.position
          after.position := by
  have hcommas : Ends (many (eat .comma)) input { state with position := state.position + 1 }
      fun commas after => input.sentence.TellsUpTo word
        (List.replicate commas.length (.fixed .comma)) (state.position + 1) after.position := by
    refine many_ends (fun commas after => input.sentence.TellsUpTo word
      (List.replicate commas.length (.fixed .comma)) (state.position + 1) after.position) ?_ .nil
    intro commas before hbefore
    refine (eat_ends (by decide)).imp ?_
    rintro comma? after (⟨hcomma, rfl, rfl⟩ | ⟨-, rfl, rfl⟩)
    · simp only [List.length_append, List.length_singleton, List.replicate_succ']
      exact hbefore.append (.fixed hnames hcomma (by decide) (by decide))
    · exact hbefore
  unfold arrayRank
  refine .advance (by simp [hkind]) (hcommas.bind fun commas after₁ hcommas => ?_)
  refine (expect_ends (by decide)).bind ?_
  rintro closing? after₂ (⟨hclosing, rfl, rfl⟩ | ⟨-, rfl, rfl⟩)
  · have hopening : input.sentence.TellsUpTo word [.fixed .lBracket] state.position
        (state.position + 1) := .fixed hnames hkind (by decide) (by decide)
    refine .pure fun _ => ⟨Nat.le_add_left _ _, ?_⟩
    exact hopening.append (hcommas.append (.fixed hnames hclosing (by decide) (by decide)))
  · exact .pure fun hsound => by simp [ArrayRank.pieces] at hsound

theorem arrayRanks_sound :
    Ends (many arrayRank?) input state fun ranks after =>
      (ranks ≠ [] → input.sentence.rankAt state.position = true) ∧
        (Piece.Sound (ranks.flatMap (·.pieces)) → ∃ dimensions,
          (∀ rank ∈ dimensions, 1 ≤ rank) ∧ ArrayRank.dimensions? ranks = some dimensions ∧
          dimensions.length = ranks.length ∧
          input.sentence.TellsUpTo word (dimensions.flatMap TypeTerm.rankSigns) state.position
            after.position) := by
  have hfirst : Ends (many arrayRank?) input state fun ranks _ =>
      ranks ≠ [] → input.sentence.rankAt state.position = true := by
    cases hrank : input.sentence.rankAt state.position with
    | true => exact fun _ => rfl
    | false => exact many_declined (whenever_declines hrank) fun hsome => absurd rfl hsome
  have hall : Ends (many arrayRank?) input state fun ranks after =>
      Piece.Sound (ranks.flatMap (·.pieces)) → (∀ rank ∈ ranks, 1 ≤ rank.dimensions) ∧
        input.sentence.TellsUpTo word ((ranks.map (·.dimensions)).flatMap TypeTerm.rankSigns)
          state.position after.position := by
    refine many_ends (fun (ranks : List ArrayRank) after =>
      Piece.Sound (ranks.flatMap (·.pieces)) → (∀ rank ∈ ranks, 1 ≤ rank.dimensions) ∧
        input.sentence.TellsUpTo word ((ranks.map (·.dimensions)).flatMap TypeTerm.rankSigns)
          state.position after.position) ?_ fun _ => ⟨nofun, .nil⟩
    intro ranks before hbefore
    refine whenever_ends (fun hrank => ?_) fun _ => hbefore
    refine (arrayRank_sound hnames (Sentence.kindAt_of_rankAt hrank)).imp fun rank after h => ?_
    intro hsound
    simp only [List.flatMap_append, List.flatMap_singleton, Piece.sound_append] at hsound
    obtain ⟨hone, htells⟩ := h hsound.2
    obtain ⟨hones, hfront⟩ := hbefore hsound.1
    refine ⟨List.forall_mem_append.mpr ⟨hones, List.forall_mem_singleton.mpr hone⟩, ?_⟩
    simpa using hfront.append htells
  refine (hfirst.and hall).imp ?_
  rintro ranks after ⟨hfirst, hall⟩
  refine ⟨hfirst, fun hsound => ?_⟩
  obtain ⟨hones, htells⟩ := hall hsound
  refine ⟨ranks.map (·.dimensions), List.forall_mem_map.mpr hones, ?_, List.length_map _, htells⟩
  refine dimensions_of_forall₂ (List.forall₂_map_left_iff.mpr ?_)
  exact List.forall₂_same.mpr fun rank hmem => ⟨rfl, sound_ranks.mp hsound rank hmem⟩

/-- As `StandsAs`, for a term that a suffix may follow: behind an array no rank is left. -/
def StandsOpen (input : Input) (word : Nat → Spelling) (start : Nat) (tree : TypeSyntax)
    (after : ParseState) : Prop :=
  StandsAs input word
    (fun term => term.isArray = true → input.sentence.rankAt after.position = false)
    start tree after

theorem typeSuffix?_sound {tree : TypeSyntax} (htree : StandsOpen input word start tree state) :
    Ends (typeSuffix? start tree) input state fun grown? after =>
      match grown? with
      | none => after = state
      | some grown => StandsOpen input word start grown after := by
  unfold typeSuffix?
  refine .kind fun kind hkind => ?_
  split
  · refine .ite (fun _ => .pure rfl) fun honce => ?_
    refine .advance (by simp [hkind]) (.rangeFrom (.pure fun hsound => ?_))
    rw [TypeSyntax.pieces, Piece.sound_append] at hsound
    obtain ⟨term, -, hterm⟩ := htree hsound.1
    have hnot : term.isNullable = false := by
      rw [← TypeTerm.isNullable_of_term hterm.reads]
      simpa using honce
    refine ⟨.nullable term, nofun, .nullable hnot hterm.wellFormed,
      hterm.tells.append (.fixed hnames hkind (by decide) (by decide)), ?_⟩
    simp [TypeSyntax.term?, hterm.reads]
  · refine .advance (by simp [hkind]) (.rangeFrom (.pure fun hsound => ?_))
    rw [TypeSyntax.pieces, Piece.sound_append] at hsound
    obtain ⟨term, -, hterm⟩ := htree hsound.1
    refine ⟨.pointer term, nofun, .pointer hterm.wellFormed,
      hterm.tells.append (.fixed hnames hkind (by decide) (by decide)), ?_⟩
    simp [TypeSyntax.term?, hterm.reads]
  · refine ((arrayRanks_sound hnames).and arrayRanks_covers).bind ?_
    rintro ranks after ⟨⟨hsome, hterms⟩, hnone, hnil, -⟩
    cases ranks with
    | nil => exact .pure (hnil rfl)
    | cons rank rest =>
        refine .rangeFrom (.pure fun hsound => ?_)
        rw [TypeSyntax.pieces, Piece.sound_append] at hsound
        obtain ⟨term, hlast, hterm⟩ := htree hsound.1
        obtain ⟨dimensions, hones, hread, hlength, htells⟩ := hterms hsound.2
        have hflat : term.isArray = false := by
          rw [← Bool.not_eq_true]
          intro harray
          simp [hlast harray] at hsome
        have hdimensions : dimensions ≠ [] := by
          rintro rfl
          cases hlength
        refine ⟨.array term dimensions, fun _ => hnone,
          .array hflat hdimensions hones hterm.wellFormed, hterm.tells.append htells, ?_⟩
        simp [TypeSyntax.term?, hterm.reads, hread]
  · exact .pure rfl

theorem typeSuffixes_sound {tree : TypeSyntax}
    (htree : StandsAs input word (·.isArray = false) start tree state) :
    Ends (grow (typeSuffix? start) tree) input state fun tree after => Piece.Sound tree.pieces →
      ∃ term, StandsFor input word start after.position tree term := by
  have hopen : StandsOpen input word start tree state :=
    htree.imp fun term hflat harray => by simp [hflat] at harray
  refine (grow_ends (StandsOpen input word start) (fun tree before hbefore => ?_) hopen).imp ?_
  · refine (typeSuffix?_sound hnames hbefore).imp fun grown? after h => ?_
    cases grown? with
    | none => exact h ▸ hbefore
    | some grown => exact h
  · intro tree after h hsound
    obtain ⟨term, -, hterm⟩ := h hsound
    exact ⟨term, hterm⟩

theorem typeStep_sound (hnested : ReadsTerms input word nested) :
    ReadsTerms input word (typeStep nested) := by
  intro state
  unfold typeStep
  refine .position (.kind fun kind hkind => ?_)
  split
  · refine (qualifiedName_sound hnames hnested hkind).bind fun tree after htree => ?_
    exact typeSuffixes_sound hnames (htree.imp fun _ => TypeTerm.isArray_of_isName)
  · refine (tupleType_sound hnames hnested hkind).bind fun tree after htree => ?_
    exact typeSuffixes_sound hnames htree
  · refine .ite (fun hkeyword => ?_) fun _ => missingType_sound state
    have heof : kind ≠ .eof := by
      rintro rfl
      cases hkeyword
    have hname : kind ≠ .identifier := by
      rintro rfl
      cases hkeyword
    refine .advance (by rwa [hkind]) (.rangeFrom (typeSuffixes_sound hnames fun _ => ?_))
    refine ⟨.predefined kind, rfl, .predefined hkeyword, .fixed hnames hkind heof hname, ?_⟩
    simp [TypeSyntax.term?, hnames state.position (by rwa [hkind]), hkind]

theorem typeWithin_sound (n : Nat) : ReadsTerms input word (typeWithin n) := by
  induction n with
  | zero => exact missingType_sound
  | succ n ih => exact typeStep_sound hnames ih

theorem type_sound : ReadsTerms input word type := fun state =>
  .left (typeWithin_sound hnames _ state)

/-- In front of a `)` a type has no artefacts exactly if a well-formed one stands there. -/
theorem type_sound_iff :
    Ends type input state fun tree after => input.sentence.kindAt after.position = .rParen →
      (Piece.Sound tree.pieces ↔ input.sentence.TypeAt word state.position) := by
  intro hclosing
  constructor
  · intro hsound
    obtain ⟨term, hterm⟩ := type_sound hnames state hsound
    have htells := hterm.tells.append (.fixed hnames hclosing (by decide) (by decide))
    exact ⟨term, hterm.wellFormed, htells.tells⟩
  · rintro ⟨term, hterm, htells⟩
    obtain ⟨hfront, hbehind⟩ := Sentence.tells_append.mp htells
    have hback := type_back hterm hfront (.of_kind (by rw [hbehind.kind]; rfl))
    exact TypeSyntax.sound_of_term _ hterm hback.reads

/-- Type arguments have no artefacts exactly if well-formed ones stand there. -/
theorem typeArguments_sound_iff (hkind : input.sentence.kindAt state.position = .lt) :
    Ends (typeArguments type) input state fun args _ =>
      Piece.Sound args.pieces ↔ input.sentence.ArgumentsAt word args.lt := by
  have hlt : Ends (typeArguments type) input state fun args _ => args.lt = state.position := by
    unfold typeArguments
    exact .advance (by simp [hkind]) (.behind fun _ _ => .behind fun _ _ => .pure rfl)
  have hfounded : Ends (typeArguments type) input state fun args _ =>
      input.sentence.ArgumentsAt word state.position → Piece.Sound args.pieces := by
    rintro ⟨terms, hsome, hterms, hunnamed, htells⟩
    have hback := typeArguments_back (type_restores _) hsome hterms hunnamed htells
      (Nat.le_succ _)
    obtain ⟨hread, hgt⟩ := hback.reads
    have hsound := sound_of_terms _ hterms hread
    simpa [TypeArguments.pieces, Piece.isArtefact, Piece.sound_joined, hgt] using hsound
  refine (hlt.and ((typeArguments_sound hnames (type_sound hnames) hkind).and hfounded)).imp ?_
  rintro args after ⟨hlt, hterms, hfounded⟩
  rw [hlt]
  refine ⟨fun hsound => ?_, hfounded⟩
  obtain ⟨terms, hsome, hstand, -, htells⟩ := hterms hsound
  exact ⟨terms, hsome, hstand.wellFormed, hstand.unnamed, htells.tells⟩

end Suffixes
end Parse
end TolerantSyntax
