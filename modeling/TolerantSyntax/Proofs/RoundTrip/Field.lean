import TolerantSyntax.Proofs.Fidelity
import TolerantSyntax.Proofs.RoundTrip.Class
import TolerantSyntax.Proofs.RoundTrip.Climbing
import TolerantSyntax.Proofs.RoundTrip.Lexing

/-!
# The initializer of a field

A term that is written as the initializer of a field in a class is read back, and nothing is
reported.
-/

namespace TolerantSyntax

/-- The initial values of fields, those of nested types with them. -/
def Member.initializers : Member → List Expr
  | .field _ _ declarators _ => declarators.filterMap (·.value?)
  | .typeDecl _ _ _ members _ _ => members.flatMap (·.initializers)
  | _ => []

namespace Sign

/-- A class with a field whose initial value the tokens are. -/
def inField (value : List Sign) : String :=
  "class C \x7b object f =" ++ String.join (value.map (·.written)) ++ " ; \x7d"

def classSigns (value : List Sign) : List Sign :=
  ⟨.identifier, "C", false⟩ :: .fixed .lBrace ::
    (.fixed .objectKw :: ⟨.identifier, "f", false⟩ :: .fixed .eq ::
      (value ++ [.fixed .semicolon]) ++ [.fixed .rBrace])

theorem Spaced.classSigns {value : List Sign} (h : Spaced value) : Spaced (classSigns value) := by
  have htype : IsToken .identifier "C" := by decide
  have hname : IsToken .identifier "f" := by decide
  have hfield : Spaced (.fixed .objectKw :: ⟨.identifier, "f", false⟩ :: .fixed .eq ::
      (value ++ [.fixed .semicolon])) :=
    .fixed rfl (.token hname (.fixed rfl (h.append (.fixed rfl .nil))))
  exact .token htype (.fixed rfl (hfield.append (.fixed rfl .nil)))

theorem source_classSigns (value : List Sign) :
    source "class" (classSigns value) = inField value := by
  have hfront : "class C \x7b object f =" =
      "class" ++ (" C" ++ (" \x7b" ++ (" object" ++ (" f" ++ " =")))) := by decide
  have hback : " ; \x7d" = " ;" ++ " \x7d" := by decide
  have hsigns : (classSigns value).map (·.written) =
      [" C", " \x7b", " object", " f", " ="] ++ (value.map (·.written) ++ [" ;", " \x7d"]) := by
    simp only [classSigns, List.map_cons, List.map_append, List.map_nil, List.cons_append,
      List.nil_append, List.append_assoc]
    rfl
  unfold source inField
  simp only [hsigns, hfront, hback, String.join_append, String.join_cons, String.join_nil,
    String.append_assoc, String.append_empty]

end Sign

namespace Term

/-- A class with a field that the term initializes. -/
def inField (term : Term) : String := "class C \x7b object f =" ++ term.text ++ " ; \x7d"

def fieldSigns (term : Term) : List Sign :=
  .fixed .objectKw :: ⟨.identifier, "f", false⟩ :: .fixed .eq :: (term.signs ++ [.fixed .semicolon])

def classSigns (term : Term) : List Sign :=
  ⟨.identifier, "C", false⟩ :: .fixed .lBrace :: (term.fieldSigns ++ [.fixed .rBrace])

end Term

namespace Parse

variable {input : Input} {word : Nat → Spelling} {state : ParseState} {term : Term} {stop : Nat}

theorem objectType_back (hkind : input.sentence.kindAt state.position = .objectKw)
    (hnext : input.sentence.kindAt (state.position + 1) = .identifier) :
    Ends type input state fun type after =>
      type.valueType.isMissing = false ∧ type.isByRef = false ∧
        after = { state with position := state.position + 1 } := by
  have hlt := Sentence.lt_size_of_kindAt (by rw [hkind]; decide)
  have hsuffix (first : Nat) (type : TypeSyntax) : Declines (typeSuffix? first type) input
      { state with position := state.position + 1 } := by
    unfold typeSuffix?
    refine .kind fun kind hkind' => ?_
    obtain rfl : kind = .identifier := hkind'.symm.trans hnext
    exact ⟨rfl, rfl⟩
  unfold type
  refine .left ?_
  obtain ⟨n, hn⟩ : ∃ n, input.sentence.left state.position = n + 1 :=
    ⟨input.sentence.left state.position - 1, by unfold Sentence.left; omega⟩
  rw [hn]
  unfold typeWithin typeStep
  refine .position (.kind fun kind hkind' => ?_)
  obtain rfl : kind = .objectKw := hkind'.symm.trans hkind
  refine .advance (by simp [hkind]) (.rangeFrom (.left ?_))
  exact growWithin_declined (hsuffix _ _) ⟨rfl, rfl, rfl⟩ _

theorem objectField_ends {post : Member → ParseState → Prop}
    (nested : ParseContext → Parse (List Member)) (context : ParseContext)
    (hobject : input.sentence.kindAt state.position = .objectKw)
    (hname : input.sentence.kindAt (state.position + 1) = .identifier)
    (heq : input.sentence.kindAt (state.position + 1 + 1) = .eq)
    (hdecl : ∀ head type,
      Ends (fieldDecl head type) input { state with position := state.position + 1 } post) :
    Ends (member nested context) input state post := by
  unfold member
  refine .kind fun kind hkind => ?_
  obtain rfl : kind = .objectKw := hkind.symm.trans hobject
  refine .memberHead hobject (by decide) fun head hqualifier => ?_
  unfold declaredMember
  rw [hqualifier]
  refine .kind fun kind hkind => ?_
  obtain rfl : kind = .objectKw := hkind.symm.trans hobject
  unfold typedMember
  rw [hqualifier]
  refine (objectType_back hobject hname).bind ?_
  rintro type _ ⟨hmissing, href, rfl⟩
  rw [hmissing, href]
  refine .kind fun kind hkind => ?_
  obtain rfl : kind = .identifier := hkind.symm.trans hname
  refine .ask fun kind hkind => ?_
  obtain rfl : kind = .eq := hkind.symm.trans heq
  exact hdecl head type

theorem declarator_initialized {reads : Expr → List Finding → Prop}
    (hname : input.sentence.kindAt state.position = .identifier)
    (heq : input.sentence.kindAt (state.position + 1) = .eq)
    (hvalue : Ends variableValue input { state with position := state.position + 1 + 1 }
      (ReadTo reads stop)) :
    Ends declarator input state
      (ReadTo (fun declarator noted => ∃ value, declarator.value? = some value ∧ reads value noted)
        stop) := by
  unfold declarator
  refine .expectTaken hname (by decide) (.eatTaken heq (by decide) ?_)
  exact hvalue.bind fun value after hread => .pure ⟨⟨value, rfl, hread.reads⟩, hread.position⟩

theorem objectField_back {reads : Expr → List Finding → Prop}
    (nested : ParseContext → Parse (List Member)) (context : ParseContext)
    (hobject : input.sentence.kindAt state.position = .objectKw)
    (hname : input.sentence.kindAt (state.position + 1) = .identifier)
    (heq : input.sentence.kindAt (state.position + 1 + 1) = .eq)
    (hvalue : Ends variableValue input { state with position := state.position + 1 + 1 + 1 }
      (ReadTo reads stop))
    (hsemicolon : input.sentence.kindAt stop = .semicolon) :
    Ends (member nested context) input state
      (ReadTo (fun member noted => ∃ value, member.initializers = [value] ∧ reads value noted)
        (stop + 1)) := by
  refine objectField_ends nested context hobject hname heq fun head type => ?_
  have hdeclarator : Ends declarator input { state with position := state.position + 1 }
      (ReadTo (fun declarator noted => ∃ value, declarator.value? = some value ∧ reads value noted)
        stop) := declarator_initialized hname heq hvalue
  have hdeclarators : Ends declarators input { state with position := state.position + 1 }
      (ReadTo (fun declarators noted => ∃ declarator value, declarators = [declarator] ∧
        declarator.value? = some value ∧ reads value noted) stop) := by
    unfold declarators separated
    refine .left (separatedWithin_last _ (hdeclarator.imp ?_))
    rintro declarator after ⟨⟨value, hsome, hreads⟩, hposition⟩
    refine ⟨?_, ⟨declarator, value, rfl, hsome, hreads⟩, hposition⟩
    rw [hposition, hsemicolon]
    decide
  unfold fieldDecl
  refine hdeclarators.bind ?_
  rintro _ after ⟨⟨declarator, value, rfl, hsome, hreads⟩, rfl⟩
  refine .expectTaken hsemicolon (by decide) (.memberInfo fun info => .pure ⟨?_, rfl⟩)
  exact ⟨value, by simp [Member.initializers, hsome], hreads⟩

theorem compilationUnit_field {reads : Expr → List Finding → Prop} {value : List Sign}
    (hshows : input.sentence.Shows word 0
      (.fixed .classKw :: ⟨.identifier, "C", false⟩ :: .fixed .lBrace :: .fixed .objectKw ::
        ⟨.identifier, "f", false⟩ :: .fixed .eq ::
        (value ++ [.fixed .semicolon, .fixed .rBrace])))
    (hsize : input.sentence.size = 6 + (value.length + 2))
    (hvalue : Ends variableValue input { ParseState.start with position := 6 }
      (ReadTo reads (6 + value.length))) :
    Ends compilationUnit input .start fun root after =>
      ∃ value, root.members.flatMap (·.initializers) = [value] ∧ reads value after.findings := by
  have hfield := hshows.tail.tail.tail
  have hback := (Sentence.shows_append.mp hfield.tail.tail.tail).2
  have hobject : input.sentence.kindAt 3 = .objectKw := hfield.kind
  have hclosing : input.sentence.kindAt (6 + value.length + 1) = .rBrace := hback.tail.kind
  have heof : input.sentence.kindAt (6 + value.length + 1 + 1) = .eof :=
    Sentence.kindAt_eq_eof (by omega)
  refine (compilationUnit_single hshows.kind hshows.tail.kind hshows.tail.tail.kind
    (by simp [hobject, TokenSet.memberStart, TokenSet.typeStart, TokenSet.predefinedTypes])
    (fun n => objectField_back _ _ hobject hfield.tail.kind hfield.tail.tail.kind hvalue
      hback.kind) (by omega) hclosing heof).imp ?_
  rintro root after ⟨info, header, opening?, inner, closing?, semicolon?, hmembers, value, hinit,
    hreads⟩
  exact ⟨value, by simp [hmembers, Member.initializers, hinit], hreads⟩

theorem compilationUnit_back (hterm : term.WellFormed)
    (hshows : input.sentence.Shows word 0 (.fixed .classKw :: term.classSigns))
    (hsize : input.sentence.size = 1 + term.classSigns.length) :
    Ends compilationUnit input .start fun root after =>
      (root.members.flatMap (·.initializers)).map (·.term? word) = [some term] ∧
        after.findings = [] := by
  have hsigns : term.classSigns = ⟨.identifier, "C", false⟩ :: .fixed .lBrace ::
      .fixed .objectKw :: ⟨.identifier, "f", false⟩ :: .fixed .eq ::
        (term.signs ++ [.fixed .semicolon, .fixed .rBrace]) := by
    simp [Term.classSigns, Term.fieldSigns]
  rw [hsigns] at hshows hsize
  obtain ⟨hvalue, hback⟩ := Sentence.shows_append.mp hshows.tail.tail.tail.tail.tail.tail
  have hsemicolon : input.sentence.kindAt (6 + term.signs.length) = .semicolon := hback.kind
  have hread : Ends variableValue input { ParseState.start with position := 6 }
      (ReadTo (fun value noted => value.term? word = some term ∧ noted = [])
        (6 + term.signs.length)) := by
    refine (variableValue_back hterm hvalue (by dsimp only; rw [hsemicolon]; rfl)).imp ?_
    exact fun value after h => ⟨⟨h.term, h.findings⟩, h.position⟩
  refine (compilationUnit_field hshows ?_ hread).imp ?_
  · simp only [List.length_cons, List.length_append, List.length_nil] at hsize
    omega
  · rintro root after ⟨value, hinit, hterm, hnoted⟩
    exact ⟨by simp [hinit, hterm], hnoted⟩

end Parse

theorem SyntaxTree.ofText_field {value : List Sign} (h : Sign.Spaced value)
    (version : LanguageVersion) {post : CompilationUnit → ParseState → Prop}
    (hread : ∀ input : Input,
      input.sentence.Shows (ofText (Sign.inField value) version).word 0
        (.fixed .classKw :: Sign.classSigns value) →
      input.sentence.size = 1 + (Sign.classSigns value).length →
      Parse.Ends Parse.compilationUnit input .start post) :
    ∃ state, post (ofText (Sign.inField value) version).root state ∧
      (ofText (Sign.inField value) version).diagnostics = DiagnosticBag.sorted
        ⟨findingsIn (Sign.inField value) (lex (Sign.inField value)).tokens version state⟩ := by
  have hclass : Sign.IsToken .classKw "class" := by decide
  have hlexical := Sign.lex_source_diagnostics hclass h.classSigns
  have hsymbols := Sign.ofTokens_lex_source hclass h.classSigns
  have hshows := Sign.shows_source hclass h.classSigns
  rw [Sign.source_classSigns] at hlexical hsymbols hshows
  have hsize : (Sentence.ofTokens (lex (Sign.inField value)).tokens).size =
      1 + (Sign.classSigns value).length := by
    rw [hsymbols, Sentence.size, List.size_toArray, List.length_map, List.length_cons, Nat.add_comm]
  have hword : (ofText (Sign.inField value) version).word = fun index =>
      (Finding.tokenAt (lex (Sign.inField value)).tokens index).spelling (Sign.inField value) := by
    funext index
    rw [word, ofText_tokens, ofText_source]
  rw [← hword] at hshows
  refine ⟨(ofSentence (.ofTokens (lex (Sign.inField value)).tokens)).2, ?_, ?_⟩
  · rw [ofText_root]
    exact hread (.ofSentence (.ofTokens (lex (Sign.inField value)).tokens)) hshows hsize
  · rw [ofText_diagnostics, hlexical, List.nil_append]

/-- A term whose operands are as tight as the operators demand is read back from its text
without parentheses, and nothing is reported. -/
theorem SyntaxTree.ofText_inField {term : Term} (h : term.WellFormed) (version : LanguageVersion) :
    (ofText term.inField version).diagnostics = [] ∧
      ((ofText term.inField version).root.members.flatMap (·.initializers)).map
        (·.term? (ofText term.inField version).word) = [some term] := by
  have hvalue : term.inField = Sign.inField term.signs := rfl
  rw [hvalue]
  obtain ⟨state, ⟨hterms, hfindings⟩, hdiagnostics⟩ :=
    ofText_field h.spaced version fun input hshows hsize =>
      Parse.compilationUnit_back h hshows hsize
  refine ⟨hdiagnostics.trans ?_, hterms⟩
  rw [findingsIn, hfindings]
  simp [DiagnosticBag.sorted]

def Term.mixed : Term :=
  .assign .assign (.memberAccess .this "f")
    (.conditional
      (.binary .lt (.memberAccess .this "a")
        (.binary .shr
          (.binary .sub (.parenthesized (.literal .intLiteral "1")) (.literal .intLiteral "2"))
          (.literal .intLiteral "3")))
      (.invocation .this [.literal .nullKw "null"])
      (.binary .coalesce (.literal .stringLiteral "\"x\"")
        (.binary .coalesce .this (.literal .trueKw "true"))))

theorem SyntaxTree.ofText_inField_mixed :
    Term.mixed.text =
        " this . f = this . a < ( 1 ) - 2 >> 3 ? this ( null ) : \"x\" ?? this ?? true" ∧
      Term.mixed.WellFormed ∧ (ofText Term.mixed.inField .v7_1).diagnostics = [] ∧
      ((ofText Term.mixed.inField .v7_1).root.members.flatMap (·.initializers)).map
        (·.term? (ofText Term.mixed.inField .v7_1).word) = [some Term.mixed] := by
  have hliteral : ∀ text ∈ ["1", "2", "3"], (Term.literal .intLiteral text).WellFormed :=
    fun text hmem => .literal rfl (by revert text; decide)
  have hname : ∀ name ∈ ["a", "f"], (Term.memberAccess .this name).WellFormed :=
    fun name hmem => .memberAccess (by decide) .this (by revert name; decide)
  have hwellFormed : Term.mixed.WellFormed := by
    refine .assign (by decide) (hname "f" (by simp)) (.conditional (by decide) ?_ ?_ ?_)
    · refine .binary (by decide) (by decide) (hname "a" (by simp)) ?_
      refine .binary (by decide) (by decide) ?_ (hliteral "3" (by simp))
      exact .binary (by decide) (by decide) (.parenthesized (hliteral "1" (by simp)))
        (hliteral "2" (by simp))
    · refine .invocation (by decide) .this (List.forall_mem_singleton.mpr ?_)
      exact .literal rfl (by decide)
    · refine .binary (by decide) (by decide) (.literal rfl (by decide)) ?_
      exact .binary (by decide) (by decide) .this (.literal rfl (by decide))
  exact ⟨by decide, hwellFormed, ofText_inField hwellFormed .v7_1⟩

end TolerantSyntax
