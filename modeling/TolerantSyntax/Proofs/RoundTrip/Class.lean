import TolerantSyntax.Grammar.Member
import TolerantSyntax.Proofs.RoundTrip.Reading

/-!
# A class with a single member

Where a text is a class with one member, all there is to know about the text is how the member
is read.
-/

namespace TolerantSyntax.Parse

variable {α : Type} {input : Input} {state : ParseState} {stop : Nat}

theorem Ends.memberInfo {head : MemberHead} {next : MemberInfo → Parse α}
    {post : α → ParseState → Prop} (h : ∀ info, Ends (next info) input state post) :
    Ends (Parse.memberInfo head >>= next) input state post := h _

theorem Ends.memberHead {next : MemberHead → Parse α} {post : α → ParseState → Prop}
    {kind : TokenKind} (hkind : input.sentence.kindAt state.position = kind)
    (hplain : kind ≠ .identifier ∧ kind ≠ .refKw ∧ Modifier.ofKeyword? kind = none)
    (h : ∀ head : MemberHead, head.qualifier? = none → Ends (next head) input state post) :
    Ends (Parse.memberHead >>= next) input state post := by
  obtain ⟨hname, href, hnone⟩ := hplain
  have hreadonly : kind ≠ .readonlyKw := by
    rintro rfl
    cases hnone
  have hmodifier : input.sentence.modifierAt? state.position = none := by
    have hword : input.sentence.wordAt? state.position = none := by
      unfold Sentence.wordAt?
      rw [hkind]
      split <;> first | contradiction | rfl
    unfold Sentence.modifierAt?
    rw [hword, hkind, hnone]
    simp
  have hentry : Declines modifierEntry? input state := by
    unfold modifierEntry?
    refine .ask fun answer hanswer => ?_
    obtain rfl := hanswer.symm.trans hmodifier
    exact ⟨rfl, rfl⟩
  have hqualifier : Declines refQualifier? input state := by
    unfold refQualifier?
    refine .askIf (fun hyes => ?_) fun _ => .checkIf (fun hyes => ?_) fun _ => ⟨rfl, rfl⟩
    · simp only [hkind, Bool.and_eq_true, beq_iff_eq] at hyes
      exact absurd hyes.1 hreadonly
    · exact absurd (hkind.symm.trans hyes) href
  have hentries : Ends (many modifierEntry?) input state fun _ after => after = state :=
    many_declined hentry rfl
  have hhead : Ends Parse.memberHead input state fun head after =>
      head.qualifier? = none ∧ after = state := by
    unfold Parse.memberHead
    refine .position (hentries.bind ?_)
    rintro entries _ rfl
    exact hqualifier.bind (.pure ⟨rfl, rfl⟩)
  refine hhead.bind ?_
  rintro head _ ⟨hnone, rfl⟩
  exact h head hnone

theorem membersWithin_single {reads : Member → List Finding → Prop} {context : ParseContext}
    {n : Nat} (hstart : context.memberStart.contains (input.sentence.kindAt state.position) = true)
    (hkind : input.sentence.kindAt state.position ≠ .eof ∧
      input.sentence.kindAt state.position ≠ .rBrace)
    (hstop : input.sentence.kindAt stop = .eof ∨
      input.sentence.kindAt stop = .rBrace ∧ context.isBraced = true)
    (hlt : state.position < stop)
    (hmember : Ends (member (membersWithin n) context) input state (ReadTo reads stop)) :
    Ends (membersWithin (n + 1) context) input state
      (ReadTo (fun members noted => ∃ member, members = [member] ∧ reads member noted) stop) := by
  have hsome : Ends (someMember (membersWithin n) context) input state (ReadTo reads stop) := by
    unfold someMember
    refine .position (.ask fun answer hanswer => ?_)
    obtain rfl : answer = true := hanswer.symm.trans hstart
    refine hmember.bind fun member after hread => .position ?_
    refine .ite (fun hsame => ?_) fun _ => .pure hread
    have hposition := hread.position
    simp only [beq_iff_eq] at hsame
    omega
  unfold membersWithin
  refine many_single hkind.1 ?_
  unfold hasMember
  refine whenever_ends (fun _ => ?_) fun hno => ?_
  · refine hsome.imp fun member after hread =>
      ⟨⟨member, rfl, ⟨member, rfl, hread.reads⟩, hread.position⟩, ?_⟩
    refine whenever_declines ?_
    rw [hread.position]
    rcases hstop with hstop | ⟨hstop, hbraced⟩
    · simp [hstop]
    · simp [hstop, hbraced]
  · simp [hkind] at hno

theorem typeParameters?_declines (h : input.sentence.kindAt state.position ≠ .lt) :
    Declines typeParameters? input state := by
  unfold typeParameters?
  exact (eat_declines h).bind ⟨rfl, rfl⟩

theorem baseTypes_none (h : input.sentence.kindAt state.position ≠ .colon) :
    Ends baseTypes input state fun bases after => bases = [] ∧ after = state := by
  unfold baseTypes
  exact (eat_declines h).bind ⟨rfl, rfl⟩

theorem typeDecl_plain {reads : List Member → List Finding → Prop} {members : Parse (List Member)}
    (head : MemberHead) (declKind : TypeDeclKind)
    (hkeyword : input.sentence.kindAt state.position ≠ .eof)
    (hname : input.sentence.kindAt (state.position + 1) = .identifier)
    (hopening : input.sentence.kindAt (state.position + 1 + 1) = .lBrace)
    (hmembers : Ends members input { state with position := state.position + 1 + 1 + 1 }
      (ReadTo reads stop))
    (hclosing : input.sentence.kindAt stop = .rBrace)
    (heof : input.sentence.kindAt (stop + 1) = .eof) :
    Ends (typeDecl members head declKind) input state
      (ReadTo (fun member noted => ∃ info header opening? members closing? semicolon?,
        member = .typeDecl info header opening? members closing? semicolon? ∧ reads members noted)
        (stop + 1)) := by
  have hbody : Ends (braced members) input { state with position := state.position + 1 + 1 }
      (ReadTo (fun body noted => reads body.2.1 noted) (stop + 1)) := by
    unfold braced
    refine .expectTaken hopening (by decide) (hmembers.bind fun values after hvalues => ?_)
    obtain ⟨hreads, rfl⟩ := hvalues
    exact .expectTaken hclosing (by decide) (.pure ⟨hreads, rfl⟩)
  unfold typeDecl
  refine .advance hkeyword (.expectTaken hname (by decide) ?_)
  refine (typeParameters?_declines (by simp [hopening])).bind ?_
  refine (baseTypes_none (by simp [hopening])).bind ?_
  rintro _ _ ⟨rfl, rfl⟩
  refine hbody.bind ?_
  rintro ⟨opening?, values, closing?⟩ after ⟨hreads, hposition⟩
  rw [← hposition] at heof
  exact (eat_declines (by simp [heof])).bind
    (.memberInfo fun info => .pure ⟨⟨info, _, _, _, _, _, rfl, hreads⟩, hposition⟩)

theorem class_ends {post : Member → ParseState → Prop}
    (nested : ParseContext → Parse (List Member)) (context : ParseContext)
    (hclass : input.sentence.kindAt state.position = .classKw)
    (hdecl : ∀ head, Ends (typeDecl (nested context.enterType) head .classDecl) input state post) :
    Ends (member nested context) input state post := by
  unfold member
  refine .kind fun kind hkind => ?_
  obtain rfl : kind = .classKw := hkind.symm.trans hclass
  refine .memberHead hclass (by decide) fun head hqualifier => ?_
  unfold declaredMember
  rw [hqualifier]
  refine .kind fun kind hkind => ?_
  obtain rfl : kind = .classKw := hkind.symm.trans hclass
  exact hdecl head

theorem class_single {reads : Member → List Finding → Prop} (n : Nat) (context : ParseContext)
    (hclass : input.sentence.kindAt state.position = .classKw)
    (hname : input.sentence.kindAt (state.position + 1) = .identifier)
    (hopening : input.sentence.kindAt (state.position + 1 + 1) = .lBrace)
    (hstart : TokenSet.memberStart.contains
      (input.sentence.kindAt (state.position + 1 + 1 + 1)) = true)
    (hmember : Ends (member (membersWithin n) context.enterType) input
      { state with position := state.position + 1 + 1 + 1 } (ReadTo reads stop))
    (hlt : state.position + 1 + 1 + 1 < stop) (hclosing : input.sentence.kindAt stop = .rBrace)
    (heof : input.sentence.kindAt (stop + 1) = .eof) :
    Ends (member (membersWithin (n + 1)) context) input state
      (ReadTo (fun member noted => ∃ info header opening? inner closing? semicolon?,
        member = .typeDecl info header opening? [inner] closing? semicolon? ∧ reads inner noted)
        (stop + 1)) := by
  have hcontext : context.enterType.inTypeBody = true := by
    simp [ParseContext.enterType, ParseContext.replace, ParseContext.union, ParseContext.typeBody]
  have hplain : input.sentence.kindAt (state.position + 1 + 1 + 1) ≠ .eof ∧
      input.sentence.kindAt (state.position + 1 + 1 + 1) ≠ .rBrace := by
    constructor
    all_goals
      intro hkind
      simp [hkind, TokenSet.memberStart, TokenSet.modifierKeywords, TokenSet.typeStart,
        TokenSet.predefinedTypes, TokenSet.typeDeclKeywords] at hstart
  have hmembers := membersWithin_single (by rwa [ParseContext.memberStart, if_pos hcontext]) hplain
    (.inr ⟨hclosing, by rw [ParseContext.isBraced, hcontext, Bool.true_or]⟩) hlt hmember
  refine class_ends _ _ hclass fun head => (typeDecl_plain head .classDecl (by simp [hclass]) hname
    hopening hmembers hclosing heof).imp ?_
  rintro _ after ⟨⟨info, header, opening?, _, closing?, semicolon?, rfl, inner, rfl, hreads⟩,
    hposition⟩
  exact ⟨⟨info, header, opening?, inner, closing?, semicolon?, rfl, hreads⟩, hposition⟩

theorem compilationUnit_single {reads : Member → List Finding → Prop}
    (hclass : input.sentence.kindAt 0 = .classKw)
    (hname : input.sentence.kindAt 1 = .identifier)
    (hopening : input.sentence.kindAt 2 = .lBrace)
    (hstart : TokenSet.memberStart.contains (input.sentence.kindAt 3) = true)
    (hmember : ∀ n, Ends (member (membersWithin n) ParseContext.none.enterType) input
      { ParseState.start with position := 3 } (ReadTo reads stop))
    (hlt : 3 < stop) (hclosing : input.sentence.kindAt stop = .rBrace)
    (heof : input.sentence.kindAt (stop + 1) = .eof) :
    Ends compilationUnit input .start fun root after =>
      (∃ info header opening? inner closing? semicolon?,
        root.members = [.typeDecl info header opening? [inner] closing? semicolon?] ∧
          reads inner after.findings) := by
  have hsize := Sentence.lt_size_of_kindAt (by rw [hclosing]; decide)
  obtain ⟨n, hn⟩ : ∃ n, input.sentence.left ParseState.start.position = n + 1 + 1 :=
    ⟨input.sentence.size - 2, by
      simp only [Sentence.left, ParseState.start]
      omega⟩
  have hunit : Ends (member (membersWithin (n + 1)) .none) input .start
      (ReadTo (fun member noted => ∃ info header opening? inner closing? semicolon?,
        member = .typeDecl info header opening? [inner] closing? semicolon? ∧ reads inner noted)
        (stop + 1)) :=
    class_single n .none hclass hname hopening hstart (hmember n) hlt hclosing heof
  have hfirst : input.sentence.kindAt ParseState.start.position = .classKw := hclass
  have hmembers := membersWithin_single (by rw [hfirst]; decide +kernel) (by rw [hfirst]; decide)
    (.inl heof) (Nat.succ_pos stop) hunit
  unfold compilationUnit members
  refine Ends.bind (.left (by rw [hn]; exact hmembers)) ?_
  rintro _ after ⟨⟨_, rfl, info, header, opening?, inner, closing?, semicolon?, rfl, hreads⟩, -⟩
  exact .position (.pure ⟨info, header, opening?, inner, closing?, semicolon?, rfl, hreads⟩)

end TolerantSyntax.Parse
