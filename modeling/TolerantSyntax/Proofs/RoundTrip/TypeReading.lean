import TolerantSyntax.Proofs.RoundTrip.TypeParts
import TolerantSyntax.SyntaxTree

/-!
# Types are read back

Behind a name, a keyword or a tuple come suffixes, one by one, and ranks as many as there are.
A suffix takes what is in front of it into a longer type, so the loop is followed along the
term.  The token behind a part is a token of the whole or what follows the whole, and neither
goes on with the part.
-/

namespace TolerantSyntax

structure TypeTerm.ClosedAt (type : TypeTerm) (sentence : Sentence) (index : Nat) : Prop where
  rank : type.isArray = true → sentence.rankAt index = false
  lt : type.isUnargued = true → sentence.kindAt index ≠ .lt
  dot : type.isName = true → sentence.kindAt index = .dot →
    sentence.kindAt (index + 1) ≠ .identifier

namespace TypeTerm

variable {sentence : Sentence} {word : Nat → Spelling} {index : Nat} {type : TypeTerm}

theorem EndsAt.closed (h : type.EndsAt sentence index) : type.ClosedAt sentence index :=
  ⟨fun _ => h.rank, h.lt, h.dot⟩

theorem ClosedAt.of_suffix (hlt : sentence.kindAt index ≠ .lt) (hdot : sentence.kindAt index ≠ .dot)
    (hrank : type.isArray = true → sentence.rankAt index = false) :
    type.ClosedAt sentence index :=
  ⟨hrank, fun _ => hlt, fun _ h => absurd h hdot⟩

theorem isNullable_of_term {tree : TypeSyntax} (h : tree.term? word = some type) :
    tree.isNullable = type.isNullable := by
  cases tree with
  | nullable =>
      simp only [TypeSyntax.term?, Option.pure_def, Option.bind_eq_bind, Option.bind_eq_some_iff,
        Option.some.injEq] at h
      obtain ⟨inner, -, rfl⟩ := h
      rfl
  | generic range name lt args gt? | tuple range opening args gt? =>
      cases gt? with
      | none => simp [TypeSyntax.term?] at h
      | some gt =>
          simp only [TypeSyntax.term?, Option.pure_def, Option.bind_eq_bind,
            Option.bind_eq_some_iff, Option.some.injEq] at h
          obtain ⟨terms, -, rfl⟩ := h
          rfl
  | qualified | array =>
      simp only [TypeSyntax.term?, Option.pure_def, Option.bind_eq_bind, Option.bind_eq_some_iff,
        Option.some.injEq] at h
      obtain ⟨first, -, second, -, rfl⟩ := h
      rfl
  | pointer =>
      simp only [TypeSyntax.term?, Option.pure_def, Option.bind_eq_bind, Option.bind_eq_some_iff,
        Option.some.injEq] at h
      obtain ⟨inner, -, rfl⟩ := h
      rfl
  | predefined | named =>
      simp only [TypeSyntax.term?, Option.some.injEq] at h
      subst h
      rfl
  | byRef | missing => simp [TypeSyntax.term?] at h

end TypeTerm

namespace Parse

variable {n : Nat} {input : Input} {word : Nat → Spelling} {state : ParseState}
  {nested : Parse TypeSyntax} {type : TypeTerm} {stop : Nat}

/-! ## Ranks and suffixes -/

theorem arrayRank_back {rank : Nat} (hrank : 1 ≤ rank)
    (htells : input.sentence.Tells word state.position (TypeTerm.rankSigns rank)) :
    Ends arrayRank input state
      (Back (fun got => got.dimensions = rank ∧ got.closing?.isSome = true)
        (state.position + (TypeTerm.rankSigns rank).length) state) := by
  have hopening : input.sentence.kindAt state.position = .lBracket := htells.kind
  obtain ⟨hcommas, hbehind⟩ := Sentence.tells_append.mp htells.tail
  rw [List.length_replicate] at hbehind
  have hclosing : input.sentence.kindAt (state.position + 1 + (rank - 1)) = .rBracket :=
    hbehind.kind
  have hall : input.sentence.Tells word (state.position + 1)
      ((List.replicate (rank - 1) ()).flatMap fun _ => [Sign.fixed .comma]) := by
    simpa [List.flatMap_replicate] using hcommas
  have hrow := Sentence.Row.of_signs (fun _ _ _ => Sentence.tells_append.mp)
    (Nat.le_refl (state.position + 1)) (fun _ hmem => hmem) (fun _ _ => by simp)
    (fun _ _ index hcomma => by rw [hcomma.kind]; decide)
    (show state.position + 1 + (rank - 1) = _ by simp) hall
  have hmany : Ends (many (eat .comma)) input { state with position := state.position + 1 }
      (Back (List.Forall₂ (fun (_ : Unit) (_ : Nat) => True) (List.replicate (rank - 1) ()))
        (state.position + 1 + (rank - 1)) { state with position := state.position + 1 }) := by
    refine many_back ?_ ?_ hrow
    · rintro _ - before middle ⟨-, hcomma, rfl, -⟩
      have hkind : input.sentence.kindAt before.position = .comma := hcomma.kind
      refine (eat_ends (by decide)).imp ?_
      rintro _ _ (⟨-, rfl, rfl⟩ | ⟨hno, -, -⟩)
      · exact ⟨_, rfl, trivial, rfl, .of_findings rfl⟩
      · exact absurd hkind hno
    · intro after hposition
      exact eat_declines (by simp [hposition, hclosing])
  unfold arrayRank
  refine .advance (by simp [hopening]) (hmany.bind fun commas after hback => ?_)
  rw [← hback.position] at hclosing
  refine .expectTaken hclosing (by decide) (.pure ⟨⟨?_, rfl⟩, ?_, hback.quiet⟩)
  · have hcount := hback.reads.length_eq
    rw [List.length_replicate] at hcount
    dsimp only
    omega
  · simp only [TypeTerm.rankSigns, List.length_cons, List.length_append, List.length_replicate,
      List.length_nil, hback.position]
    omega

theorem dimensions_of_forall₂ {ranks : List Nat} {trees : List ArrayRank}
    (h : List.Forall₂ (fun rank tree => tree.dimensions = rank ∧ tree.closing?.isSome = true) ranks
      trees) :
    ArrayRank.dimensions? trees = some ranks := by
  induction h with
  | nil => rfl
  | @cons rank tree _ _ htree _ ih =>
      obtain ⟨opening, dimensions, closing?⟩ := tree
      obtain ⟨rfl, hclosing⟩ := htree
      obtain ⟨closing, rfl⟩ := Option.isSome_iff_exists.mp hclosing
      simp [ArrayRank.dimensions?, ih]

theorem rankAt_of_tells {index rank : Nat}
    (h : input.sentence.Tells word index (TypeTerm.rankSigns rank)) :
    input.sentence.rankAt index = true := by
  have hopening : input.sentence.kindAt index = .lBracket := h.kind
  have hnext : input.sentence.kindAt (index + 1) = .comma ∨
      input.sentence.kindAt (index + 1) = .rBracket := by
    have hbehind := h.tail
    cases hcommas : List.replicate (rank - 1) (Sign.fixed .comma) with
    | nil =>
        rw [hcommas] at hbehind
        exact .inr hbehind.kind
    | cons sign rest =>
        rw [hcommas] at hbehind
        obtain rfl : sign = .fixed .comma :=
          List.eq_of_mem_replicate (hcommas ▸ List.mem_cons_self)
        exact .inl hbehind.kind
  rcases hnext with hnext | hnext <;> simp [Sentence.rankAt, hopening, hnext]

theorem ranks_back {ranks : List Nat} (hranks : ∀ rank ∈ ranks, 1 ≤ rank)
    (htells : input.sentence.Tells word state.position (ranks.flatMap TypeTerm.rankSigns))
    (hstop : stop = state.position + (ranks.flatMap TypeTerm.rankSigns).length)
    (hbehind : input.sentence.rankAt stop = false) :
    Ends (many arrayRank?) input state
      (Back (fun trees => ArrayRank.dimensions? trees = some ranks) stop state) := by
  have hrow := Sentence.Row.of_signs (fun _ _ _ => Sentence.tells_append.mp)
    (Nat.le_refl state.position) (fun _ hmem => hmem) (fun _ _ => List.cons_ne_nil _ _)
    (fun _ _ index hrank => by rw [hrank.kind]; decide) hstop htells
  have hmany : Ends (many arrayRank?) input state
      (Back (List.Forall₂ (fun rank tree => tree.dimensions = rank ∧ tree.closing?.isSome = true)
        ranks) stop state) := by
    refine many_back ?_ ?_ hrow
    · rintro rank hmem before middle ⟨-, hrank, rfl, -⟩
      refine whenever_ends (fun _ => ?_) fun hno => ?_
      · exact (arrayRank_back (hranks rank hmem) hrank).imp fun got after hgot => ⟨got, rfl, hgot⟩
      · rw [rankAt_of_tells hrank] at hno
        cases hno
    · intro after hposition
      exact whenever_declines (by rw [hposition, hbehind])
  exact hmany.imp fun trees after h => ⟨dimensions_of_forall₂ h.reads, h.position, h.quiet⟩

section Suffixes

variable {first : Nat} {before : ParseState} {tree : TypeSyntax} {inner : TypeTerm}
  (htree : TypeBack word inner state.position before tree state)
include htree

theorem nullable_back (honce : inner.isNullable = false)
    (hkind : input.sentence.kindAt state.position = .question) :
    Ends (typeSuffix? first tree) input state
      (Given (TypeBack word (.nullable inner) (state.position + 1) before)) := by
  have hnot : tree.isNullable = false := (TypeTerm.isNullable_of_term htree.reads).trans honce
  unfold typeSuffix?
  refine .kind fun kind hkind' => ?_
  obtain rfl : kind = .question := hkind'.symm.trans hkind
  refine .ite (fun hyes => by simp [hnot] at hyes) fun _ => ?_
  refine .advance (by simp [hkind]) (.rangeFrom (.pure ⟨_, rfl, ?_, rfl, htree.quiet⟩))
  simp [TypeSyntax.term?, htree.reads]

theorem pointer_back (hkind : input.sentence.kindAt state.position = .star) :
    Ends (typeSuffix? first tree) input state
      (Given (TypeBack word (.pointer inner) (state.position + 1) before)) := by
  unfold typeSuffix?
  refine .kind fun kind hkind' => ?_
  obtain rfl : kind = .star := hkind'.symm.trans hkind
  refine .advance (by simp [hkind]) (.rangeFrom (.pure ⟨_, rfl, ?_, rfl, htree.quiet⟩))
  simp [TypeSyntax.term?, htree.reads]

theorem array_back {ranks : List Nat} (hsome : ranks ≠ []) (hranks : ∀ rank ∈ ranks, 1 ≤ rank)
    (htells : input.sentence.Tells word state.position (ranks.flatMap TypeTerm.rankSigns))
    (hstop : stop = state.position + (ranks.flatMap TypeTerm.rankSigns).length)
    (hbehind : input.sentence.rankAt stop = false) :
    Ends (typeSuffix? first tree) input state
      (Given (TypeBack word (.array inner ranks) stop before)) := by
  have hkind : input.sentence.kindAt state.position = .lBracket := by
    obtain ⟨rank, rest, rfl⟩ := List.exists_cons_of_ne_nil hsome
    exact htells.kind
  unfold typeSuffix?
  refine .kind fun kind hkind' => ?_
  obtain rfl : kind = .lBracket := hkind'.symm.trans hkind
  refine (ranks_back hranks htells hstop hbehind).bind fun trees after htrees => ?_
  cases trees with
  | nil => cases htrees.reads; exact absurd rfl hsome
  | cons rank rest =>
      refine .rangeFrom (.pure ⟨_, rfl, ?_, htrees.position, htree.quiet.trans htrees.quiet⟩)
      simp [TypeSyntax.term?, htree.reads, htrees.reads]

theorem typeSuffix?_ends (hends : inner.EndsAt input.sentence state.position) :
    Declines (typeSuffix? first tree) input state := by
  unfold typeSuffix?
  refine .kind fun kind hkind => ?_
  split
  · have hnullable : tree.isNullable = true :=
      (TypeTerm.isNullable_of_term htree.reads).trans (hends.question hkind)
    rw [if_pos hnullable]
    exact .pure ⟨rfl, rfl⟩
  · exact absurd hkind hends.star
  · have hranks : Ends (many arrayRank?) input state fun ranks after =>
        ranks = [] ∧ after = state := many_declined (whenever_declines hends.rank) ⟨rfl, rfl⟩
    refine hranks.bind ?_
    rintro _ _ ⟨rfl, rfl⟩
    exact .pure ⟨rfl, rfl⟩
  · exact .pure ⟨rfl, rfl⟩

end Suffixes

/-! ## Types -/

section Nested

variable (hnested : RestoresTypes n input word nested)
include hnested

theorem typeStep_leads (hterm : type.WellFormed)
    (htells : input.sentence.Tells word state.position type.signs)
    (hn : input.sentence.left state.position ≤ n + 1)
    (hclosed : type.ClosedAt input.sentence (state.position + type.signs.length)) :
    Leads (typeStep nested) (typeSuffix? state.position) input state
      (TypeBack word type (state.position + type.signs.length) state) := by
  have hname {type : TypeTerm} (hterm : type.WellFormed) (hname : type.isName = true)
      (htells : input.sentence.Tells word state.position type.signs)
      (hclosed : type.ClosedAt input.sentence (state.position + type.signs.length))
      (hkind : input.sentence.kindAt state.position = .identifier) :
      Leads (typeStep nested) (typeSuffix? state.position) input state
        (TypeBack word type (state.position + type.signs.length) state) := by
    intro post hpost
    unfold typeStep
    refine .position (.kind fun kind hkind' => ?_)
    obtain rfl : kind = .identifier := hkind'.symm.trans hkind
    exact Leads.of_first (qualifiedName_back hnested hterm hname htells hn hclosed.lt
      (hclosed.dot hname)) post hpost
  have hgrow {inner whole : TypeTerm} {kind : TokenKind}
      (hloop : Leads (typeStep nested) (typeSuffix? state.position) input state
        (TypeBack word inner (state.position + inner.signs.length) state))
      (hkind : input.sentence.kindAt (state.position + inner.signs.length) = kind)
      (heof : kind ≠ .eof) (hlonger : inner.signs.length < whole.signs.length)
      (hstep : ∀ tree after, TypeBack word inner after.position state tree after →
        after.position = state.position + inner.signs.length →
        Ends (typeSuffix? state.position tree) input after
          (Given (TypeBack word whole (state.position + whole.signs.length) state))) :
      Leads (typeStep nested) (typeSuffix? state.position) input state
        (TypeBack word whole (state.position + whole.signs.length) state) := by
    refine hloop.grow (fun tree after htree => ?_) fun tree after htree => ?_
    · rw [htree.position, hkind]
      exact heof
    · refine (hstep tree after ⟨htree.reads, rfl, htree.quiet⟩ htree.position).imp ?_
      rintro _ last ⟨grown, rfl, hgrown⟩
      refine ⟨grown, rfl, hgrown, ?_⟩
      rw [htree.position, hgrown.position]
      omega
  induction hterm with
  | @predefined keyword hkeyword =>
      intro post hpost
      have hkind : input.sentence.kindAt state.position = keyword := htells.kind
      have hword : (word state.position).kind = keyword := htells.1.2.1
      unfold typeStep
      refine .position (.kind fun kind hkind' => ?_)
      obtain rfl : kind = keyword := hkind'.symm.trans hkind
      split
      · cases hkeyword
      · cases hkeyword
      · rw [if_pos hkeyword]
        refine .advance ?_ (.rangeFrom (.left (hpost _ _ _ ?_ (Nat.le_refl _))))
        · rw [hkind]
          rintro rfl
          cases hkeyword
        · exact ⟨by simp [TypeSyntax.term?, hword], rfl, .of_findings rfl⟩
  | named name => exact hname (.named name) rfl htells hclosed htells.kind
  | generic name hsome hargs hnames =>
      exact hname (.generic name hsome hargs hnames) rfl htells hclosed htells.kind
  | qualified hleft hsimple hwell hright =>
      have hterm := TypeTerm.WellFormed.qualified hleft hsimple hwell hright
      exact hname hterm rfl htells hclosed (hterm.name_head rfl htells)
  | tuple hlong hterms =>
      intro post hpost
      have hkind : input.sentence.kindAt state.position = .lParen := htells.kind
      unfold typeStep
      refine .position (.kind fun kind hkind' => ?_)
      obtain rfl : kind = .lParen := hkind'.symm.trans hkind
      exact Leads.of_first (tupleType_back hnested (.tuple hlong hterms) htells hn) post hpost
  | @nullable inner honce _ ih =>
      obtain ⟨hfront, hback⟩ := Sentence.tells_append.mp htells
      have hkind : input.sentence.kindAt (state.position + inner.signs.length) = .question :=
        hback.kind
      have hlength : (TypeTerm.nullable inner).signs.length = inner.signs.length + 1 := by
        simp [TypeTerm.signs]
      refine hgrow (ih hfront (.of_suffix (by simp [hkind]) (by simp [hkind]) fun _ => ?_)) hkind
        (by decide) (by omega) fun tree after htree hposition => ?_
      · simp [Sentence.rankAt, hkind]
      · rw [hlength, ← Nat.add_assoc, ← hposition]
        exact nullable_back htree honce (by rw [hposition, hkind])
  | @pointer inner _ ih =>
      obtain ⟨hfront, hback⟩ := Sentence.tells_append.mp htells
      have hkind : input.sentence.kindAt (state.position + inner.signs.length) = .star := hback.kind
      have hlength : (TypeTerm.pointer inner).signs.length = inner.signs.length + 1 := by
        simp [TypeTerm.signs]
      refine hgrow (ih hfront (.of_suffix (by simp [hkind]) (by simp [hkind]) fun _ => ?_)) hkind
        (by decide) (by omega) fun tree after htree hposition => ?_
      · simp [Sentence.rankAt, hkind]
      · rw [hlength, ← Nat.add_assoc, ← hposition]
        exact pointer_back htree (by rw [hposition, hkind])
  | @array element ranks hflat hsome hranks _ ih =>
      obtain ⟨hfront, hback⟩ := Sentence.tells_append.mp htells
      have hkind : input.sentence.kindAt (state.position + element.signs.length) = .lBracket := by
        obtain ⟨rank, rest, rfl⟩ := List.exists_cons_of_ne_nil hsome
        exact hback.kind
      have hlength : (TypeTerm.array element ranks).signs.length =
          element.signs.length + (ranks.flatMap TypeTerm.rankSigns).length := by
        rw [TypeTerm.signs, List.length_append]
      refine hgrow (ih hfront (.of_suffix (by simp [hkind]) (by simp [hkind]) fun harray => ?_))
        hkind (by decide) ?_ fun tree after htree hposition => ?_
      · rw [hflat] at harray
        cases harray
      · obtain ⟨rank, rest, rfl⟩ := List.exists_cons_of_ne_nil hsome
        simp only [hlength, List.flatMap_cons, TypeTerm.rankSigns, List.cons_append,
          List.length_cons]
        omega
      · refine array_back htree hsome hranks ?_ ?_ (hclosed.rank rfl)
        · rw [hposition]
          exact hback
        · rw [hlength, hposition, Nat.add_assoc]

theorem typeStep_restores : RestoresTypes (n + 1) input word (typeStep nested) := by
  rintro type state _ hterm htells rfl hn hends
  refine (typeStep_leads hnested hterm htells hn hends.closed).ends fun tree after htree => ?_
  have hposition := htree.position
  rw [← hposition] at hends
  exact typeSuffix?_ends ⟨htree.reads, rfl, htree.quiet⟩ hends

end Nested

theorem typeWithin_restores (n : Nat) : RestoresTypes n input word (typeWithin n) := by
  induction n with
  | zero =>
      intro type state stop hterm htells _ hn _
      obtain ⟨-, -, heof⟩ := not_qualifierAt_of_head rfl (hterm.head htells)
      have hlt := Sentence.lt_size_of_kindAt heof
      unfold Sentence.left at hn
      omega
  | succ n ih => exact typeStep_restores ih

/-- In front of what does not go on with it, every type is read back. -/
theorem type_back (hterm : type.WellFormed)
    (htells : input.sentence.Tells word state.position type.signs)
    (hends : type.EndsAt input.sentence (state.position + type.signs.length)) :
    Ends Parse.type input state
      (TypeBack word type (state.position + type.signs.length) state) :=
  .left (typeWithin_restores _ type state _ hterm htells rfl (Nat.le_refl _) hends)

theorem Quiet.findingsIn {before after : ParseState} (h : Quiet before after) (source : String)
    (tokens : TokenList) {version : LanguageVersion} (hversion : .v7 ≤ version) :
    SyntaxTree.findingsIn source tokens version after =
      SyntaxTree.findingsIn source tokens version before := by
  obtain ⟨places, hplaces⟩ := h
  have hnone (place : Nat) :
      (Finding.uses .tuples place).diagnostic? source tokens version = none :=
    if_pos (decide_eq_true hversion)
  have hnoted : (places.map (Finding.uses .tuples)).reverse.filterMap
      (·.diagnostic? source tokens version) = [] := by
    rw [List.filterMap_eq_nil_iff]
    intro finding hmem
    obtain ⟨place, -, rfl⟩ := List.mem_map.mp (List.mem_reverse.mp hmem)
    exact hnone place
  rw [SyntaxTree.findingsIn, hplaces, List.reverse_append, List.filterMap_append, hnoted,
    List.append_nil, SyntaxTree.findingsIn]

/-- A type is read back from any tokens that are its own, in front of a token that does not go
on with it, and nothing is reported since there are tuple types. -/
theorem type_restored {source : String} {tokens : TokenList} {type : TypeTerm}
    (hterm : type.WellFormed) {state : ParseState}
    (htells : (Sentence.ofTokens tokens).Tells
      (fun index => (Finding.tokenAt tokens index).spelling source) state.position type.signs)
    (hends : type.EndsAt (.ofTokens tokens) (state.position + type.signs.length))
    {version : LanguageVersion} (hversion : .v7 ≤ version) :
    ∃ tree after, Parse.type (.ofSentence (.ofTokens tokens)) state = (tree, after) ∧
      tree.term? (fun index => (Finding.tokenAt tokens index).spelling source) = some type ∧
      after.position = state.position + type.signs.length ∧
      SyntaxTree.findingsIn source tokens version after =
        SyntaxTree.findingsIn source tokens version state := by
  have hback : Ends Parse.type (.ofSentence (.ofTokens tokens)) state
      (TypeBack _ type (state.position + type.signs.length) state) :=
    type_back hterm htells hends
  exact ⟨_, _, rfl, hback.reads, Back.position hback,
    Quiet.findingsIn hback.quiet source tokens hversion⟩

def mixedType : TypeTerm :=
  .tuple [
    .mk (.array (.pointer (.nullable (.predefined .intKw))) [2, 1]) (some "a"),
    .mk (.qualified (.named "N") (.generic "L" [.mk (.generic "K" [.mk (.named "V") none]) none]))
      none]

theorem type_restored_mixed :
    mixedType.WellFormed ∧ mixedType.signs.length = 21 ∧
      ∃ tree after,
        Parse.type (.ofSentence (.ofTokens (lex "(int?*[,][] a, N.L<K<V>>) x").tokens)) .start =
          (tree, after) ∧
        tree.term? (fun index =>
          (Finding.tokenAt (lex "(int?*[,][] a, N.L<K<V>>) x").tokens index).spelling
            "(int?*[,][] a, N.L<K<V>>) x") = some mixedType ∧
        after.position = 0 + mixedType.signs.length ∧
        SyntaxTree.findingsIn "(int?*[,][] a, N.L<K<V>>) x"
          (lex "(int?*[,][] a, N.L<K<V>>) x").tokens .v7_1 after = [] := by
  have hwellFormed : mixedType.WellFormed := by
    refine .tuple (by decide) (List.forall_mem_cons.mpr ⟨?_, List.forall_mem_singleton.mpr ?_⟩)
    · exact .array rfl (by decide) (by decide) (.pointer (.nullable rfl (.predefined rfl)))
    · refine .qualified rfl rfl (.named "N") (.generic "L" (by decide) ?_ (by decide))
      refine List.forall_mem_singleton.mpr (.generic "K" (by decide) ?_ (by decide))
      exact List.forall_mem_singleton.mpr (.named "V")
  exact ⟨hwellFormed, by decide,
    type_restored hwellFormed (by decide) (.of_kind (by decide)) (by decide)⟩

end Parse
end TolerantSyntax
