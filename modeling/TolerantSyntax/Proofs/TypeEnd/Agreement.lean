import TolerantSyntax.Grammar.Type
import TolerantSyntax.Proofs.Diagnostics
import TolerantSyntax.Proofs.TypeEnd.Table

/-!
# The scan ends where types end

The productions of the type grammar move exactly as the scan over types does, also where
a closing symbol or an element is missing.  Both are bounded by the symbols left, so one
induction on the fuel relates a production that nests types to its scan.
-/

namespace TolerantSyntax.Parse

variable {input : Input} {state : ParseState}

theorem eat_behind {kind : TokenKind} (hkind : kind ≠ .eof) :
    Ends (eat kind) input state fun _ after =>
      after.position = input.sentence.behind kind state.position := by
  apply (eat_ends hkind).imp
  rintro token? after (⟨hyes, -, rfl⟩ | ⟨hno, -, rfl⟩)
  · simp [Sentence.behind, hyes]
  · simp [Sentence.behind, hno]

theorem expect_behind {kind : TokenKind} (hkind : kind ≠ .eof) :
    Ends (expect kind) input state fun _ after =>
      after.position = input.sentence.behind kind state.position := by
  apply (expect_ends hkind).imp
  rintro token? after (⟨hyes, -, rfl⟩ | ⟨hno, -, rfl⟩)
  · simp [Sentence.behind, hyes]
  · simp [Sentence.behind, hno]

/-- Where a scan has an end, a type that ends there; where it has none, nothing is taken
and this is noted. -/
def TypeEndsAt (scanned? : Option Nat) (before : ParseState) (type : TypeSyntax)
    (after : ParseState) : Prop :=
  match scanned? with
  | some stop => type.isMissing = false ∧ after.position = stop
  | none =>
      type.isMissing = true ∧
        after = { before with findings := .typeExpected before.position :: before.findings }

theorem TypeEndsAt.position {scanned? : Option Nat} {before after : ParseState}
    {type : TypeSyntax} (h : TypeEndsAt scanned? before type after) :
    after.position = scanned?.getD before.position := by
  cases scanned? with
  | some stop => exact h.2
  | none =>
      obtain ⟨-, rfl⟩ := h
      rfl

/-- From a bound on a parse of types ends where the scan does. -/
def FollowsFrom (bound : Nat) (parse : Parse TypeSyntax) (input : Input)
    (scan : Nat → Option Nat) : Prop :=
  ∀ state : ParseState, bound ≤ state.position →
    Ends parse input state (TypeEndsAt (scan state.position) state)

section Nested

variable {bound : Nat} {nested : Parse TypeSyntax} {scan : Nat → Option Nat}

/-! ## Elements and names -/

theorem readonly_behind {atRef : Bool}
    (h : input.sentence.qualifierAt state.position = atRef) :
    Ends (if atRef then eat .readonlyKw else pure none) input state fun _ after =>
      after.position = input.sentence.behindReadonly state.position := by
  apply Ends.ite
  · intro hyes
    apply (eat_behind (by decide)).imp
    intro readonly? after hafter
    rw [hafter, Sentence.behind, Sentence.behindReadonly]
    by_cases hreadonly : input.sentence.kindAt state.position = .readonlyKw
    · have href : input.sentence.kindAt (state.position + 1) = .refKw := by
        simpa [Sentence.qualifierAt, hreadonly] using h.trans hyes
      simp [hreadonly, href]
    · simp [hreadonly]
  · intro hno
    apply Ends.pure
    rw [Sentence.behindReadonly, if_neg]
    rintro ⟨hreadonly, href⟩
    apply hno
    rw [← h]
    simp [Sentence.qualifierAt, hreadonly, href]

theorem name_behind (named : Bool) :
    Ends (if named then eat .identifier else pure none) input state fun _ after =>
      after.position = input.sentence.nameEnd named state.position := by
  unfold Sentence.nameEnd
  apply Ends.ite
  · intro hnamed
    apply (eat_behind (by decide)).imp
    intro name? after hname
    rw [hname, Sentence.behind]
    simp [hnamed]
  · intro hnamed
    apply Ends.pure
    simp [hnamed]

theorem elementType_follows (hnested : FollowsFrom bound nested input scan) (named : Bool)
    (hbound : bound ≤ state.position) :
    Ends (elementType nested named) input state fun _ after =>
      after.position = input.sentence.elementEnd scan named state.position := by
  unfold elementType
  apply Ends.position
  apply Ends.ask
  intro atRef hatRef
  apply Ends.join (readonly_behind hatRef)
  intro readonly? after₁ hreadonly
  apply Ends.position
  apply (eat_behind (by decide)).bind
  intro ref? after₂ href
  have hstart : after₂.position = input.sentence.elementStart state.position := by
    rw [href, hreadonly]
    rfl
  apply Ends.skip (fun after => after.position = after₂.position)
  · intro _
    exact rfl
  · intro _
    rfl
  intro after₃ hskip
  rw [hstart] at hskip
  have hle := input.sentence.le_elementStart state.position
  apply (hnested after₃ (by omega)).bind
  intro type after₄ htype
  have htype' := htype.position
  rw [hskip] at htype'
  apply Ends.join (name_behind named)
  intro name? after₅ hname
  rw [htype'] at hname
  exact .rangeFrom (.pure hname)

theorem elements_follow (hnested : FollowsFrom bound nested input scan)
    (hscan : Sentence.AgreeFrom bound scan scan) (named : Bool) (n : Nat)
    (hbound : bound ≤ state.position) :
    Ends (separatedWithin (elementType nested named) n) input state fun _ after =>
      after.position = input.sentence.elementsEndWithin scan named n state.position := by
  induction n generalizing state with
  | zero =>
      unfold separatedWithin
      apply (elementType_follows hnested named hbound).bind
      intro element after helement
      exact .pure helement
  | succ n ih =>
      have hforward := (input.sentence.elementEnd_agree hscan named hbound).2
      unfold separatedWithin Sentence.elementsEndWithin
      apply (elementType_follows hnested named hbound).bind
      intro element after₁ helement
      apply (eat_ends (by decide)).bind
      rintro comma? after₂ (⟨hyes, rfl, rfl⟩ | ⟨hno, rfl, rfl⟩)
      · rw [helement] at hyes
        simp only [if_pos hyes]
        rw [← helement]
        apply (ih (by simp only; omega)).bind
        intro more after₃ hmore
        exact .pure hmore
      · rw [helement] at hno
        simp only [if_neg hno]
        exact .pure helement

theorem typeArguments_follows (hnested : FollowsFrom bound nested input scan)
    (hscan : Sentence.AgreeFrom bound scan scan) (hbound : bound ≤ state.position + 1)
    (hkind : input.sentence.kindAt state.position ≠ .eof) :
    Ends (typeArguments nested) input state fun _ after =>
      after.position = input.sentence.listEnd scan false .gt (state.position + 1) := by
  unfold typeArguments separated
  apply Ends.advance hkind
  apply Ends.bind (Ends.left (elements_follow hnested hscan false _ hbound))
  intro args after₁ hargs
  apply (expect_behind (by decide)).bind
  intro gt? after₂ hgt
  rw [hargs] at hgt
  exact .pure hgt

theorem tupleType_follows (hnested : FollowsFrom bound nested input scan)
    (hscan : Sentence.AgreeFrom bound scan scan) (hbound : bound ≤ state.position + 1)
    (hkind : input.sentence.kindAt state.position ≠ .eof) :
    Ends (tupleType nested) input state fun type after =>
      (type.isMissing = false ∧ type.isNullable = false) ∧
        after.position = input.sentence.tupleEnd scan state.position := by
  unfold tupleType separated
  apply Ends.position
  apply Ends.noteHere
  apply Ends.advance
  · exact hkind
  apply Ends.bind (Ends.left (elements_follow hnested hscan true _ hbound))
  intro elements after₁ helements
  apply (expect_behind (by decide)).bind
  intro closing? after₂ hclosing
  rw [helements] at hclosing
  apply Ends.skip (fun after => after.position = after₂.position)
  · intro _
    exact rfl
  · intro _
    rfl
  intro after₃ hskip
  exact .rangeFrom (.pure ⟨⟨rfl, rfl⟩, hskip.trans hclosing⟩)

theorem simpleName_follows (hnested : FollowsFrom bound nested input scan)
    (hscan : Sentence.AgreeFrom bound scan scan) (hbound : bound ≤ state.position + 1)
    (hkind : input.sentence.kindAt state.position ≠ .eof) :
    Ends (simpleName nested) input state fun type after =>
      (type.isMissing = false ∧ type.isNullable = false) ∧
        after.position = input.sentence.simpleNameEnd scan state.position := by
  unfold simpleName Sentence.simpleNameEnd
  apply Ends.position
  apply Ends.advance hkind
  apply Ends.checkIf
  · intro hlt
    simp only at hlt
    rw [if_pos hlt]
    apply Ends.bind (typeArguments_follows hnested hscan (Nat.le_succ_of_le hbound)
      (by simp [hlt]))
    intro args after hargs
    exact .rangeFrom (.pure ⟨⟨rfl, rfl⟩, hargs⟩)
  · intro hlt
    simp only at hlt
    rw [if_neg hlt]
    exact .rangeFrom (.pure ⟨⟨rfl, rfl⟩, rfl⟩)

theorem segment?_follows (hnested : FollowsFrom bound nested input scan)
    (hscan : Sentence.AgreeFrom bound scan scan) (start : Nat) (left : TypeSyntax)
    (hbound : bound ≤ state.position) :
    Ends (segment? nested start left) input state fun type? after =>
      match type? with
      | none =>
          ¬(input.sentence.kindAt state.position = .dot ∧
            input.sentence.kindAt (state.position + 1) = .identifier) ∧ after = state
      | some type =>
          (input.sentence.kindAt state.position = .dot ∧
              input.sentence.kindAt (state.position + 1) = .identifier) ∧
            (type.isMissing = false ∧ type.isNullable = false) ∧
            after.position = input.sentence.simpleNameEnd scan (state.position + 1) := by
  unfold segment?
  apply Ends.askIf
  · intro hsegment
    have hkinds : input.sentence.kindAt state.position = .dot ∧
        input.sentence.kindAt (state.position + 1) = .identifier := by simpa using hsegment
    apply Ends.advance (by simp [hkinds.1])
    apply (simpleName_follows hnested hscan (by simp only; omega) (by simp [hkinds.2])).bind
    rintro right after ⟨-, hafter⟩
    exact .rangeFrom (.pure ⟨hkinds, ⟨rfl, rfl⟩, hafter⟩)
  · intro hsegment
    apply Ends.pure
    constructor
    · simpa using hsegment
    · rfl

theorem segments_follow (hnested : FollowsFrom bound nested input scan)
    (hscan : Sentence.AgreeFrom bound scan scan) (start n : Nat) {left : TypeSyntax}
    (hleft : left.isMissing = false ∧ left.isNullable = false)
    (hbound : bound ≤ state.position) :
    Ends (growWithin (segment? nested start) n left) input state fun type after =>
      (type.isMissing = false ∧ type.isNullable = false) ∧
        after.position = input.sentence.segmentsEndWithin scan n state.position := by
  induction n generalizing left state with
  | zero => exact .pure ⟨hleft, rfl⟩
  | succ n ih =>
      unfold growWithin Sentence.segmentsEndWithin
      apply (segment?_follows hnested hscan start left hbound).bind
      intro type? after h
      cases type? with
      | none =>
          obtain ⟨hstop, rfl⟩ := h
          rw [if_neg hstop]
          exact .pure ⟨hleft, rfl⟩
      | some type =>
          obtain ⟨hsegment, htype, hafter⟩ := h
          have hname : bound ≤ state.position + 1 + 1 := by omega
          have hforward := (input.sentence.simpleNameEnd_agree hscan hname).2
          rw [if_pos hsegment, ← hafter]
          exact ih htype (by omega)

theorem qualifiedName_follows (hnested : FollowsFrom bound nested input scan)
    (hscan : Sentence.AgreeFrom bound scan scan) (hbound : bound ≤ state.position + 1)
    (hkind : input.sentence.kindAt state.position ≠ .eof) :
    Ends (qualifiedName nested) input state fun type after =>
      (type.isMissing = false ∧ type.isNullable = false) ∧
        after.position = input.sentence.qualifiedNameEnd scan state.position := by
  unfold qualifiedName grow Sentence.qualifiedNameEnd
  apply Ends.position
  apply (simpleName_follows hnested hscan hbound hkind).bind
  rintro name after ⟨hname, hafter⟩
  have hforward := (input.sentence.simpleNameEnd_agree hscan hbound).2
  simp only
  rw [← hafter]
  apply Ends.left
  exact segments_follow hnested hscan _ _ hname (by omega)

end Nested

/-! ## Suffixes and types -/

theorem commas_follow (n : Nat) :
    Ends (manyWithin (eat .comma) n) input state fun _ after =>
      after.position = input.sentence.commasEndWithin n state.position := by
  induction n generalizing state with
  | zero => exact .pure rfl
  | succ n ih =>
      unfold manyWithin Sentence.commasEndWithin
      apply (eat_ends (by decide)).bind
      rintro comma? after (⟨hyes, rfl, rfl⟩ | ⟨hno, rfl, rfl⟩)
      · rw [if_pos hyes]
        apply ih.bind
        intro more last hlast
        exact .pure hlast
      · rw [if_neg hno]
        exact .pure rfl

theorem arrayRank_follows (hkind : input.sentence.kindAt state.position ≠ .eof) :
    Ends arrayRank input state fun _ after =>
      after.position = input.sentence.rankEnd state.position := by
  unfold arrayRank many
  apply Ends.advance hkind
  apply Ends.bind (Ends.left (commas_follow _))
  intro commas after₁ hcommas
  apply (expect_behind (by decide)).bind
  intro closing? after₂ hclosing
  apply Ends.pure
  rw [hclosing, hcommas, Sentence.rankEnd_eq]

theorem arrayRank?_follows :
    Ends arrayRank? input state fun rank? after =>
      match rank? with
      | none => input.sentence.rankAt state.position = false ∧ after = state
      | some _ =>
          input.sentence.rankAt state.position = true ∧
            after.position = input.sentence.rankEnd state.position := by
  apply whenever_ends
  · intro hrank
    have hkind := Sentence.kindAt_of_rankAt hrank
    apply (arrayRank_follows (by simp [hkind])).imp
    intro rank after hafter
    exact ⟨hrank, hafter⟩
  · intro hrank
    exact ⟨hrank, rfl⟩

theorem ranks_follow (n : Nat) :
    Ends (manyWithin arrayRank? n) input state fun ranks after =>
      after.position = input.sentence.ranksEndWithin n state.position ∧
        (ranks = [] → after = state ∧ (n = 0 ∨ input.sentence.rankAt state.position = false)) ∧
        (ranks ≠ [] → input.sentence.rankAt state.position = true) := by
  induction n generalizing state with
  | zero => exact .pure ⟨rfl, fun _ => ⟨rfl, .inl rfl⟩, fun h => absurd rfl h⟩
  | succ n ih =>
      unfold manyWithin Sentence.ranksEndWithin
      apply arrayRank?_follows.bind
      intro rank? after h
      cases rank? with
      | none =>
          obtain ⟨hrank, rfl⟩ := h
          rw [if_neg (by simp [hrank])]
          exact .pure ⟨rfl, fun _ => ⟨rfl, .inr hrank⟩, fun h => absurd rfl h⟩
      | some rank =>
          obtain ⟨hrank, hafter⟩ := h
          rw [if_pos hrank, ← hafter]
          apply ih.bind
          rintro more last ⟨hlast, -, -⟩
          exact .pure ⟨hlast, fun h => absurd h (by simp), fun _ => hrank⟩

theorem typeSuffix?_follows (start : Nat) (type : TypeSyntax) :
    Ends (typeSuffix? start type) input state fun grown? after =>
      match grown? with
      | none =>
          after = state ∧ ∀ n, input.sentence.suffixesEndWithin n type.isNullable
            state.position = state.position
      | some grown =>
          (grown.isMissing = false ∧ state.position < after.position) ∧
            ∀ n, input.sentence.left state.position ≤ n + 1 →
              input.sentence.suffixesEndWithin (n + 1) type.isNullable state.position =
                input.sentence.suffixesEndWithin n grown.isNullable after.position := by
  unfold typeSuffix?
  apply Ends.kind
  intro kind hkind
  split
  · apply Ends.ite
    · intro hnullable
      refine .pure ⟨rfl, fun n => ?_⟩
      cases n with
      | zero => rfl
      | succ n => simp [Sentence.suffixesEndWithin, hkind, hnullable]
    · intro hnullable
      apply Ends.advance (by simp [hkind])
      refine .rangeFrom (.pure ⟨⟨rfl, Nat.lt_succ_self _⟩, fun n _ => ?_⟩)
      rw [Sentence.suffixesEndWithin, hkind]
      exact if_neg hnullable
  · apply Ends.advance (by simp [hkind])
    refine .rangeFrom (.pure ⟨⟨rfl, Nat.lt_succ_self _⟩, fun n _ => ?_⟩)
    rw [Sentence.suffixesEndWithin, hkind]
    rfl
  · unfold many
    apply Ends.bind (Ends.left (ranks_follow _))
    rintro ranks after ⟨hafter, hnil, hcons⟩
    cases ranks with
    | nil =>
        obtain ⟨rfl, hrank⟩ := hnil rfl
        have hstop : input.sentence.rankAt after.position = false := by
          rcases hrank with hleft | hrank
          · exact Sentence.rankAt_of_left (by omega)
          · exact hrank
        exact .pure ⟨rfl, Sentence.suffixesEndWithin_of_not (by simp [hkind]) (by simp [hkind])
          hstop _⟩
    | cons rank ranks =>
        have hrank := hcons (by simp)
        refine .rangeFrom (.pure ⟨⟨rfl, ?_⟩, fun n hn => ?_⟩)
        · rw [hafter]
          exact Sentence.lt_ranksEndWithin hrank (Nat.le_refl _)
        · rw [hafter, Sentence.suffixesEndWithin, hkind]
          simp only [if_pos hrank]
          rw [Sentence.ranksEndWithin_fuel hn (Nat.le_succ _)]
          rfl
  · rename_i hquestion hstar hbracket
    rw [← hkind] at hquestion hstar hbracket
    have hrank := Sentence.rankAt_of_ne hbracket
    exact .pure ⟨rfl, Sentence.suffixesEndWithin_of_not hquestion hstar hrank _⟩

theorem suffixes_follow (start n : Nat) {type : TypeSyntax} (htype : type.isMissing = false)
    (hn : input.sentence.left state.position ≤ n) :
    Ends (growWithin (typeSuffix? start) n type) input state fun grown after =>
      grown.isMissing = false ∧
        after.position =
          input.sentence.suffixesEndWithin n type.isNullable state.position := by
  induction n generalizing type state with
  | zero => exact .pure ⟨htype, rfl⟩
  | succ n ih =>
      unfold growWithin
      apply (typeSuffix?_follows start type).bind
      intro grown? after h
      cases grown? with
      | none =>
          obtain ⟨rfl, hstop⟩ := h
          exact .pure ⟨htype, (hstop _).symm⟩
      | some grown =>
          obtain ⟨⟨hgrown, hforward⟩, hstep⟩ := h
          rw [hstep n hn]
          apply ih hgrown
          unfold Sentence.left at hn ⊢
          omega

section Types

variable {tuples : Nat → Nat}

theorem missingType_follows :
    Ends missingType input state (TypeEndsAt none state) := by
  unfold missingType
  apply Ends.noteHere
  apply Ends.position
  exact .pure ⟨rfl, rfl⟩

theorem grown_follows (start : Nat) {stop : Nat} {type : TypeSyntax} {before : ParseState}
    (htype : type.isMissing = false ∧ type.isNullable = false)
    (hstop : state.position = stop) :
    Ends (grow (typeSuffix? start) type) input state
      (TypeEndsAt (some (input.sentence.suffixesEnd stop)) before) := by
  unfold grow Sentence.suffixesEnd
  subst hstop
  apply Ends.left
  apply (suffixes_follow start _ htype.1 (Nat.le_refl _)).imp
  intro grown after hgrown
  rw [htype.2] at hgrown
  exact hgrown

theorem typeStep_follows {nested : Parse TypeSyntax} {scan : Nat → Option Nat}
    (hnested : FollowsFrom (state.position + 1) nested input scan)
    (hscan : Sentence.AgreeFrom (state.position + 1) scan scan)
    (htuples : input.sentence.kindAt state.position = .lParen →
      tuples state.position = input.sentence.tupleEnd scan state.position) :
    Ends (typeStep nested) input state
      (TypeEndsAt (input.sentence.typeEndStep scan tuples state.position) state) := by
  unfold typeStep
  apply Ends.position
  apply Ends.kind
  intro kind hkind
  split
  · rw [Sentence.typeEndStep, hkind]
    apply (qualifiedName_follows hnested hscan (Nat.le_refl _) (by simp [hkind])).bind
    rintro name after ⟨hname, hafter⟩
    exact grown_follows _ hname hafter
  · apply (tupleType_follows hnested hscan (Nat.le_refl _) (by simp [hkind])).bind
    rintro tuple after ⟨htuple, hafter⟩
    rw [Sentence.typeEndStep, hkind, htuples hkind]
    exact grown_follows _ htuple hafter
  · rename_i hname hopening
    rw [Sentence.typeEndStep_of_ne (hkind ▸ hname) (hkind ▸ hopening), hkind]
    apply Ends.ite
    · intro hpredefined
      rw [if_pos hpredefined]
      apply Ends.advance
      · intro heof
        rw [← hkind, heof] at hpredefined
        exact absurd hpredefined (by decide)
      apply Ends.rangeFrom
      exact grown_follows _ ⟨rfl, rfl⟩ rfl
    · intro hpredefined
      rw [if_neg hpredefined]
      exact missingType_follows

theorem typeWithin_follows (hfilled : input.sentence.FilledFrom 0 input.tupleEnd) (n : Nat)
    (hn : input.sentence.left state.position ≤ n) :
    Ends (typeWithin n) input state
      (TypeEndsAt (input.sentence.typeEnd? input.tupleEnd state.position) state) := by
  have hscan := Sentence.typeEnd?_agree hfilled.same
  induction n generalizing state with
  | zero =>
      rw [Sentence.typeEnd?_eq hfilled.same, Sentence.typeEndStep_of_left (Nat.le_zero.mp hn)]
      exact missingType_follows
  | succ n ih =>
      rw [Sentence.typeEnd?_eq hfilled.same]
      apply typeStep_follows
      · intro behind hbehind
        apply ih
        unfold Sentence.left at hn ⊢
        omega
      · exact hscan.mono (Nat.zero_le _)
      · intro hkind
        exact (hfilled _ (Nat.zero_le _) hkind).1

end Types

theorem type_follows (sentence : Sentence) (state : ParseState) :
    Ends type (.ofSentence sentence) state (TypeEndsAt
      (sentence.typeEnd? (Input.ofSentence sentence).tupleEnd state.position) state) := by
  unfold type
  apply Ends.left
  exact typeWithin_follows (Sentence.tupleEnds_filled sentence) _ (Nat.le_refl _)

theorem TypeEndsAt.some_iff {scanned? : Option Nat} {before after : ParseState}
    {type : TypeSyntax} (h : TypeEndsAt scanned? before type after) (stop : Nat) :
    scanned? = some stop ↔ type.isMissing = false ∧ after.position = stop := by
  cases scanned? with
  | some scanned =>
      obtain ⟨hmissing, hafter⟩ := h
      simp [hmissing, hafter]
  | none =>
      obtain ⟨hmissing, -⟩ := h
      simp [hmissing]

theorem TypeEndsAt.none_iff {scanned? : Option Nat} {before after : ParseState}
    {type : TypeSyntax} (h : TypeEndsAt scanned? before type after) (source : String)
    (tokens : TokenList) (version : LanguageVersion) :
    scanned? = none ↔ type.isMissing = true ∧ after.position = before.position ∧
      SyntaxTree.findingsIn source tokens version after =
        SyntaxTree.findingsIn source tokens version before ++
          [.error .typeExpected (Finding.spanAt tokens before.position) []] := by
  cases scanned? with
  | some scanned =>
      obtain ⟨hmissing, -⟩ := h
      simp [hmissing]
  | none =>
      obtain ⟨hmissing, rfl⟩ := h
      simp [hmissing, SyntaxTree.findingsIn, Finding.diagnostic?]

/-- The scan of a token list has an end exactly where a type is read, and that is where the
type ends.  It has none exactly where no type is read: then nothing is taken, and the only
report is that a type is expected there. -/
theorem type_ends_as_scanned (source : String) (tokens : TokenList)
    (version : LanguageVersion) (state : ParseState) :
    (∀ stop,
      (Sentence.ofTokens tokens).typeEnd? (Input.ofSentence (.ofTokens tokens)).tupleEnd
          state.position = some stop ↔
        (type (.ofSentence (.ofTokens tokens)) state).1.isMissing = false ∧
          (type (.ofSentence (.ofTokens tokens)) state).2.position = stop) ∧
      ((Sentence.ofTokens tokens).typeEnd? (Input.ofSentence (.ofTokens tokens)).tupleEnd
          state.position = none ↔
        (type (.ofSentence (.ofTokens tokens)) state).1.isMissing = true ∧
          (type (.ofSentence (.ofTokens tokens)) state).2.position = state.position ∧
          SyntaxTree.findingsIn source tokens version
              (type (.ofSentence (.ofTokens tokens)) state).2 =
            SyntaxTree.findingsIn source tokens version state ++
              [.error .typeExpected (Finding.spanAt tokens state.position) []]) := by
  have hends : TypeEndsAt _ state _ _ := type_follows (.ofTokens tokens) state
  constructor
  · exact hends.some_iff
  · exact hends.none_iff source tokens version

end TolerantSyntax.Parse
