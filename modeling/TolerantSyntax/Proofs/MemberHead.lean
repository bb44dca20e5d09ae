import TolerantSyntax.Proofs.Qualifier.Tree

/-!
# Member heads account for their tokens

A head takes modifiers as long as there are some, and then a qualifier.  Whether a word is a
modifier is told by what comes behind the words that follow it.
-/

namespace TolerantSyntax

namespace TokenList

def wordAt? (tokens : TokenList) (index : Nat) : Option Modifier :=
  match tokens.kindAt index, (tokens.get? index).map Token.contextual with
  | .identifier, some .asyncWord => some .asyncKw
  | .identifier, some .partialWord => some .partialKw
  | _, _ => none

/-- What continues a head: a modifier, `ref`, `delegate`, a predefined type, the keyword of a
type declaration, or a name that what follows it tells to be a type. -/
inductive ContinuesHead (tokens : TokenList) (index : Nat) : Prop where
  | modifier (h : (Modifier.ofKeyword? (tokens.kindAt index)).isSome = true)
  | keyword (h : tokens.kindAt index ∈ [.refKw, .delegateKw, .classKw, .structKw, .interfaceKw])
  | predefined (h : TokenSet.predefinedTypes.contains (tokens.kindAt index) = true)
  | name (h : tokens.kindAt index = .identifier)
      (hnext : tokens.kindAt (index + 1) ∈
        [.identifier, .lt, .dot, .lBracket, .question, .star])

/-- Some words, perhaps none, and then something that continues a head. -/
inductive LeadsHead (tokens : TokenList) : Nat → Prop where
  | here {index : Nat} (h : tokens.ContinuesHead index) : LeadsHead tokens index
  | word {index : Nat} (h : (tokens.wordAt? index).isSome = true)
      (hnext : LeadsHead tokens (index + 1)) : LeadsHead tokens index

/-- What is a modifier: a keyword, or a word with a head behind it. -/
inductive ModifierAt (tokens : TokenList) (index : Nat) (modifier : Modifier) : Prop where
  | keyword (h : Modifier.ofKeyword? (tokens.kindAt index) = some modifier)
  | word (h : tokens.wordAt? index = some modifier) (hnext : tokens.LeadsHead (index + 1))

end TokenList

def RefQualifier.tokens (qualifier : RefQualifier) : List Nat :=
  qualifier.readonly?.toList ++ [qualifier.ref]

def MemberHead.tokens (head : MemberHead) : List Nat :=
  head.modifiers.entries.map (·.token) ++ (head.qualifier?.map (·.tokens)).getD []

/-- The head has the tokens from `first` up to `last`, each as what it is, and ends where nothing
goes on with it. -/
structure MemberHead.Accounts (head : MemberHead) (tokens : TokenList) (first last : Nat) :
    Prop where
  start : head.start = first
  le : first ≤ last
  covers : head.tokens = (TokenRange.mk first last).indices
  modifiers : ∀ entry ∈ head.modifiers.entries, tokens.ModifierAt entry.token entry.modifier ∧
    ¬(tokens.kindAt entry.token = .readonlyKw ∧ tokens.kindAt (entry.token + 1) = .refKw)
  qualifier : ∀ qualifier ∈ head.qualifier?, tokens.kindAt qualifier.ref = .refKw ∧
    ∀ readonly ∈ qualifier.readonly?, tokens.kindAt readonly = .readonlyKw
  /-- Without a qualifier, what stands behind the head is neither `ref` nor a modifier. -/
  stops : head.qualifier? = none →
    tokens.kindAt last ≠ .refKw ∧ ∀ modifier, ¬tokens.ModifierAt last modifier

namespace TokenList

variable {tokens : TokenList} {index : Nat}

theorem kindAt_of_sentence {kind : TokenKind}
    (h : (Sentence.ofTokens tokens).kindAt index = kind) (hkind : kind ≠ .eof) :
    tokens.kindAt index = kind := by
  rw [kindAt, Sentence.map_kind_get? h hkind]
  rfl

theorem wordAt?_eq (h : index ≤ tokens.inner.length) :
    (Sentence.ofTokens tokens).wordAt? index = tokens.wordAt? index := by
  rw [Sentence.wordAt?, kindAt_eq h, wordAt?]
  rcases Nat.lt_or_eq_of_le h with hlt | rfl
  · rw [Sentence.contextualAt_of_lt hlt, get?_inner hlt, Option.map_some]
    cases tokens.kindAt index <;> cases tokens.inner[index].contextual <;> rfl
  · rw [kindAt_behind]

theorem wordAt?_of_ne (h : tokens.kindAt index ≠ .identifier) : tokens.wordAt? index = none := by
  unfold wordAt?
  split <;> first | contradiction | rfl

/-! ## Looking ahead -/

theorem memberHeadFollow_iff (kind : TokenKind) :
    TokenSet.memberHeadFollow.contains kind = true ↔
      (Modifier.ofKeyword? kind).isSome = true ∨
        kind ∈ [.refKw, .delegateKw, .classKw, .structKw, .interfaceKw] ∨
        TokenSet.predefinedTypes.contains kind = true := by
  have hall : ∀ kind ∈ TokenKind.all, TokenSet.memberHeadFollow.contains kind = true ↔
      (Modifier.ofKeyword? kind).isSome = true ∨
        kind ∈ [.refKw, .delegateKw, .classKw, .structKw, .interfaceKw] ∨
        TokenSet.predefinedTypes.contains kind = true := by decide +kernel
  exact hall kind kind.mem_all

theorem memberTypeFollow_iff (kind : TokenKind) :
    TokenSet.memberTypeFollow.contains kind = true ↔
      kind ∈ [.identifier, .lt, .dot, .lBracket, .question, .star] := by
  rw [TokenSet.memberTypeFollow, TokenSet.contains_ofList, List.contains_iff_mem]

theorem continuesHead_of_ne (h : tokens.kindAt index ≠ .identifier) :
    tokens.ContinuesHead index ↔
      TokenSet.memberHeadFollow.contains (tokens.kindAt index) = true := by
  rw [memberHeadFollow_iff]
  constructor
  · rintro (hmodifier | hkeyword | hpredefined | ⟨hname, -⟩)
    · exact .inl hmodifier
    · exact .inr (.inl hkeyword)
    · exact .inr (.inr hpredefined)
    · exact absurd hname h
  · rintro (hmodifier | hkeyword | hpredefined)
    · exact .modifier hmodifier
    · exact .keyword hkeyword
    · exact .predefined hpredefined

theorem continuesHead_of_name (h : tokens.kindAt index = .identifier) :
    tokens.ContinuesHead index ↔
      TokenSet.memberTypeFollow.contains (tokens.kindAt (index + 1)) = true := by
  rw [memberTypeFollow_iff]
  constructor
  · rintro (hmodifier | hkeyword | hpredefined | ⟨-, hnext⟩)
    · rw [h] at hmodifier
      cases hmodifier
    · rw [h] at hkeyword
      exact absurd hkeyword (by decide)
    · rw [h, TokenSet.contains_predefinedTypes] at hpredefined
      exact absurd hpredefined (by decide)
    · exact hnext
  · exact .name h

theorem leadsHead_iff : tokens.LeadsHead index ↔
    tokens.ContinuesHead index ∨
      (tokens.wordAt? index).isSome = true ∧ tokens.LeadsHead (index + 1) := by
  constructor
  · rintro (hhere | ⟨hword, hnext⟩)
    · exact .inl hhere
    · exact .inr ⟨hword, hnext⟩
  · rintro (hhere | ⟨hword, hnext⟩)
    · exact .here hhere
    · exact .word hword hnext

theorem leadsHead_of_ne (h : tokens.kindAt index ≠ .identifier) :
    tokens.LeadsHead index ↔ TokenSet.memberHeadFollow.contains (tokens.kindAt index) = true := by
  rw [leadsHead_iff, continuesHead_of_ne h, wordAt?_of_ne h]
  simp

theorem lt_inner_of_kindAt (h : index ≤ tokens.inner.length) (hkind : tokens.kindAt index ≠ .eof) :
    index < tokens.inner.length := by
  refine Nat.lt_of_le_of_ne h ?_
  rintro rfl
  exact hkind (kindAt_behind tokens)

/-- Looking ahead sees the words up to what continues the head, since an end of file continues
none. -/
theorem continuesHeadWithin_iff {n : Nat} (h : index ≤ tokens.inner.length)
    (hn : (Sentence.ofTokens tokens).left index ≤ n) :
    (Sentence.ofTokens tokens).continuesHeadWithin n index = true ↔ tokens.LeadsHead index := by
  induction n generalizing index with
  | zero =>
      have heof : tokens.kindAt index = .eof := by
        rw [← kindAt_eq h]
        exact Sentence.kindAt_of_left (Nat.le_zero.mp hn)
      rw [leadsHead_of_ne (by simp [heof]), heof, TokenSet.memberHeadFollow_eof,
        Sentence.continuesHeadWithin]
  | succ n ih =>
      rw [Sentence.continuesHeadWithin, kindAt_eq h]
      split
      · rename_i hname
        have hlt := lt_inner_of_kindAt h (by simp [hname])
        rw [leadsHead_iff, continuesHead_of_name hname, kindAt_eq hlt, wordAt?_eq h,
          Bool.or_eq_true, Bool.and_eq_true, ih hlt (Sentence.left_succ_le hn)]
      · rename_i hname
        exact (leadsHead_of_ne hname).symm

theorem continuesHead_iff (h : index ≤ tokens.inner.length) :
    (Sentence.ofTokens tokens).continuesHead index = true ↔ tokens.LeadsHead index :=
  continuesHeadWithin_iff h (Nat.le_refl _)

/-! ## Reading heads -/

theorem qualifierAt_iff (h : index < tokens.inner.length) :
    (Sentence.ofTokens tokens).qualifierAt index = true ↔
      tokens.kindAt index = .refKw ∨
        tokens.kindAt index = .readonlyKw ∧ tokens.kindAt (index + 1) = .refKw := by
  rw [Sentence.qualifierAt_iff, kindAt_eq (Nat.le_of_lt h), kindAt_eq h]

theorem modifierAt_of_some {modifier : Modifier} (h : index < tokens.inner.length)
    (hmodifier : (Sentence.ofTokens tokens).modifierAt? index = some modifier) :
    tokens.ModifierAt index modifier ∧
      ¬(tokens.kindAt index = .readonlyKw ∧ tokens.kindAt (index + 1) = .refKw) := by
  unfold Sentence.modifierAt? at hmodifier
  rw [Option.ite_none_left_eq_some, qualifierAt_iff h] at hmodifier
  obtain ⟨hqualifier, hmodifier⟩ := hmodifier
  refine ⟨?_, fun hboth => hqualifier (.inr hboth)⟩
  rw [kindAt_eq (Nat.le_of_lt h)] at hmodifier
  split at hmodifier
  · rename_i hkeyword
    exact .keyword (hkeyword.trans hmodifier)
  · rw [Option.ite_none_right_eq_some, continuesHead_iff h,
      wordAt?_eq (Nat.le_of_lt h)] at hmodifier
    exact .word hmodifier.2 hmodifier.1

theorem not_modifierAt_of_none (h : index ≤ tokens.inner.length)
    (hqualifier : (Sentence.ofTokens tokens).qualifierAt index = false)
    (hnone : (Sentence.ofTokens tokens).modifierAt? index = none) (modifier : Modifier) :
    ¬tokens.ModifierAt index modifier := by
  unfold Sentence.modifierAt? at hnone
  rw [if_neg (by simp [hqualifier]), kindAt_eq h] at hnone
  split at hnone
  · cases hnone
  · rename_i hkeyword
    rintro (hmodifier | ⟨hword, hnext⟩)
    · rw [hkeyword] at hmodifier
      cases hmodifier
    · have hname : tokens.kindAt index = .identifier := by
        by_contra hname
        rw [wordAt?_of_ne hname] at hword
        cases hword
      have hlt := lt_inner_of_kindAt h (by simp [hname])
      rw [if_pos ((continuesHead_iff hlt).mpr hnext), wordAt?_eq h, hword] at hnone
      cases hnone

end TokenList

namespace TokenRange

theorem indices_single (index : Nat) : (mk index (index + 1)).indices = [index] := by
  simp [indices, length]

theorem indices_append {start middle stop : Nat} (hleft : start ≤ middle) (hright : middle ≤ stop) :
    (mk start middle).indices ++ (mk middle stop).indices = (mk start stop).indices := by
  obtain ⟨left, rfl⟩ := Nat.exists_eq_add_of_le hleft
  obtain ⟨right, rfl⟩ := Nat.exists_eq_add_of_le hright
  simp only [indices, length, Nat.add_sub_cancel_left]
  rw [List.range'_append_1, Nat.add_assoc, Nat.add_sub_cancel_left]

end TokenRange

namespace Parse

variable {tokens : TokenList} {state : ParseState}

theorem refQualifier?_takes {input : Input} :
    Ends refQualifier? input state fun qualifier? after =>
      match qualifier? with
      | none => after = state ∧ input.sentence.qualifierAt state.position = false
      | some qualifier => state.position ≤ after.position ∧
          qualifier.tokens = (TokenRange.mk state.position after.position).indices ∧
          input.sentence.kindAt qualifier.ref = .refKw ∧
          ∀ readonly ∈ qualifier.readonly?, input.sentence.kindAt readonly = .readonlyKw := by
  unfold refQualifier?
  refine .askIf (fun hboth => ?_) fun hboth => .checkIf (fun href => ?_) fun href => ?_
  · obtain ⟨hreadonly, href⟩ : input.sentence.kindAt state.position = .readonlyKw ∧
        input.sentence.kindAt (state.position + 1) = .refKw := by simpa using hboth
    refine .noteHere (.advance (by simp [hreadonly]) (.advance (by simp [href]) (.pure ?_)))
    refine ⟨by simp only; omega, ?_, href, ?_⟩
    · simp only [RefQualifier.tokens, TokenRange.indices, TokenRange.length]
      rw [show state.position + 1 + 1 - state.position = 2 by omega]
      rfl
    · rintro _ ⟨⟩
      exact hreadonly
  · refine .noteHere (.advance (by simp [href]) (.pure ⟨Nat.le_succ _, ?_, href, by simp⟩))
    simp only [RefQualifier.tokens, TokenRange.indices, TokenRange.length, Nat.add_sub_cancel_left]
    rfl
  · refine .pure ⟨rfl, ?_⟩
    rw [← Bool.not_eq_true, Sentence.qualifierAt_iff]
    simpa [href] using hboth

structure ReadsModifiers (tokens : TokenList) (first : Nat) (entries : List ModifierEntry)
    (last : Nat) : Prop where
  first_le : first ≤ last
  le : last ≤ tokens.inner.length
  covers : entries.map (·.token) = (TokenRange.mk first last).indices
  modifiers : ∀ entry ∈ entries, tokens.ModifierAt entry.token entry.modifier ∧
    ¬(tokens.kindAt entry.token = .readonlyKw ∧ tokens.kindAt (entry.token + 1) = .refKw)

theorem modifierEntries_read (h : state.position ≤ tokens.inner.length) :
    Ends (many modifierEntry?) (.ofSentence (.ofTokens tokens)) state fun entries after =>
      ReadsModifiers tokens state.position entries after.position ∧
        (Sentence.ofTokens tokens).modifierAt? after.position = none := by
  refine many_done (fun entries after =>
    ReadsModifiers tokens state.position entries after.position) ?_ ?_ ?_
  · intro entries before hread
    unfold modifierEntry?
    refine .ask fun modifier? hmodifier => ?_
    cases modifier? with
    | none => exact .pure ⟨hread, hmodifier⟩
    | some modifier =>
        have hlt := TokenList.lt_inner_of_kindAt hread.le (by
          rw [← TokenList.kindAt_eq hread.le]
          exact modifierAt?_ne_eof hmodifier)
        refine .advance (modifierAt?_ne_eof hmodifier) (.pure ⟨?_, Nat.lt_succ_self _⟩)
        refine ⟨Nat.le_succ_of_le hread.first_le, hlt, ?_, ?_⟩
        · rw [List.map_append, hread.covers,
            ← TokenRange.indices_append hread.first_le (Nat.le_succ _), TokenRange.indices_single]
          rfl
        · refine List.forall_mem_append.mpr ⟨hread.modifiers, List.forall_mem_singleton.mpr ?_⟩
          exact TokenList.modifierAt_of_some hlt hmodifier
  · intro entries before hread hover
    refine ⟨hread, Option.eq_none_iff_forall_ne_some.mpr fun modifier hmodifier => ?_⟩
    exact modifierAt?_ne_eof hmodifier (Sentence.kindAt_eq_eof hover)
  · refine ⟨Nat.le_refl _, h, ?_, nofun⟩
    simp [TokenRange.indices, TokenRange.length]

/-- A head that is read in front of the end of file has the tokens up to where it ends, those of
its modifiers and then those of its qualifier.  With a qualifier it ends there.  Without one, no
modifier is left behind it: a word is, only if no head is behind it either. -/
theorem memberHead_accounts (tokens : TokenList) (state : ParseState)
    (h : state.position ≤ tokens.inner.length) :
    (memberHead (.ofSentence (.ofTokens tokens)) state).1.Accounts tokens state.position
      (memberHead (.ofSentence (.ofTokens tokens)) state).2.position := by
  change Ends memberHead (.ofSentence (.ofTokens tokens)) state fun head after =>
    head.Accounts tokens state.position after.position
  unfold memberHead
  refine .position ((modifierEntries_read h).bind ?_)
  rintro entries before ⟨hread, hnone⟩
  refine refQualifier?_takes.bind ?_
  intro qualifier? after hqualifier
  cases qualifier? with
  | none =>
      obtain ⟨rfl, hqualifier⟩ := hqualifier
      refine .pure ⟨rfl, hread.first_le, ?_, hread.modifiers, nofun, fun _ => ⟨?_, ?_⟩⟩
      · exact (List.append_nil _).trans hread.covers
      · rw [← TokenList.kindAt_eq hread.le]
        intro href
        exact Bool.false_ne_true
          (hqualifier.symm.trans (Sentence.qualifierAt_iff.mpr (.inl href)))
      · exact TokenList.not_modifierAt_of_none hread.le hqualifier hnone
  | some qualifier =>
      obtain ⟨hle, htokens, href, hreadonly⟩ := hqualifier
      refine .pure ⟨rfl, Nat.le_trans hread.first_le hle, ?_, hread.modifiers, ?_, nofun⟩
      · change entries.map (·.token) ++ qualifier.tokens = _
        rw [hread.covers, htokens, TokenRange.indices_append hread.first_le hle]
      · rintro _ ⟨⟩
        refine ⟨TokenList.kindAt_of_sentence href nofun, fun readonly hmem => ?_⟩
        exact TokenList.kindAt_of_sentence (hreadonly readonly hmem) nofun

theorem memberHead_accounts_words :
    let tokens := (lex "class C { async partial ref int M(); }").tokens
    let state : ParseState := { ParseState.start with position := 3 }
    let result := memberHead (.ofSentence (.ofTokens tokens)) state
    3 ≤ tokens.inner.length ∧ result.1.tokens = [3, 4, 5] ∧
      result.1.Accounts tokens 3 result.2.position :=
  ⟨by decide +kernel, by decide +kernel, memberHead_accounts _ _ (by decide +kernel)⟩

end Parse
end TolerantSyntax
