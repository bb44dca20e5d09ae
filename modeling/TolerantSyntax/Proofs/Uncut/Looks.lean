import TolerantSyntax.Grammar.Member
import TolerantSyntax.Proofs.Parse.Covers
import TolerantSyntax.Proofs.Sentence
import TolerantSyntax.Token.Cursor

/-!
# What there is to look at

A token list goes on behind its first end of file, and whoever reads it with a cursor could look
there.  `Sentence.uncut` has a symbol for every token, so it shows what the cursor shows.  It
continues the sentence of the list, which is cut off at the first end of file.  Whatever the
grammar asks, and wherever it skips to, the answer is the same in both.
-/

namespace TolerantSyntax

/-- A symbol for every token, also for those behind an end of file. -/
def Sentence.uncut (tokens : TokenList) : Sentence :=
  ⟨tokens.tokens.map fun token => ⟨token.kind, token.contextual, token.flags.adjacent⟩⟩

namespace Sentence

theorem symbols_uncut (tokens : TokenList) (index : Nat) :
    (uncut tokens).symbols[index]? = (tokens.get? index).map fun token =>
      ⟨token.kind, token.contextual, token.flags.adjacent⟩ := by
  simp [uncut, TokenList.get?]

theorem kindAt_uncut (tokens : TokenList) (index : Nat) :
    (uncut tokens).kindAt index = tokens.kindAt index := by
  unfold kindAt TokenList.kindAt
  rw [symbols_uncut]
  cases tokens.get? index <;> rfl

theorem contextualAt_uncut {tokens : TokenList} {index : Nat} {token : Token}
    (h : tokens.get? index = some token) :
    (uncut tokens).contextualAt index = token.contextual := by
  simp [contextualAt, symbols_uncut, h]

theorem joinedAt_uncut {tokens : TokenList} {index : Nat} {token : Token}
    (h : tokens.get? index = some token) :
    (uncut tokens).joinedAt index = token.flags.adjacent := by
  simp [joinedAt, symbols_uncut, h]

/-- The sentence answers at every place as the cursor there does, and leads to where it leads. -/
structure Mirrors (sentence : Sentence) (tokens : TokenList) : Prop where
  kindAt : ∀ index, sentence.kindAt index = tokens.kindAt index
  kind : ∀ (cursor : Cursor) n, cursor.tokens = tokens →
    sentence.kindAt (cursor.position + n) = (cursor.peek n).kind
  contextual : ∀ (cursor : Cursor) n word, cursor.tokens = tokens →
    (sentence.kindAt (cursor.position + n) == .identifier &&
        sentence.contextualAt (cursor.position + n) == word) =
      (cursor.peek n).isContextual word
  adjacent : ∀ (cursor : Cursor) n, cursor.tokens = tokens → (cursor.peek n).kind ≠ .eof →
    sentence.joinedAt (cursor.position + n) = cursor.isAdjacent n
  advances : ∀ (cursor : Cursor) (state : ParseState), cursor.tokens = tokens →
    state.position = cursor.position →
      (Parse.advance (.ofSentence sentence) state).2.position = cursor.advance.position
  skips : ∀ (cursor : Cursor) (set : TokenSet), cursor.tokens = tokens →
    sentence.seek set.contains cursor.position = (cursor.synchronize set).position

/-- Up to the first end of file the sentence answers as the cursor does to what is asked about
kinds, about the contextual keyword of an identifier, and about a `>` behind another one: whether
it touches that one.  What else the sentence has, and what it has behind the end, is left open. -/
structure Presents (sentence : Sentence) (tokens : TokenList) : Prop where
  kind : ∀ (cursor : Cursor) n, cursor.tokens = tokens →
    cursor.position + n ≤ tokens.inner.length →
      sentence.kindAt (cursor.position + n) = (cursor.peek n).kind
  contextual : ∀ (cursor : Cursor) n, cursor.tokens = tokens →
    cursor.position + n < tokens.inner.length → (cursor.peek n).kind = .identifier →
      sentence.contextualAt (cursor.position + n) = (cursor.peek n).contextual
  adjacent : ∀ (cursor : Cursor) n, cursor.tokens = tokens →
    cursor.position + (n + 1) < tokens.inner.length → (cursor.peek n).kind = .gt →
      (cursor.peek (n + 1)).kind = .gt →
        sentence.joinedAt (cursor.position + (n + 1)) = cursor.isAdjacent (n + 1)

theorem Mirrors.presents {sentence : Sentence} {tokens : TokenList} (h : sentence.Mirrors tokens) :
    sentence.Presents tokens where
  kind cursor n hcursor _ := h.kind cursor n hcursor
  contextual cursor n hcursor _ hkind := by
    have hword := h.contextual cursor n (cursor.peek n).contextual hcursor
    rw [h.kind cursor n hcursor, Token.isContextual, hkind] at hword
    simpa using hword
  adjacent cursor n hcursor _ _ hkind :=
    h.adjacent cursor (n + 1) hcursor (by rw [hkind]; decide)

end Sentence

namespace Cursor

variable {cursor : Cursor} {n : Nat}

theorem peek_of_get? {token : Token} (h : cursor.tokens.get? (cursor.position + n) = some token) :
    cursor.peek n = token := by
  simp [peek, h]

/-- Beyond a list that is closed a cursor shows its end of file. -/
theorem peek_beyond (hclosed : cursor.tokens.endsWithEof = true)
    (h : cursor.tokens.get? (cursor.position + n) = none) : (cursor.peek n).kind = .eof := by
  unfold TokenList.endsWithEof at hclosed
  unfold peek
  rw [h, Option.getD_none]
  cases hlast : cursor.tokens.last? with
  | none => rfl
  | some last => simpa [hlast] using hclosed

theorem peek_kind (hclosed : cursor.tokens.endsWithEof = true) (n : Nat) :
    cursor.tokens.kindAt (cursor.position + n) = (cursor.peek n).kind := by
  unfold TokenList.kindAt
  cases hget : cursor.tokens.get? (cursor.position + n) with
  | none => exact (peek_beyond hclosed hget).symm
  | some token => simp [peek_of_get? hget]

theorem kindAt_uncut (hclosed : cursor.tokens.endsWithEof = true) :
    (Sentence.uncut cursor.tokens).kindAt cursor.position = cursor.kind := by
  rw [Sentence.kindAt_uncut]
  exact peek_kind hclosed 0

theorem synchronizeWithin_position (hclosed : cursor.tokens.endsWithEof = true) (set : TokenSet)
    (n : Nat) :
    (cursor.synchronizeWithin set n).position =
      (Sentence.uncut cursor.tokens).seekWithin set.contains n cursor.position := by
  induction n generalizing cursor with
  | zero => rfl
  | succ n ih =>
      rw [synchronizeWithin, Sentence.seekWithin, kindAt_uncut hclosed, isAtEnd, check]
      split
      · rfl
      · rename_i hgoes
        have hend : cursor.isAtEnd = false := by
          simp only [Bool.or_eq_true, not_or] at hgoes
          simpa [isAtEnd, check] using hgoes.1
        have hadvance : cursor.advance = { cursor with position := cursor.position + 1 } := by
          simp [advance, hend]
        rw [hadvance]
        exact ih hclosed

end Cursor

/-- The uncut sentence of a closed list shows what the cursor shows. -/
theorem Sentence.uncut_mirrors {tokens : TokenList} (h : tokens.endsWithEof = true) :
    (uncut tokens).Mirrors tokens where
  kindAt := kindAt_uncut tokens
  kind := by
    rintro cursor n rfl
    rw [kindAt_uncut]
    exact Cursor.peek_kind h n
  contextual := by
    rintro cursor n word rfl
    rw [kindAt_uncut, Cursor.peek_kind h n, Token.isContextual]
    cases hget : cursor.tokens.get? (cursor.position + n) with
    | none =>
        rw [Cursor.peek_beyond h hget]
        rfl
    | some token => rw [contextualAt_uncut hget, Cursor.peek_of_get? hget]
  adjacent := by
    rintro cursor n rfl hkind
    cases hget : cursor.tokens.get? (cursor.position + n) with
    | none => exact absurd (Cursor.peek_beyond h hget) hkind
    | some token => rw [joinedAt_uncut hget, Cursor.isAdjacent, Cursor.peek_of_get? hget]
  advances := by
    rintro cursor ⟨_, findings, exprs⟩ rfl rfl
    have hkind := Cursor.kindAt_uncut h
    simp only [Parse.advance, Cursor.advance, Cursor.isAtEnd, Cursor.check, Input.ofSentence, hkind,
      beq_iff_eq]
    split <;> rfl
  skips := by
    rintro cursor set rfl
    have hsize : (uncut cursor.tokens).size = cursor.tokens.size := by
      simp [size, uncut, TokenList.size]
    rw [Cursor.synchronize, Cursor.synchronizeWithin_position h, seek, left, hsize]

/-! ## Going on behind the end -/

namespace Sentence

/-- One sentence looks like the other up to its end, has an end of file there, and then anything. -/
structure Continues (wide narrow : Sentence) : Prop where
  size_le : narrow.size ≤ wide.size
  kindAt_eq : ∀ {index}, index ≤ narrow.size → wide.kindAt index = narrow.kindAt index
  contextualAt_eq : ∀ {index}, narrow.kindAt index = .identifier →
    wide.contextualAt index = narrow.contextualAt index
  joinedAt_eq : ∀ {index}, narrow.kindAt index = .gt → narrow.kindAt (index + 1) = .gt →
    wide.joinedAt (index + 1) = narrow.joinedAt (index + 1)

/-- Whatever presents a closed list goes on where the sentence of the list is cut off. -/
theorem Presents.continues {sentence : Sentence} {tokens : TokenList}
    (h : sentence.Presents tokens) (hclosed : tokens.endsWithEof = true) :
    sentence.Continues (ofTokens tokens) := by
  have hpeek : ∀ {index} (hlt : index < tokens.inner.length),
      (Cursor.mk tokens index).peek 0 = tokens.inner[index] := fun hlt =>
    Cursor.peek_of_get? (TokenList.get?_inner hlt)
  have hkind : ∀ {index}, index ≤ (ofTokens tokens).size →
      sentence.kindAt index = (ofTokens tokens).kindAt index := by
    intro index hle
    rw [size_ofTokens] at hle
    have hcursor := h.kind ⟨tokens, index⟩ 0 rfl hle
    rw [← Cursor.peek_kind hclosed 0] at hcursor
    exact hcursor.trans (TokenList.kindAt_eq hle).symm
  have hsize : (ofTokens tokens).size ≤ sentence.size := by
    refine Nat.le_of_not_lt fun hlt => ?_
    have heof := (hkind (Nat.le_of_lt hlt)).symm.trans (kindAt_eq_eof (Nat.le_refl _))
    rw [size_ofTokens] at hlt
    rw [kindAt_of_lt hlt] at heof
    exact kind_ne_eof_of_inner (List.getElem_mem hlt) heof
  refine ⟨hsize, hkind, fun {index} hidentifier => ?_, fun {index} hfirst hsecond => ?_⟩
  · have hlt : index < (ofTokens tokens).size := lt_size_of_kindAt (by rw [hidentifier]; decide)
    rw [size_ofTokens] at hlt
    rw [kindAt_of_lt hlt, ← hpeek hlt] at hidentifier
    have hword := h.contextual ⟨tokens, index⟩ 0 rfl hlt hidentifier
    rw [contextualAt_of_lt hlt, ← hpeek hlt]
    exact hword
  · have hlt : index + 1 < (ofTokens tokens).size :=
      lt_size_of_kindAt (by rw [hsecond]; decide)
    rw [size_ofTokens] at hlt
    have hnext : (Cursor.mk tokens index).peek 1 = tokens.inner[index + 1] :=
      Cursor.peek_of_get? (TokenList.get?_inner hlt)
    rw [kindAt_of_lt (Nat.lt_of_succ_lt hlt)] at hfirst
    rw [kindAt_of_lt hlt] at hsecond
    have htouches := h.adjacent ⟨tokens, index⟩ 0 rfl hlt
      (by rw [hpeek (Nat.lt_of_succ_lt hlt), hfirst]) (by rw [hnext, hsecond])
    rw [joinedAt_of_lt hlt, hfirst, hsecond]
    simpa [Cursor.isAdjacent, hnext] using htouches

theorem Continues.presents {sentence : Sentence} {tokens : TokenList}
    (h : sentence.Continues (ofTokens tokens)) (hclosed : tokens.endsWithEof = true) :
    sentence.Presents tokens where
  kind := by
    rintro cursor n rfl hle
    rw [h.kindAt_eq ((size_ofTokens _).symm ▸ hle), TokenList.kindAt_eq hle,
      Cursor.peek_kind hclosed]
  contextual := by
    rintro cursor n rfl hlt hkind
    have hpeek := Cursor.peek_of_get? (TokenList.get?_inner hlt)
    rw [hpeek] at hkind ⊢
    rw [h.contextualAt_eq ((kindAt_of_lt hlt).trans hkind), contextualAt_of_lt hlt]
  adjacent := by
    rintro cursor n rfl hlt hfirst hsecond
    have hlast : cursor.position + n + 1 < cursor.tokens.inner.length := hlt
    have hprevious := Nat.lt_of_succ_lt hlast
    have hpeek := Cursor.peek_of_get? (TokenList.get?_inner hprevious)
    have hnext : cursor.peek (n + 1) = cursor.tokens.inner[cursor.position + n + 1] :=
      Cursor.peek_of_get? (TokenList.get?_inner hlast)
    rw [hpeek] at hfirst
    rw [hnext] at hsecond
    have hjoined := h.joinedAt_eq ((kindAt_of_lt hprevious).trans hfirst)
      ((kindAt_of_lt hlast).trans hsecond)
    rw [joinedAt_of_lt hlast, hfirst, hsecond] at hjoined
    rw [Cursor.isAdjacent, hnext]
    exact hjoined

/-- The sentence of a closed list is what its tokens look like up to the first end of file. -/
theorem ofTokens_presents {tokens : TokenList} (h : tokens.endsWithEof = true) :
    (ofTokens tokens).Presents tokens :=
  Continues.presents ⟨Nat.le_refl _, fun _ => rfl, fun _ => rfl, fun _ _ => rfl⟩ h

namespace Continues

variable {wide narrow : Sentence} (h : wide.Continues narrow) {index : Nat}
include h

theorem left_le (index : Nat) : narrow.left index ≤ wide.left index :=
  Nat.sub_le_sub_right h.size_le index

theorem kindAt_succ (hkind : narrow.kindAt index ≠ .eof) :
    wide.kindAt (index + 1) = narrow.kindAt (index + 1) :=
  h.kindAt_eq (lt_size_of_kindAt hkind)

end Continues

/-! ## Questions and searches -/

/-- Up to the end the answer does not depend on how the sentence goes on. -/
structure Local {α : Type} (question : Sentence → Nat → α) : Prop where
  same : ∀ {wide narrow : Sentence}, wide.Continues narrow → ∀ {index}, index ≤ narrow.size →
    question wide index = question narrow index

namespace Local

theorem const {α : Type} (f : Nat → α) : Local fun _ index => f index := ⟨fun _ _ _ => rfl⟩

theorem ofKind {α : Type} (f : TokenKind → α) :
    Local fun sentence index => f (sentence.kindAt index) :=
  ⟨fun h _ hle => congrArg f (h.kindAt_eq hle)⟩

theorem andNext (first second : TokenKind → Bool) (hfirst : first .eof = false) :
    Local fun sentence index =>
      first (sentence.kindAt index) && second (sentence.kindAt (index + 1)) := by
  constructor
  intro wide narrow h index hle
  rw [h.kindAt_eq hle]
  by_cases hkind : narrow.kindAt index = .eof
  · rw [hkind, hfirst, Bool.false_and, Bool.false_and]
  · rw [h.kindAt_succ hkind]

theorem qualifierAt : Local Sentence.qualifierAt := by
  constructor
  intro wide narrow h index hle
  unfold Sentence.qualifierAt
  rw [h.kindAt_eq hle]
  split
  · rfl
  · rename_i hkind
    rw [h.kindAt_succ (by simp [hkind])]
  · rfl

theorem rankAt : Local Sentence.rankAt :=
  andNext (· == .lBracket) (fun kind => kind == .rBracket || kind == .comma) rfl

theorem shiftAt : Local Sentence.shiftAt := by
  constructor
  intro wide narrow h index hle
  unfold Sentence.shiftAt
  rw [h.kindAt_eq hle]
  by_cases hfirst : narrow.kindAt index = .gt
  · rw [h.kindAt_succ (by simp [hfirst])]
    by_cases hsecond : narrow.kindAt (index + 1) = .gt
    · rw [h.joinedAt_eq hfirst hsecond]
    · rw [beq_eq_false_iff_ne.mpr hsecond, Bool.and_false, Bool.false_and, Bool.false_and]
  · rw [beq_eq_false_iff_ne.mpr hfirst]
    rfl

theorem infixAt? : Local Sentence.infixAt? := by
  constructor
  intro wide narrow h index hle
  unfold Sentence.infixAt?
  rw [shiftAt.same h hle, h.kindAt_eq hle]

theorem accessorKeywordAt : Local Sentence.accessorKeywordAt := by
  constructor
  intro wide narrow h index hle
  unfold Sentence.accessorKeywordAt
  rw [h.kindAt_eq hle]
  by_cases hkind : narrow.kindAt index = .identifier
  · rw [h.contextualAt_eq hkind]
  · rw [beq_eq_false_iff_ne.mpr hkind]
    rfl

theorem wordAt? : Local Sentence.wordAt? := by
  constructor
  intro wide narrow h index hle
  unfold Sentence.wordAt?
  rw [h.kindAt_eq hle]
  by_cases hkind : narrow.kindAt index = .identifier
  · rw [h.contextualAt_eq hkind]
  · cases hother : narrow.kindAt index
    case identifier => exact absurd hother hkind
    all_goals rfl

theorem continuesHeadWithin_of_eof {sentence : Sentence} {index : Nat}
    (h : sentence.kindAt index = .eof) (n : Nat) :
    sentence.continuesHeadWithin n index = false := by
  cases n with
  | zero => rfl
  | succ n =>
      rw [continuesHeadWithin, h]
      exact TokenSet.memberHeadFollow_eof

theorem continuesHeadWithin {wide narrow : Sentence} (h : wide.Continues narrow) {n m index : Nat}
    (hle : index ≤ narrow.size) (hn : narrow.left index ≤ n) (hm : narrow.left index ≤ m) :
    wide.continuesHeadWithin n index = narrow.continuesHeadWithin m index := by
  induction n generalizing m index with
  | zero =>
      have heof := kindAt_of_left (Nat.le_zero.mp hn)
      rw [continuesHeadWithin_of_eof heof]
      rfl
  | succ n ih =>
      cases m with
      | zero =>
          have heof := kindAt_of_left (Nat.le_zero.mp hm)
          rw [continuesHeadWithin_of_eof ((h.kindAt_eq hle).trans heof)]
          rfl
      | succ m =>
          rw [Sentence.continuesHeadWithin, Sentence.continuesHeadWithin, h.kindAt_eq hle]
          split
          · rename_i hkind
            have hlt : index < narrow.size := lt_size_of_kindAt (by simp [hkind])
            rw [h.kindAt_eq hlt, wordAt?.same h hle, ih hlt (left_succ_le hn) (left_succ_le hm)]
          · rfl

theorem modifierAt? : Local Sentence.modifierAt? := by
  constructor
  intro wide narrow h index hle
  unfold Sentence.modifierAt?
  rw [qualifierAt.same h hle, h.kindAt_eq hle, wordAt?.same h hle]
  by_cases hkind : narrow.kindAt index = .eof
  · -- No word is at the end, whatever comes behind it.
    have hword : narrow.wordAt? index = none := by simp [Sentence.wordAt?, hkind]
    rw [hword, ite_self, ite_self]
  · have hlt := lt_size_of_kindAt hkind
    have hcontinues : wide.continuesHead (index + 1) = narrow.continuesHead (index + 1) :=
      continuesHeadWithin h hlt (h.left_le _) (Nat.le_refl _)
    rw [hcontinues]

theorem seekWithin {wide narrow : Sentence} (h : wide.Continues narrow) (set : TokenKind → Bool)
    {n m index : Nat} (hle : index ≤ narrow.size) (hn : narrow.left index ≤ n)
    (hm : narrow.left index ≤ m) :
    wide.seekWithin set n index = narrow.seekWithin set m index := by
  induction n generalizing m index with
  | zero =>
      have heof := kindAt_of_left (Nat.le_zero.mp hn)
      cases m <;> simp [Sentence.seekWithin, heof]
  | succ n ih =>
      cases m with
      | zero =>
          have heof := kindAt_of_left (Nat.le_zero.mp hm)
          simp [Sentence.seekWithin, h.kindAt_eq hle, heof]
      | succ m =>
          rw [Sentence.seekWithin, Sentence.seekWithin, h.kindAt_eq hle]
          split
          · rfl
          · rename_i hgoes
            simp only [Bool.or_eq_true, beq_iff_eq, not_or] at hgoes
            exact ih (lt_size_of_kindAt hgoes.1) (left_succ_le hn) (left_succ_le hm)

theorem seek (set : TokenKind → Bool) : Local fun sentence => sentence.seek set :=
  ⟨fun h _ hle => seekWithin h set hle (h.left_le _) (Nat.le_refl _)⟩

theorem memberBoundaryWithin {wide narrow : Sentence} (h : wide.Continues narrow)
    (starts : TokenKind → Bool) {n m index : Nat} (depth : Nat) (hle : index ≤ narrow.size)
    (hn : narrow.left index ≤ n) (hm : narrow.left index ≤ m) :
    wide.memberBoundaryWithin starts n depth index =
      narrow.memberBoundaryWithin starts m depth index := by
  induction n generalizing m depth index with
  | zero =>
      have heof := kindAt_of_left (Nat.le_zero.mp hn)
      cases m <;> simp [Sentence.memberBoundaryWithin, heof]
  | succ n ih =>
      cases m with
      | zero =>
          have heof := kindAt_of_left (Nat.le_zero.mp hm)
          simp [Sentence.memberBoundaryWithin, h.kindAt_eq hle, heof]
      | succ m =>
          simp only [Sentence.memberBoundaryWithin, h.kindAt_eq hle]
          split
          · rfl
          · rename_i hgoes
            simp only [Bool.or_eq_true, beq_iff_eq, not_or] at hgoes
            have hnext := fun depth =>
              ih depth (lt_size_of_kindAt hgoes.1) (left_succ_le hn) (left_succ_le hm)
            split
            · exact hnext _
            · rfl
            · exact hnext _
            · exact hnext _

theorem memberBoundary (starts : TokenKind → Bool) :
    Local fun sentence => sentence.memberBoundary starts :=
  ⟨fun h _ hle => memberBoundaryWithin h starts 0 hle (h.left_le _) (Nat.le_refl _)⟩

theorem accessorBoundaryWithin {wide narrow : Sentence} (h : wide.Continues narrow)
    {n m index : Nat} (depth : Nat) (hle : index ≤ narrow.size) (hn : narrow.left index ≤ n)
    (hm : narrow.left index ≤ m) :
    wide.accessorBoundaryWithin n depth index = narrow.accessorBoundaryWithin m depth index := by
  induction n generalizing m depth index with
  | zero =>
      have heof := kindAt_of_left (Nat.le_zero.mp hn)
      cases m <;> simp [Sentence.accessorBoundaryWithin, heof]
  | succ n ih =>
      cases m with
      | zero =>
          have heof := kindAt_of_left (Nat.le_zero.mp hm)
          simp [Sentence.accessorBoundaryWithin, h.kindAt_eq hle, heof]
      | succ m =>
          have hnext (hkind : narrow.kindAt index ≠ .eof) := fun depth =>
            ih depth (lt_size_of_kindAt hkind) (left_succ_le hn) (left_succ_le hm)
          simp only [Sentence.accessorBoundaryWithin, h.kindAt_eq hle, accessorKeywordAt.same h hle]
          split
          · rfl
          · rename_i hkind
            exact hnext (by simp [hkind]) _
          · rfl
          · rename_i hkind
            exact hnext (by simp [hkind]) _
          · rfl
          · rename_i hkind _ _ _
            split
            · rfl
            · exact hnext hkind _
          · rename_i hkind _ _ _ _
            exact hnext hkind _

theorem accessorBoundary : Local Sentence.accessorBoundary :=
  ⟨fun h _ hle => accessorBoundaryWithin h 0 hle (h.left_le _) (Nat.le_refl _)⟩

end Local
end Sentence
end TolerantSyntax
