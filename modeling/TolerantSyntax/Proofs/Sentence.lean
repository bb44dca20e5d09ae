import TolerantSyntax.Grammar.Sentence

/-!
# Sentences and token lists

The symbols of a sentence are the tokens before the first end of file, one for each.
-/

namespace TolerantSyntax

def Token.isInner (token : Token) : Bool := token.kind != .eof

/-- The tokens before the first end of file. -/
def TokenList.inner (list : TokenList) : List Token := list.tokens.toList.takeWhile (·.isInner)

theorem TokenList.inner_eq {list : TokenList} {front : List Token} {last : Token}
    (h : list.tokens.toList = front ++ [last]) (hfront : ∀ token ∈ front, token.kind ≠ .eof)
    (hlast : last.kind = .eof) : list.inner = front := by
  unfold inner
  rw [h, List.takeWhile_append_of_pos]
  · simp [Token.isInner, hlast]
  · intro token hmem
    simpa [Token.isInner] using hfront token hmem

theorem TokenList.inner_prefix (list : TokenList) : list.inner <+: list.tokens.toList :=
  List.takeWhile_prefix _

theorem TokenList.getElem?_inner {list : TokenList} {index : Nat}
    (h : index < list.inner.length) : list.tokens.toList[index]? = some list.inner[index] :=
  List.prefix_iff_getElem?.mp list.inner_prefix index h

theorem TokenList.length_inner_le (list : TokenList) : list.inner.length ≤ list.size := by
  rw [size, ← Array.length_toList]
  exact list.inner_prefix.length_le

namespace Sentence

theorem map_symbolsOf {α : Type} {ofSymbol : Symbol → α} {ofToken : Token → α}
    (h : ∀ token joined, ofSymbol ⟨token.kind, token.contextual, joined⟩ = ofToken token)
    (behindGt : Bool) (tokens : List Token) :
    (symbolsOf behindGt tokens).map ofSymbol =
      (tokens.takeWhile (·.isInner)).map ofToken := by
  induction tokens generalizing behindGt with
  | nil => rfl
  | cons token rest ih =>
      unfold symbolsOf
      split
      · rename_i heof
        simp [Token.isInner, heof]
      · rename_i heof
        have hinner : token.isInner = true := by simpa [Token.isInner] using heof
        rw [List.takeWhile_cons_of_pos hinner, List.map_cons, List.map_cons, ih, h]

theorem symbolsOf_kinds (behindGt : Bool) (tokens : List Token) :
    (symbolsOf behindGt tokens).map (·.kind) =
      (tokens.takeWhile (·.isInner)).map (·.kind) := map_symbolsOf (fun _ _ => rfl) _ _

theorem symbolsOf_contextuals (behindGt : Bool) (tokens : List Token) :
    (symbolsOf behindGt tokens).map (·.contextual) =
      (tokens.takeWhile (·.isInner)).map (·.contextual) := map_symbolsOf (fun _ _ => rfl) _ _

theorem size_ofTokens (tokens : TokenList) : (ofTokens tokens).size = tokens.inner.length := by
  have hlength := congrArg List.length (symbolsOf_kinds false tokens.tokens.toList)
  simpa [ofTokens, size, TokenList.inner] using hlength

theorem kindAt_ofTokens (tokens : TokenList) (index : Nat) :
    (ofTokens tokens).kindAt index = (tokens.inner[index]?.map (·.kind)).getD .eof := by
  have hkinds := congrArg (·[index]?) (symbolsOf_kinds false tokens.tokens.toList)
  simp only [List.getElem?_map] at hkinds
  unfold kindAt ofTokens TokenList.inner
  rw [← hkinds, List.getElem?_toArray]
  cases (symbolsOf false tokens.tokens.toList)[index]? with
  | none => rfl
  | some symbol => rfl

theorem kindAt_of_lt {tokens : TokenList} {index : Nat} (h : index < tokens.inner.length) :
    (ofTokens tokens).kindAt index = tokens.inner[index].kind := by
  rw [kindAt_ofTokens, List.getElem?_eq_getElem h]
  rfl

theorem contextualAt_of_lt {tokens : TokenList} {index : Nat}
    (h : index < tokens.inner.length) :
    (ofTokens tokens).contextualAt index = tokens.inner[index].contextual := by
  have hwords := congrArg (·[index]?) (symbolsOf_contextuals false tokens.tokens.toList)
  simp only [List.getElem?_map] at hwords
  rw [show tokens.tokens.toList.takeWhile (·.isInner) = tokens.inner from rfl,
    List.getElem?_eq_getElem h, Option.map_some] at hwords
  unfold contextualAt ofTokens
  rw [List.getElem?_toArray]
  cases hsymbol : (symbolsOf false tokens.tokens.toList)[index]? with
  | none => simp [hsymbol] at hwords
  | some symbol =>
      rw [hsymbol] at hwords
      exact Option.some.inj hwords

theorem joined_symbolsOf (behindGt : Bool) {tokens : List Token} {index : Nat}
    {first second : Token} (hfirst : (tokens.takeWhile (·.isInner))[index]? = some first)
    (hsecond : (tokens.takeWhile (·.isInner))[index + 1]? = some second) :
    (symbolsOf behindGt tokens)[index + 1]?.map (·.joined) =
      some (second.kind == .gt && first.kind == .gt && second.flags.adjacent) := by
  induction tokens generalizing behindGt index with
  | nil => simp at hfirst
  | cons token rest ih =>
      by_cases hinner : token.isInner = true
      · have hkind : token.kind ≠ .eof := by simpa [Token.isInner] using hinner
        rw [List.takeWhile_cons_of_pos hinner] at hfirst hsecond
        simp only [symbolsOf, if_neg hkind, List.getElem?_cons_succ]
        cases index with
        | succ index => exact ih _ hfirst hsecond
        | zero =>
            obtain rfl : token = first := by simpa using hfirst
            cases rest with
            | nil => simp at hsecond
            | cons next rest =>
                by_cases hnext : next.isInner = true
                · have hkind' : next.kind ≠ .eof := by simpa [Token.isInner] using hnext
                  rw [List.takeWhile_cons_of_pos hnext] at hsecond
                  obtain rfl : next = second := by simpa using hsecond
                  simp [symbolsOf, hkind']
                · simp [hnext] at hsecond
      · simp [hinner] at hfirst

theorem joinedAt_of_lt {tokens : TokenList} {index : Nat} (h : index + 1 < tokens.inner.length) :
    (ofTokens tokens).joinedAt (index + 1) =
      (tokens.inner[index + 1].kind == .gt && tokens.inner[index].kind == .gt &&
        tokens.inner[index + 1].flags.adjacent) := by
  have hfirst : tokens.inner[index]? = some tokens.inner[index] := List.getElem?_eq_getElem _
  have hsecond : tokens.inner[index + 1]? = some tokens.inner[index + 1] :=
    List.getElem?_eq_getElem h
  have hjoined := joined_symbolsOf false hfirst hsecond
  unfold joinedAt ofTokens
  rw [List.getElem?_toArray]
  cases hsymbol : (symbolsOf false tokens.tokens.toList)[index + 1]? with
  | none => simp [hsymbol] at hjoined
  | some symbol =>
      rw [hsymbol] at hjoined
      exact Option.some.inj hjoined

theorem kind_ne_eof_of_inner {tokens : TokenList} {token : Token} (h : token ∈ tokens.inner) :
    token.kind ≠ .eof := by
  have hinner := List.all_takeWhile (p := (·.isInner)) (l := tokens.tokens.toList)
  rw [List.all_eq_true] at hinner
  simpa [Token.isInner] using hinner token h

theorem kindAt_ofTokens_eq_eof {tokens : TokenList} {index : Nat} :
    (ofTokens tokens).kindAt index = .eof ↔ (ofTokens tokens).size ≤ index := by
  rw [kindAt_ofTokens, size_ofTokens]
  constructor
  · intro h
    refine Nat.le_of_not_lt fun hlt => ?_
    rw [List.getElem?_eq_getElem hlt] at h
    exact kind_ne_eof_of_inner (List.getElem_mem hlt) h
  · intro h
    rw [List.getElem?_eq_none h]
    rfl

end Sentence

theorem TokenList.findIdx?_eof {list : TokenList}
    (h : ∃ token ∈ list.tokens.toList, token.kind = .eof) :
    list.tokens.toList.findIdx? (·.kind == .eof) = some list.inner.length := by
  unfold inner
  generalize list.tokens.toList = tokens at h
  induction tokens with
  | nil => simp at h
  | cons token rest ih =>
      by_cases heof : token.kind = .eof
      · simp [List.findIdx?_cons, Token.isInner, heof]
      · have hrest : ∃ token ∈ rest, token.kind = .eof := by
          obtain ⟨other, hmem, hkind⟩ := h
          rcases List.mem_cons.mp hmem with rfl | hmem
          · exact absurd hkind heof
          · exact ⟨other, hmem, hkind⟩
        simp [List.findIdx?_cons, Token.isInner, heof, ih hrest]

namespace TokenList

variable {tokens : TokenList} {index : Nat}

/-- The kind at an index; behind the last token, the end of file. -/
def kindAt (tokens : TokenList) (index : Nat) : TokenKind :=
  ((tokens.get? index).map (·.kind)).getD .eof

theorem get?_inner (h : index < tokens.inner.length) :
    tokens.get? index = some tokens.inner[index] := by
  rw [get?, ← Array.getElem?_toList, getElem?_inner h]

theorem kindAt_behind (tokens : TokenList) : tokens.kindAt tokens.inner.length = .eof := by
  have hsplit : tokens.inner ++ tokens.tokens.toList.dropWhile (·.isInner) =
      tokens.tokens.toList := List.takeWhile_append_dropWhile
  have hget : tokens.get? tokens.inner.length =
      (tokens.tokens.toList.dropWhile (·.isInner)).head? := by
    rw [get?, ← Array.getElem?_toList, ← hsplit, List.getElem?_append_right (Nat.le_refl _),
      Nat.sub_self, List.head?_eq_getElem?]
    simp [hsplit]
  have hnot := List.head?_dropWhile_not (·.isInner) tokens.tokens.toList
  rw [kindAt, hget]
  cases hhead : (tokens.tokens.toList.dropWhile (·.isInner)).head? with
  | none => rfl
  | some token =>
      rw [hhead] at hnot
      simpa [Token.isInner] using hnot

theorem kindAt_eq (h : index ≤ tokens.inner.length) :
    (Sentence.ofTokens tokens).kindAt index = tokens.kindAt index := by
  rcases Nat.lt_or_eq_of_le h with hlt | rfl
  · rw [Sentence.kindAt_of_lt hlt, kindAt, get?_inner hlt]
    rfl
  · have hend : (Sentence.ofTokens tokens).kindAt tokens.inner.length = .eof :=
      Sentence.kindAt_ofTokens_eq_eof.mpr (Nat.le_of_eq (Sentence.size_ofTokens tokens))
    exact hend.trans tokens.kindAt_behind.symm

end TokenList

end TolerantSyntax
