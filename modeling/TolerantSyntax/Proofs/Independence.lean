import TolerantSyntax.Proofs.Diagnostics
import TolerantSyntax.Proofs.Speculation.Production
import TolerantSyntax.Proofs.Uncut.Member

/-!
# What layout has no say in

A parser that has a token list in front of it reads the same of it as the grammar reads of its
sentence: it sees nothing else in a token, and it does not look behind the first end of file.  Two
lists that agree up to there, in the kinds, in the contextual keywords and in which `>` touch, are
one sentence.  So they have the same tree and the same findings; only the spans and the texts that
are shown differ.
-/

namespace TolerantSyntax

namespace TokenList

/-- The tokens up to the first end of file, with it. -/
def frontOf : List Token → List Token
  | [] => []
  | token :: rest => token :: if token.kind = .eof then [] else frontOf rest

/-- The kinds and the contextual keywords agree, and a `>` directly behind another one
touches it in both lists or in neither. -/
structure Agree (left right : List Token) : Prop where
  kinds : left.map (·.kind) = right.map (·.kind)
  contextuals : left.map (·.contextual) = right.map (·.contextual)
  touching : ∀ index < left.length, left[index]?.map (·.kind) = some .gt →
    left[index + 1]?.map (·.kind) = some .gt →
    left[index + 1]?.map (·.flags.adjacent) = right[index + 1]?.map (·.flags.adjacent)

/-- The lists agree up to their first end of file, with it. -/
def Alike (left right : TokenList) : Prop :=
  Agree (frontOf left.tokens.toList) (frontOf right.tokens.toList)

namespace Agree

variable {left right : List Token}

theorem tail {first second : Token} (h : Agree (first :: left) (second :: right)) :
    Agree left right where
  kinds := (List.cons.inj h.kinds).2
  contextuals := (List.cons.inj h.contextuals).2
  touching := fun index hindex => h.touching (index + 1) (Nat.succ_lt_succ hindex)

theorem cons (h : Agree left right) {token : Token} (hkind : token.kind ≠ .gt) :
    Agree (token :: left) (token :: right) where
  kinds := by rw [List.map_cons, h.kinds, List.map_cons]
  contextuals := by rw [List.map_cons, h.contextuals, List.map_cons]
  touching := by
    intro index hindex hgt hbehind
    cases index with
    | zero => exact absurd (by simpa using hgt) hkind
    | succ index => exact h.touching index (Nat.lt_of_succ_lt_succ hindex) hgt hbehind

theorem joined_eq {first second next other : Token}
    (h : Agree (first :: next :: left) (second :: other :: right)) :
    (next.kind == .gt && first.kind == .gt && next.flags.adjacent) =
      (other.kind == .gt && second.kind == .gt && other.flags.adjacent) := by
  have hkind : first.kind = second.kind := (List.cons.inj h.kinds).1
  have hnext : next.kind = other.kind := (List.cons.inj h.tail.kinds).1
  rw [← hnext, ← hkind]
  by_cases hgt : next.kind = .gt ∧ first.kind = .gt
  · have htouching : some next.flags.adjacent = some other.flags.adjacent :=
      h.touching 0 (Nat.zero_lt_succ _) (congrArg some hgt.2) (congrArg some hgt.1)
    rw [Option.some.inj htouching]
  · have hneither : (next.kind == .gt && first.kind == .gt) = false := by simpa using hgt
    rw [hneither, Bool.false_and, Bool.false_and]

theorem symbolsOf_eq {first second : Token}
    (h : Agree (first :: frontOf left) (second :: frontOf right)) :
    Sentence.symbolsOf (first.kind == .gt) left =
      Sentence.symbolsOf (second.kind == .gt) right := by
  -- All that a symbol takes over from the token in front is whether that one is a `>`.
  induction left generalizing first second right with
  | nil =>
      cases right with
      | nil => rfl
      | cons other right => exact absurd h.tail.kinds nofun
  | cons next left ih =>
      cases right with
      | nil => exact absurd h.tail.kinds nofun
      | cons other right =>
          have hkind : next.kind = other.kind := (List.cons.inj h.tail.kinds).1
          have hcontextual : next.contextual = other.contextual :=
            (List.cons.inj h.tail.contextuals).1
          have hbehind := h.tail
          unfold frontOf at hbehind
          simp only [Sentence.symbolsOf]
          by_cases heof : next.kind = .eof
          · rw [if_pos heof, if_pos (hkind ▸ heof)]
          · have heof' : other.kind ≠ .eof := hkind ▸ heof
            rw [if_neg heof, if_neg heof'] at hbehind
            rw [if_neg heof, if_neg heof', h.joined_eq, ih hbehind, hkind, hcontextual]

end Agree

theorem Alike.sentence_eq {left right : TokenList} (h : Alike left right) :
    Sentence.ofTokens left = Sentence.ofTokens right := by
  have hkind : (Token.bare .eof (.point 0)).kind ≠ .gt := nofun
  have hsymbols : Sentence.symbolsOf false left.tokens.toList =
      Sentence.symbolsOf false right.tokens.toList := (Agree.cons h hkind).symbolsOf_eq
  rw [Sentence.ofTokens, hsymbols, Sentence.ofTokens]

end TokenList

theorem Finding.code_eq (finding : Finding) (source source' : String)
    (tokens tokens' : TokenList) (version : LanguageVersion) :
    (finding.diagnostic? source tokens version).map (·.code) =
      (finding.diagnostic? source' tokens' version).map (·.code) := by
  cases finding with
  | absent kind place =>
      unfold diagnostic? absentDiagnostic
      simp only
      split <;> rfl
  | uses feature place =>
      unfold diagnostic? Feature.check?
      simp only
      split <;> rfl
  | _ => rfl

namespace SyntaxTree

theorem findingsIn_codes (source source' : String) (tokens tokens' : TokenList)
    (version : LanguageVersion) (state : ParseState) :
    (findingsIn source tokens version state).map (·.code) =
      (findingsIn source' tokens' version state).map (·.code) := by
  rw [findingsIn, findingsIn, List.map_filterMap, List.map_filterMap]
  exact List.filterMap_congr fun finding _ => finding.code_eq source source' tokens tokens' version

theorem ofTokens_diagnostics_perm (source : String) (tokens : TokenList)
    (lexical : List Diagnostic) (version : LanguageVersion) :
    (ofTokens source tokens lexical version).diagnostics.Perm
      (lexical ++ findingsIn source (closeTokens source tokens) version
        (ofSentence (.ofTokens (closeTokens source tokens))).2) :=
  List.mergeSort_perm _ _

theorem closeTokens_endsWithEof (source : String) (tokens : TokenList) :
    (closeTokens source tokens).endsWithEof = true := by
  unfold closeTokens
  split
  · assumption
  · simp [TokenList.endsWithEof, TokenList.last?, TokenList.push, Token.bare]

/-- Whatever presents a closed list is read as the sentence of the list: what it has besides, and
what it has behind the first end of file, makes no difference. -/
theorem ofSentence_presented {sentence : Sentence} {tokens : TokenList}
    (h : sentence.Presents tokens) (hclosed : tokens.endsWithEof = true) :
    ofSentence sentence = ofSentence (.ofTokens tokens) :=
  (Parse.Confined.compilationUnit.alike (h.continues hclosed) (Nat.zero_le _)).same

end SyntaxTree

/-- A cursor over the tokens sees all of them, as the uncut sentence does, and up to the first end
of file it sees what the sentence of the list has.  From whatever presents the tokens up to there
the parser comes to the tree. -/
structure Script.ReadsTokens (script : Script CompilationUnit) (source : String)
    (tokens : TokenList) (version : LanguageVersion) (lexical : List Diagnostic)
    (tree : SyntaxTree) : Prop where
  uncut : (Sentence.uncut tokens).Mirrors tokens
  cut : (Sentence.ofTokens tokens).Presents tokens
  ends : ∀ sentence : Sentence, sentence.Presents tokens →
    script.EndsWith ⟨source, tokens, version, .ofSentence sentence⟩ lexical tree

theorem Script.ReadsTokens.ends_uncut {script : Script CompilationUnit} {source : String}
    {tokens : TokenList} {version : LanguageVersion} {lexical : List Diagnostic}
    {tree : SyntaxTree} (h : script.ReadsTokens source tokens version lexical tree) :
    script.EndsWith ⟨source, tokens, version, .ofSentence (.uncut tokens)⟩ lexical tree :=
  h.ends _ h.uncut.presents

namespace SyntaxTree

theorem ofTokens_read {script : Script CompilationUnit}
    (hscript : script.parse = Production.compilationUnit.parse) (source : String)
    (tokens : TokenList) (lexical : List Diagnostic) (version : LanguageVersion) :
    script.ReadsTokens source (closeTokens source tokens) version lexical
      (ofTokens source tokens lexical version) := by
  have hclosed := closeTokens_endsWithEof source tokens
  refine ⟨Sentence.uncut_mirrors hclosed, Sentence.ofTokens_presents hclosed,
    fun sentence hpresents => ?_⟩
  have hrun := Script.run_unit hscript
    ⟨source, closeTokens source tokens, version, .ofSentence sentence⟩ lexical
  have hread : Parse.compilationUnit (.ofSentence sentence) .start =
      ofSentence (.ofTokens (closeTokens source tokens)) := ofSentence_presented hpresents hclosed
  rw [hread] at hrun
  constructor <;> rw [hrun] <;> rfl

/-- Token lists that look alike have the same tree, and what is added to their lexical
diagnostics has the same codes, whatever the texts are.  One parser that goes over the tokens comes
to both trees, from whatever presents the tokens to it. -/
theorem ofTokens_alike {source source' : String} {tokens tokens' : TokenList}
    (h : (closeTokens source tokens).Alike (closeTokens source' tokens'))
    (lexical lexical' : List Diagnostic) (version : LanguageVersion) :
    (ofTokens source tokens lexical version).root =
        (ofTokens source' tokens' lexical' version).root ∧
      (ofTokens source tokens lexical version).exprs =
        (ofTokens source' tokens' lexical' version).exprs ∧
      (∃ added added' : List Diagnostic,
        (ofTokens source tokens lexical version).diagnostics.Perm (lexical ++ added) ∧
          (ofTokens source' tokens' lexical' version).diagnostics.Perm (lexical' ++ added') ∧
          (added.map (·.code)).Perm (added'.map (·.code))) ∧
      ∃ script : Script CompilationUnit, script.parse = Production.compilationUnit.parse ∧
        script.ReadsTokens source (closeTokens source tokens) version lexical
          (ofTokens source tokens lexical version) ∧
        script.ReadsTokens source' (closeTokens source' tokens') version lexical'
          (ofTokens source' tokens' lexical' version) := by
  have hsentence := h.sentence_eq
  have hadded := ofTokens_diagnostics_perm source tokens lexical version
  have hadded' := ofTokens_diagnostics_perm source' tokens' lexical' version
  obtain ⟨script, hscript⟩ := Production.compilationUnit.scripted
  have hreads := ofTokens_read (funext hscript) source tokens lexical version
  have hreads' := ofTokens_read (funext hscript) source' tokens' lexical' version
  rw [← hsentence] at hadded'
  refine ⟨?_, ?_, ⟨_, _, hadded, hadded', .of_eq (findingsIn_codes ..)⟩, script, funext hscript,
    hreads, hreads'⟩
  · rw [ofTokens_root, ofTokens_root, hsentence]
  · rw [ofTokens_exprs, ofTokens_exprs, hsentence]

theorem ofTokens_alike_shift :
    let source := "class A{int x=y>>z}"
    let source' := "class B { int u = v >> w }"
    let tokens := (lex source).tokens
    let tokens' := (lex source').tokens.push (.bare .rBrace ⟨25, 26⟩)
    (closeTokens source tokens).Alike (closeTokens source' tokens') ∧
      (ofTokens source tokens [] .v7).root = (ofTokens source' tokens' [] .v7).root ∧
      (ofTokens source tokens [] .v7).exprs = (ofTokens source' tokens' [] .v7).exprs ∧
      (∃ added added' : List Diagnostic,
        (ofTokens source tokens [] .v7).diagnostics.Perm ([] ++ added) ∧
          (ofTokens source' tokens' [] .v7).diagnostics.Perm ([] ++ added') ∧
          (added.map (·.code)).Perm (added'.map (·.code))) ∧
      ∃ script : Script CompilationUnit, script.parse = Production.compilationUnit.parse ∧
        script.ReadsTokens source (closeTokens source tokens) .v7 []
          (ofTokens source tokens [] .v7) ∧
        script.ReadsTokens source' (closeTokens source' tokens') .v7 []
          (ofTokens source' tokens' [] .v7) := by
  intro source source' tokens tokens'
  have halike : (closeTokens source tokens).Alike (closeTokens source' tokens') := by
    constructor
    · decide
    · decide
    · decide
  exact ⟨halike, ofTokens_alike halike [] [] .v7⟩

end SyntaxTree
end TolerantSyntax
