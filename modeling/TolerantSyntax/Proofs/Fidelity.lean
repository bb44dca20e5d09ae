import TolerantSyntax.Proofs.Lexer.Attachment
import TolerantSyntax.Proofs.Reads.Member
import TolerantSyntax.Proofs.Sentence
import TolerantSyntax.SyntaxTree

/-!
# Trees give their text back

The outermost members tile the tokens in front of the end of file.  For a text the end of
file is its last token, and the tokens cut the text, so a tree has all of its text.
-/

namespace TolerantSyntax

theorem TokenList.slice_of_tile {list : TokenList} {range : TokenRange}
    (hrange : range.start ≤ range.stop) (hstop : range.stop ≤ list.size) :
    list.slice range = (list.tokens.toList.drop range.start).take range.length := by
  have hholds : list.holds range = true := by simp [holds, hrange, hstop]
  rw [slice, if_pos hholds, Array.toList_extract, List.extract_eq_take_drop]
  rfl

theorem TokenRange.Tile.le {ranges : List TokenRange} {start stop : Nat}
    (h : Tile ranges start stop) : start ≤ stop := by
  induction h with
  | nil start => exact Nat.le_refl _
  | cons hlt hrest ih => exact Nat.le_trans (Nat.le_of_lt hlt) ih

theorem TokenRange.Tile.slices {ranges : List TokenRange} {start stop : Nat}
    {list : TokenList} (h : Tile ranges start stop) (hstop : stop ≤ list.size) :
    ranges.flatMap list.slice = (list.tokens.toList.drop start).take (stop - start) := by
  induction h with
  | nil start =>
      rw [Nat.sub_self]
      rfl
  | @cons start middle stop rest hlt hrest ih =>
      have hle := hrest.le
      have hslice : list.slice ⟨start, middle⟩ =
          (list.tokens.toList.drop start).take (middle - start) :=
        TokenList.slice_of_tile (Nat.le_of_lt hlt) (Nat.le_trans hle hstop)
      have hsplit : stop - start = (middle - start) + (stop - middle) := by omega
      rw [List.flatMap_cons, hslice, ih hstop, hsplit, List.take_add, List.drop_drop]
      rw [show start + (middle - start) = middle by omega]

namespace SyntaxTree

theorem exists_eof (source : String) (tokens : TokenList) :
    ∃ token ∈ (closeTokens source tokens).tokens.toList, token.kind = .eof := by
  unfold closeTokens
  split
  · rename_i hends
    unfold TokenList.endsWithEof TokenList.last? at hends
    rw [Option.any_eq_true] at hends
    obtain ⟨token, hback, hkind⟩ := hends
    exact ⟨token, Array.mem_toList_iff.mpr (Array.mem_of_back? hback), by simpa using hkind⟩
  · exact ⟨.bare .eof (.point source.utf8ByteSize), by simp [TokenList.push], rfl⟩

theorem closeTokens_lex (source : String) :
    closeTokens source (lex source).tokens = (lex source).tokens := by
  obtain ⟨front, last, htokens, -, hlast, -⟩ := lex_cut source
  have hends : (lex source).tokens.endsWithEof = true := by
    unfold TokenList.endsWithEof TokenList.last?
    rw [← Array.getLast?_toList, htokens]
    simp [hlast]
  unfold closeTokens
  rw [if_pos hends]

section Parts

variable (source : String) (tokens : TokenList) (lexical : List Diagnostic)
  (version : LanguageVersion)

theorem ofTokens_source : (ofTokens source tokens lexical version).source = source := rfl

theorem ofTokens_tokens :
    (ofTokens source tokens lexical version).tokens = closeTokens source tokens := rfl

theorem ofTokens_root :
    (ofTokens source tokens lexical version).root =
      (ofSentence (.ofTokens (closeTokens source tokens))).1 := rfl

theorem ofTokens_exprs :
    (ofTokens source tokens lexical version).exprs =
      (ofSentence (.ofTokens (closeTokens source tokens))).2.exprs := rfl

theorem ofTokens_diagnostics :
    (ofTokens source tokens lexical version).diagnostics =
      (DiagnosticBag.mk (lexical ++ findingsIn source (closeTokens source tokens) version
        (ofSentence (.ofTokens (closeTokens source tokens))).2)).sorted := rfl

theorem ofText_source : (ofText source version).source = source := by
  rw [ofText, ofTokens_source]

theorem ofText_tokens : (ofText source version).tokens = (lex source).tokens := by
  rw [ofText, ofTokens_tokens, closeTokens_lex]

theorem ofText_root :
    (ofText source version).root = (ofSentence (.ofTokens (lex source).tokens)).1 := by
  rw [ofText, ofTokens_root, closeTokens_lex]

theorem ofText_exprs :
    (ofText source version).exprs = (ofSentence (.ofTokens (lex source).tokens)).2.exprs := by
  rw [ofText, ofTokens_exprs, closeTokens_lex]

theorem ofText_diagnostics :
    (ofText source version).diagnostics =
      (DiagnosticBag.mk ((lex source).diagnostics ++ findingsIn source (lex source).tokens
        version (ofSentence (.ofTokens (lex source).tokens)).2)).sorted := by
  rw [ofText, ofTokens_diagnostics, closeTokens_lex]

end Parts

theorem ofSentence_reads (sentence : Sentence) :
    sentence.kindAt (ofSentence sentence).2.position = .eof ∧
      (ofSentence sentence).1.eof = (ofSentence sentence).2.position ∧
      TokenRange.Tile ((ofSentence sentence).1.members.map (·.range)) 0
        (ofSentence sentence).2.position ∧
      sentence.Covers (ofSentence sentence).1.pieces .start (ofSentence sentence).2 :=
  Parse.compilationUnit_covers

theorem ofSentence_covers (tokens : TokenList) :
    (ofSentence (.ofTokens tokens)).2.position = tokens.inner.length ∧
      (ofSentence (.ofTokens tokens)).1.eof = tokens.inner.length ∧
      TokenRange.Tile ((ofSentence (.ofTokens tokens)).1.members.map (·.range)) 0
        tokens.inner.length ∧
      (Sentence.ofTokens tokens).Covers (ofSentence (.ofTokens tokens)).1.pieces .start
        (ofSentence (.ofTokens tokens)).2 := by
  obtain ⟨hkind, heof, htile, hcovers⟩ := ofSentence_reads (.ofTokens tokens)
  have hsize := Sentence.kindAt_ofTokens_eq_eof.mp hkind
  have hwithin : (ofSentence (.ofTokens tokens)).2.position ≤
      max 0 (Sentence.ofTokens tokens).size := hcovers.within
  have hend : (ofSentence (.ofTokens tokens)).2.position = tokens.inner.length := by
    rw [Sentence.size_ofTokens] at hsize hwithin
    omega
  rw [hend] at heof htile
  exact ⟨hend, heof, htile, hcovers⟩

theorem inner_lex (source : String) :
    ∃ last, (lex source).tokens.tokens.toList = (lex source).tokens.inner ++ [last] ∧
      Span.Cut ((lex source).tokens.tokens.toList.map (·.fullSpan)) 0 source.toList := by
  obtain ⟨front, last, htokens, hfront, hlast, hcut⟩ := lex_cut source
  refine ⟨last, ?_, ?_⟩
  · rw [TokenList.inner_eq htokens hfront hlast, htokens]
  · rw [htokens]
    exact hcut

theorem size_lex (source : String) :
    (lex source).tokens.size = (lex source).tokens.inner.length + 1 := by
  obtain ⟨last, htokens, -⟩ := inner_lex source
  have hlength := congrArg List.length htokens
  simpa [TokenList.size] using hlength

theorem fullText_ofText (source : String) (version : LanguageVersion) :
    (ofText source version).fullText = source := by
  obtain ⟨-, heof, htile, -⟩ := ofSentence_covers (lex source).tokens
  have hsize := size_lex source
  have hslices := (htile.append_singleton (Nat.lt_add_one _)).slices (Nat.le_of_eq hsize.symm)
  have hall : (lex source).tokens.tokens.toList.take ((lex source).tokens.inner.length + 1) =
      (lex source).tokens.tokens.toList := by
    rw [← hsize]
    exact List.take_length
  rw [List.drop_zero, Nat.sub_zero, hall] at hslices
  obtain ⟨-, -, hcut⟩ := inner_lex source
  have hjoin := hcut.join_slices
  rw [List.map_map] at hjoin
  unfold fullText outerRanges
  rw [ofText_root, ofText_tokens, ofText_source, heof]
  change String.join (((_ ++ [TokenRange.mk _ _]).flatMap _).map _) = source
  rw [hslices]
  exact hjoin

/-- The outermost members tile the tokens up to the first end of file, whatever the tokens
are.  For a text this is the last token, and the tree has the whole text. -/
theorem members_tile_tokens :
    (∀ (source : String) (version : LanguageVersion),
      TokenRange.Tile ((ofText source version).root.members.map (·.range)) 0
          (ofText source version).root.eof ∧
        (ofText source version).tokens.lastIndex? = some (ofText source version).root.eof ∧
        (ofText source version).fullText = source) ∧
    ∀ (source : String) (tokens : TokenList) (lexical : List Diagnostic)
      (version : LanguageVersion),
      TokenRange.Tile ((ofTokens source tokens lexical version).root.members.map (·.range)) 0
          (ofTokens source tokens lexical version).root.eof ∧
        (ofTokens source tokens lexical version).tokens.tokens.toList.findIdx? (·.kind == .eof) =
          some (ofTokens source tokens lexical version).root.eof := by
  constructor
  · intro source version
    obtain ⟨-, heof, htile, -⟩ := ofSentence_covers (lex source).tokens
    refine ⟨?_, ?_, fullText_ofText source version⟩
    · rw [ofText_root, heof]
      exact htile
    · rw [ofText_root, ofText_tokens, heof, TokenList.lastIndex?, TokenList.isEmpty, size_lex]
      have hsize : (lex source).tokens.tokens.size = (lex source).tokens.inner.length + 1 :=
        size_lex source
      simp [Array.isEmpty, hsize]
  · intro source tokens lexical version
    obtain ⟨-, heof, htile, -⟩ := ofSentence_covers (closeTokens source tokens)
    rw [ofTokens_root, ofTokens_tokens, heof]
    exact ⟨htile, TokenList.findIdx?_eof (exists_eof source tokens)⟩

end SyntaxTree
end TolerantSyntax
