import TolerantSyntax.Proofs.Recovery.Tree

/-!
# Bodies own their tokens

Between the braces of a block, or of a class, struct, interface or namespace, every token
belongs to one of the statements or members there.  A body whose `}` is absent goes on up to
the end of file.
-/

namespace TolerantSyntax

theorem Body.OwnsTokens.tile {tokens : TokenList} {body : Body} {opening : Nat}
    (h : body.OwnsTokens (.ofTokens tokens)) (hopening : body.opening? = some opening)
    (heof : ∃ token ∈ tokens.tokens.toList, token.kind = .eof) :
    (tokens.get? opening).map (·.kind) = some .lBrace ∧
      ∃ stop, TokenRange.Tile body.ranges (opening + 1) stop ∧
        (body.closing? = some stop ∧ (tokens.get? stop).map (·.kind) = some .rBrace ∨
          body.closing? = none ∧
            tokens.tokens.toList.findIdx? (·.kind == .eof) = some stop) := by
  obtain ⟨hopen, stop, htile, hwithin, hclosing⟩ := h opening hopening
  refine ⟨Sentence.map_kind_get? hopen nofun, stop, htile, ?_⟩
  rcases hclosing with ⟨hclosed, hkind⟩ | ⟨hopened, hkind⟩
  · exact .inl ⟨hclosed, Sentence.map_kind_get? hkind nofun⟩
  · have hsize := Sentence.kindAt_ofTokens_eq_eof.mp hkind
    have hstop : stop = tokens.inner.length := by
      rw [Sentence.size_ofTokens] at hwithin hsize
      exact Nat.le_antisymm hwithin hsize
    exact .inr ⟨hopened, hstop ▸ TokenList.findIdx?_eof heof⟩

namespace SyntaxTree

/-- Whatever the tokens are, the statements of a block and the members of a body follow each
other from behind the `{` up to the `}`, each with a token at least.  The `}` is absent only
where they go on up to the first end of file. -/
theorem ofTokens_bodies (source : String) (tokens : TokenList) (lexical : List Diagnostic)
    (version : LanguageVersion) :
    ∀ visit ∈ (ofTokens source tokens lexical version).root.walk true,
      ∀ body ∈ visit.node.bodies, ∀ opening, body.opening? = some opening →
        ((ofTokens source tokens lexical version).tokens.get? opening).map (·.kind) =
            some .lBrace ∧
          ∃ stop, TokenRange.Tile body.ranges (opening + 1) stop ∧
            (body.closing? = some stop ∧
                ((ofTokens source tokens lexical version).tokens.get? stop).map (·.kind) =
                  some .rBrace ∨
              body.closing? = none ∧
                (ofTokens source tokens lexical version).tokens.tokens.toList.findIdx?
                  (·.kind == .eof) = some stop) := by
  rw [ofTokens_root, ofTokens_tokens]
  intro visit hvisit body hbody opening hopening
  have howns : body.OwnsTokens (.ofTokens (closeTokens source tokens)) :=
    ofSentence_keeps _ visit hvisit _ (Node.mem_bodies.mp hbody)
  exact howns.tile hopening (exists_eof source tokens)

theorem ofTokens_bodies_unclosed :
    ∃ visit ∈ (ofTokens "class C \x7b int x;" (lex "class C \x7b int x;").tokens []
        .v7_1).root.walk true,
      ∃ body ∈ visit.node.bodies, body.opening? = some 2 ∧ body.closing? = none ∧
        ((ofTokens "class C \x7b int x;" (lex "class C \x7b int x;").tokens []
            .v7_1).tokens.get? 2).map (·.kind) = some .lBrace ∧
          ∃ stop, TokenRange.Tile body.ranges (2 + 1) stop ∧
            (body.closing? = some stop ∧
                ((ofTokens "class C \x7b int x;" (lex "class C \x7b int x;").tokens []
                  .v7_1).tokens.get? stop).map (·.kind) = some .rBrace ∨
              body.closing? = none ∧
                (ofTokens "class C \x7b int x;" (lex "class C \x7b int x;").tokens []
                  .v7_1).tokens.tokens.toList.findIdx? (·.kind == .eof) = some stop) := by
  have hbody : ∃ visit ∈ (ofTokens "class C \x7b int x;" (lex "class C \x7b int x;").tokens []
        .v7_1).root.walk true,
      ∃ body ∈ visit.node.bodies, body.opening? = some 2 ∧ body.closing? = none := by
    decide +kernel
  obtain ⟨visit, hvisit, body, hmem, hopening, hclosing⟩ := hbody
  exact ⟨visit, hvisit, body, hmem, hopening, hclosing,
    ofTokens_bodies _ _ _ _ visit hvisit body hmem 2 hopening⟩

end SyntaxTree
end TolerantSyntax
