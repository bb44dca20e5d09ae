import TolerantSyntax.Proofs.Qualifier.Member
import TolerantSyntax.Proofs.Recovery.Tree

/-!
# Types by reference in whole trees

In a tree of any tokens a type is by reference only where a declaration declares it, and its
qualifier is told by the tokens.
-/

namespace TolerantSyntax

theorem TokenList.kindAt_of_get? {tokens : TokenList} {index : Nat} {kind : TokenKind}
    (hindex : index < (Sentence.ofTokens tokens).size)
    (h : (tokens.get? index).map (·.kind) = some kind) :
    (Sentence.ofTokens tokens).kindAt index = kind := by
  rw [Sentence.size_ofTokens] at hindex
  rw [get?, ← Array.getElem?_toList, getElem?_inner hindex, Option.map_some,
    ← Sentence.kindAt_of_lt hindex] at h
  exact Option.some.inj h

namespace SyntaxTree

theorem ofSentence_placed (sentence : Sentence) :
    ∀ member ∈ (ofSentence sentence).1.members, sentence.Placed (.member member) :=
  @Parse.compilationUnit_placed (.ofSentence sentence)

/-- A type is by reference only as what a method, a property, an indexer or a delegate
returns, as the type of a local declaration, or as the type of a member that was given up.
Its `ref` comes first in it, or behind a `readonly` that does.  It is `readonly ref` exactly
when a `readonly` stands in front of the `ref`, and this one is no modifier. -/
theorem ofTokens_headsOnly (source : String) (tokens : TokenList) (lexical : List Diagnostic)
    (version : LanguageVersion) :
    let tree := ofTokens source tokens lexical version
    ∀ node ∈ tree.root.nodes true,
      node.HeadsOnly fun index kind => (tree.tokens.get? index).map (·.kind) = some kind := by
  intro tree node hnode
  obtain ⟨member, hmember, hmem⟩ := List.mem_flatMap.mp (tree.root.nodes_eq true ▸ hnode)
  have hheads := (ofSentence_placed (.ofTokens tree.tokens) member hmember).subtree node hmem
  refine ⟨hheads.others, fun modifiers range qualifier inner hdeclared => ?_⟩
  have hstands := hheads.declared modifiers range qualifier inner hdeclared
  refine hstands.imp (fun index kind heof hkind => Sentence.map_kind_get? hkind heof)
    fun index hindex hkind => ?_
  have href := Sentence.lt_size_of_kindAt (ne_of_eq_of_ne hstands.isRef nofun)
  exact TokenList.kindAt_of_get? (Nat.lt_trans hindex href) hkind

example : ((ofText "class C { readonly ref A<ref B> M(); }" .v7_1).root.nodes true).countP
    Node.isByRef = 1 := by decide +kernel

end SyntaxTree
end TolerantSyntax
