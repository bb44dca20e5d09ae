import TolerantSyntax.Proofs.Speculation.Production
import TolerantSyntax.Proofs.TypeEnd.Memo

/-!
# The record of tuple ends is not seen

A parser that is changed in place keeps the record of tuple ends that it has, also when it goes
back.  Whatever it does, scans and whole productions, the entries stay what a scan without a
record finds.  So each scan, each production and the tree are as without the record.
-/

namespace TolerantSyntax

open Procedure (Scanner)

/-- The records that a parser can have: the empty one, and what is left of one behind scans and
behind whatever is carried out, with the attempts in it. -/
inductive TupleEnds.Reached (setting : ParserSetting) : TupleEnds → Prop where
  | empty : Reached setting .empty
  | scanType {memo : TupleEnds} (h : Reached setting memo) (index : Nat) :
      Reached setting ((setting.input.sentence.scanType index).run memo).2
  | scanTupleType {memo : TupleEnds} (h : Reached setting memo) (opening : Nat) :
      Reached setting ((setting.input.sentence.scanTupleType opening).run memo).2
  | carriedOut {memo : TupleEnds} (h : Reached setting memo) {α : Type} (procedure : Procedure α)
      (parser : Parser) :
      Reached setting (procedure.run setting.input.sentence.scanType setting memo parser).2

/-- The scanner that remembers nothing. -/
def Sentence.plainScanner (sentence : Sentence) : Scanner Unit :=
  fun index => return sentence.plainTypeEnd? index

section Setting

variable {setting : ParserSetting} {sentence : Sentence}
  (hinput : setting.input = .ofSentence sentence)

include hinput

theorem Procedure.run_recalls {α : Type} (procedure : Procedure α) {memo : TupleEnds}
    (hmemo : sentence.Recalls memo) (parser : Parser) :
    (procedure.run sentence.scanType setting memo parser).1 =
        procedure.script.run setting parser ∧
      sentence.Recalls (procedure.run sentence.scanType setting memo parser).2 := by
  refine run_eq_script (fun index memo hmemo => ?_) procedure hmemo parser
  obtain ⟨hstop, hafter⟩ := sentence.scanType_finds index memo hmemo
  rw [hstop, hinput]
  exact ⟨sentence.plainTypeEnd?_eq index, hafter⟩

theorem Procedure.run_plain {α : Type} (procedure : Procedure α) (parser : Parser) :
    (procedure.run sentence.plainScanner setting () parser).1 =
      procedure.script.run setting parser := by
  have hscan : ∀ index memory, True →
      ((sentence.plainScanner index).run memory).1 =
          setting.input.sentence.typeEnd? setting.input.tupleEnd index ∧ True := by
    intro index memory _
    rw [hinput]
    exact ⟨sentence.plainTypeEnd?_eq index, trivial⟩
  exact (run_eq_script hscan procedure trivial parser).1

theorem TupleEnds.Reached.recalls {memo : TupleEnds} (h : Reached setting memo) :
    sentence.Recalls memo := by
  have hsentence : setting.input.sentence = sentence := congrArg Input.sentence hinput
  induction h with
  | empty =>
      intro opening stop hentry
      cases hentry
  | scanType h index ih =>
      rw [hsentence]
      exact (sentence.scanType_finds index _ ih).2
  | scanTupleType h opening ih =>
      rw [hsentence]
      exact (sentence.scanTupleType_finds opening _ ih).2
  | carriedOut h procedure parser ih =>
      rw [hsentence]
      exact (procedure.run_recalls hinput ih parser).2

end Setting

/-- Carried out with any record that comes up, the procedure does what is read. -/
def Procedure.Carries {α : Type} (procedure : Procedure α) (setting : ParserSetting)
    (parse : ParseContext → Parse α) : Prop :=
  ∀ memo, TupleEnds.Reached setting memo → ∀ earlier context state,
    (procedure.run setting.input.sentence.scanType setting memo
        (state.parser setting earlier context)).1 =
      ((parse context setting.input state).1,
        (parse context setting.input state).2.parser setting earlier context)

theorem Procedure.carries {setting : ParserSetting} {sentence : Sentence} {α : Type}
    {procedure : Procedure α} {parse : ParseContext → Parse α}
    (hinput : setting.input = .ofSentence sentence)
    (h : ∀ context, procedure.script.parse context = parse context) :
    procedure.Carries setting parse := by
  intro memo hmemo earlier context state
  have hrun := procedure.run_recalls hinput (hmemo.recalls hinput)
    (state.parser setting earlier context)
  have hsentence : setting.input.sentence = sentence := congrArg Input.sentence hinput
  rw [hsentence, hrun.1, procedure.script.run_eq_parse, h]

namespace SyntaxTree

/-- Whatever a parser has done before, each entry of its record is where the tuple type ends that
opens there.  Scans, productions and the tree come out as without the record. -/
theorem tuple_ends_unseen (source : String) (tokens : TokenList) (lexical : List Diagnostic)
    (version : LanguageVersion) :
    let setting := ParserSetting.ofTokens source tokens version
    let sentence := setting.input.sentence
    let tree := ofTokens source tokens lexical version
    (∀ memo, TupleEnds.Reached setting memo →
      (∀ opening stop, memo.get? opening = some stop → stop = sentence.plainTupleEnd opening) ∧
      (∀ index, ((sentence.scanType index).run memo).1 = sentence.plainTypeEnd? index) ∧
      (∀ opening, ((sentence.scanTupleType opening).run memo).1 = sentence.plainTupleEnd opening ∧
        ((sentence.scanTupleType opening).run memo).2.get? opening =
          some (sentence.plainTupleEnd opening)) ∧
      ∀ (α : Type) (procedure : Procedure α) (parser : Parser),
        (procedure.run sentence.scanType setting memo parser).1 =
          (procedure.run sentence.plainScanner setting () parser).1) ∧
    (∀ (α : Type) (production : Production α), ∃ procedure : Procedure α,
      procedure.Carries setting production.parse) ∧
    ∃ procedure : Procedure CompilationUnit,
      procedure.Carries setting Production.compilationUnit.parse ∧
      let start : Parser := ⟨0, .none, ⟨lexical⟩, .empty⟩
      let result := (procedure.run sentence.scanType setting .empty start).1
      result = (procedure.run sentence.plainScanner setting () start).1 ∧
        result.1 = tree.root ∧ result.2.exprs = tree.exprs ∧
        result.2.diagnostics.sorted = tree.diagnostics := by
  intro setting sentence tree
  have hinput : setting.input = .ofSentence sentence := rfl
  have hplain {α : Type} (procedure : Procedure α) (parser : Parser) {memo : TupleEnds}
      (hmemo : TupleEnds.Reached setting memo) :
      (procedure.run sentence.scanType setting memo parser).1 =
        (procedure.run sentence.plainScanner setting () parser).1 := by
    rw [procedure.run_plain hinput, (procedure.run_recalls hinput (hmemo.recalls hinput) _).1]
  refine ⟨fun memo hmemo => ⟨hmemo.recalls hinput, fun index => ?_, fun opening => ⟨?_, ?_⟩,
    fun α procedure parser => hplain procedure parser hmemo⟩, fun α production => ?_, ?_⟩
  · exact (sentence.scanType_finds index memo (hmemo.recalls hinput)).1
  · exact (sentence.scanTupleType_finds opening memo (hmemo.recalls hinput)).1
  · exact Sentence.scanTuple_records (fun index _ => sentence.scanType_finds index)
      (hmemo.recalls hinput)
  · obtain ⟨procedure, hscript⟩ := production.scripted
    exact ⟨procedure, Procedure.carries hinput hscript⟩
  · obtain ⟨procedure, hscript⟩ := Production.compilationUnit.scripted
    have hcarries := Procedure.carries hinput hscript
    have hresult := hcarries .empty .empty lexical .none .start
    rw [ParseState.start_parser, Production.compilationUnit_parse] at hresult
    refine ⟨procedure, hcarries, hplain procedure _ .empty, ?_⟩
    rw [hresult]
    exact ⟨rfl, rfl, rfl⟩

theorem tuple_ends_unseen_nested :
    let setting := ParserSetting.ofTokens "((((a))))" (lex "((((a))))").tokens .v7_1
    let memo := ((setting.input.sentence.scanType 0).run .empty).2
    TupleEnds.Reached setting memo ∧ memo.get? 2 = some 7 ∧
      setting.input.sentence.plainTupleEnd 2 = 7 := by
  intro setting memo
  have hreached : TupleEnds.Reached setting memo := TupleEnds.Reached.empty.scanType 0
  have hentry : memo.get? 2 = some 7 := by decide
  have hends := (tuple_ends_unseen "((((a))))" (lex "((((a))))").tokens [] .v7_1).1 memo hreached
  exact ⟨hreached, hentry, (hends.1 2 7 hentry).symm⟩

end SyntaxTree
end TolerantSyntax
