import Mathlib.Algebra.Ring.Nat
import TolerantSyntax.Proofs.Messages
import TolerantSyntax.Proofs.Reports
import TolerantSyntax.Report.Terminal

/-!
# Lines of terminal reports

A report for a terminal has a line for every diagnostic as long as no message has a line feed.
The texts that messages show come from one token each, and of all tokens only a verbatim string
reaches over a line feed.  So the lines are lost exactly where a diagnostic shows such a string.
-/

namespace TolerantSyntax

namespace LexemeRule

theorem Settled.within_line {α : Type} {taken : α → Nat} {scan : List Char → α}
    (h : Settled taken scan) (cs : List Char) : '\n' ∉ cs.take (taken (scan cs)) := by
  have hline : taken (scan cs) ≤ (cs.takeWhile (· != '\n')).length := by
    have hbreaks : Breaks (cs.dropWhile (· != '\n')) := by
      cases hrest : cs.dropWhile (· != '\n') with
      | nil => exact .nil
      | cons d rest =>
          have hhead := List.head?_dropWhile_not (· != '\n') cs
          rw [hrest] at hhead
          obtain rfl : d = '\n' := by simpa using hhead
          exact .newline rest
    have hfits : taken (scan (cs.takeWhile (· != '\n') ++ [])) ≤
        (cs.takeWhile (· != '\n')).length := by
      rw [List.append_nil]
      exact h.le _
    have hsame := h.before_break hfits hbreaks
    rw [List.takeWhile_append_dropWhile] at hsame
    rwa [hsame]
  generalize taken (scan cs) = length at hline ⊢
  intro hmem
  rw [← List.takeWhile_append_dropWhile (p := (· != '\n')) (l := cs),
    List.take_append_of_le_length hline] at hmem
  simpa using List.mem_takeWhile_imp (List.mem_of_mem_take hmem)

theorem literalBody_within_line {quote : Char} (hquote : quote ≠ '\n') (cs : List Char) :
    '\n' ∉ cs.take (literalBody quote cs).1 := by
  fun_induction literalBody quote cs with
  | case1 | case3 | case4 | case5 => simp
  | case2 rest => simpa using hquote.symm
  | case6 d rest hd n closed hbody _ _ ih =>
      rw [hbody] at ih
      simpa [Ne.symm hd] using ih
  | case7 c rest _ hfeed _ n closed hbody ih =>
      rw [hbody] at ih
      simpa [Ne.symm hfeed] using ih

theorem fixedText_within_line {kind : TokenKind} {fixed : String}
    (h : kind.fixedText? = some fixed) : '\n' ∉ fixed.toList := by
  have hall : ∀ kind ∈ TokenKind.all, kind.fixedText?.all (fun fixed => '\n' ∉ fixed.toList) := by
    decide +kernel
  have hkind := hall kind kind.mem_all
  rw [h] at hkind
  simpa using hkind

/-- The rules that may take a line feed with what else they take. -/
inductive Spans : LexemeRule → List Char → Prop where
  | newline (text : List Char) : Spans .newline text
  | comment (closed : Bool) (text : List Char) : Spans (.blockComment closed) text
  | verbatim {rule : LexemeRule} (hrule : rule = .token .stringLiteral ∨ rule = .unclosedVerbatim)
      (body : List Char) : Spans rule ('@' :: '"' :: body)

theorem scan_spans {c : Char} {rest : List Char}
    (h : '\n' ∈ (c :: rest).take (scan c rest).2) :
    Spans (scan c rest).1 ((c :: rest).take (scan c rest).2) := by
  have hparts : Settled id (runLength isIdentifierPart) := runLength_settled rfl rfl
  have hspells := scan_spells c rest
  have hscans := scan_scans c rest
  generalize hscan : scan c rest = scanned at hscans hspells h ⊢
  cases hscans with
  | newline rest => exact .newline _
  | blockComment behind => exact .comment _ _
  | verbatim behind =>
      refine .verbatim ?_ _
      simp only [LexemeRule.verbatim]
      split
      · exact .inl rfl
      · exact .inr rfl
  | whitespace hblank rest => exact absurd (hspells _ h) (by decide)
  | mark rest => simp at h
  | lineComment behind => exact absurd h hspells
  | dot rest => simp at h
  | numeral hdigit rest => exact absurd h (numeral_settled.within_line _)
  | word hstart rest => exact absurd h (hparts.within_line _)
  | string rest =>
      have hbody : '\n' ∉ rest.take (literalBody '"' rest).1 :=
        literalBody_within_line (by decide) rest
      exact absurd h (by simpa [literal] using hbody)
  | character rest =>
      have hbody : '\n' ∉ rest.take (literalBody '\'' rest).1 :=
        literalBody_within_line (by decide) rest
      exact absurd h (by simpa [literal] using hbody)
  | escaped hstart =>
      have hname := hparts.within_line rest
      exact absurd h (by simpa [Nat.add_comm 1] using hname)
  | real hdigit =>
      have hfraction := fraction_settled.within_line rest
      exact absurd h (by simpa [Nat.add_comm 1] using hfraction)
  | symbol hfound =>
      have hfixed := (punctuation?_at hfound).text
      exact absurd h (by simpa using fixedText_within_line hfixed)
  | unmatched c rest =>
      -- A line feed is a newline, so the last rule never sees one.
      obtain rfl : '\n' = c := by simpa using h
      rw [scan_newline] at hscan
      cases hscan

end LexemeRule

/-- Of the lexemes that become tokens only verbatim strings have line feeds. -/
theorem Lexeme.verbatim_of_feed {source : String} {lexeme : Lexeme} (hmem : lexeme ∈ ofText source)
    (hown : lexeme.isTrivia = false) (hfeed : '\n' ∈ lexeme.text) :
    lexeme.kind = .stringLiteral ∧ ∃ body, lexeme.text = '@' :: '"' :: body ∧ '\n' ∈ body := by
  obtain ⟨before, c, rest, -, hscanned⟩ := ofText_scanned hmem
  rw [hscanned.text] at hfeed
  have hspans := LexemeRule.scan_spans hfeed
  rw [← hscanned.text] at hspans hfeed
  rw [← hscanned.rule] at hspans
  generalize hrule : lexeme.rule = rule at hspans
  generalize lexeme.text = text at hspans hfeed ⊢
  cases hspans with
  | newline => simp [isTrivia, hrule] at hown
  | comment => simp [isTrivia, hrule] at hown
  | verbatim hverbatim body =>
      refine ⟨?_, body, rfl, by simpa using hfeed⟩
      rcases hverbatim with rfl | rfl <;> simp [kind, hrule]

theorem verbatim_of_feed {source : String} {token : Token}
    (hmem : token ∈ (lex source).tokens.tokens.toList) (hkind : token.kind ≠ .eof)
    (hfeed : '\n' ∈ (token.span.slice source).toList) :
    token.kind = .stringLiteral ∧
      ∃ body, (token.span.slice source).toList = '@' :: '"' :: body ∧ '\n' ∈ body := by
  have hinner : token ∈ (lex source).tokens.inner := by
    obtain ⟨front, last, htokens, hfront, hlast, -⟩ := lex_cut source
    rw [TokenList.inner_eq htokens hfront hlast]
    rw [htokens, List.mem_append, List.mem_singleton] at hmem
    exact hmem.resolve_right fun h => hkind (h ▸ hlast)
  obtain ⟨lexeme, hlexeme, hown, hmade⟩ := exists_made_of_mem_inner hinner
  rw [hmade.span, Lexeme.slice_of_mem hlexeme, String.toList_ofList] at hfeed ⊢
  rw [hmade.kind]
  exact Lexeme.verbatim_of_feed hlexeme hown hfeed

/-! ## Messages and diagnostics -/

namespace Diagnostic

theorem template_within_line (code : DiagnosticCode) : '\n' ∉ code.template.toList := by
  cases code <;> decide +kernel

theorem message_within_line {diagnostic : Diagnostic}
    (h : ∀ arg ∈ diagnostic.args, '\n' ∉ arg.toList) : '\n' ∉ diagnostic.message.toList := by
  intro hfeed
  rcases mem_message hfeed with hfeed | ⟨arg, harg, hfeed⟩
  · exact template_within_line _ hfeed
  · exact h arg harg hfeed

theorem exists_slot {code : DiagnosticCode} (h : code.showsText = true ∨ code = .syntaxError) :
    ∃ front behind, code.template.toList = front ++ '\x7b' :: '0' :: '\x7d' :: behind ∧
      '\x7b' ∉ front ∧ '\x7b' ∉ behind := by
  have hslot (front behind : String) (htemplate : code.template = front ++ "\x7b0\x7d" ++ behind)
      (hplain : '\x7b' ∉ front.toList ++ behind.toList) :
      ∃ front behind, code.template.toList = front ++ '\x7b' :: '0' :: '\x7d' :: behind ∧
        '\x7b' ∉ front ∧ '\x7b' ∉ behind := by
    rw [List.mem_append, not_or] at hplain
    refine ⟨front.toList, behind.toList, ?_, hplain⟩
    have hslot : "\x7b0\x7d".toList = ['\x7b', '0', '\x7d'] := rfl
    rw [htemplate, String.toList_append, String.toList_append, hslot]
    simp
  cases code with
  | unexpectedCharacter =>
      exact hslot "Unexpected character '" "'" (by decide) (by decide)
  | invalidMemberDecl =>
      exact hslot "Invalid token '" "' in class, struct, or interface member declaration"
        (by decide) (by decide)
  | unexpectedToken => exact hslot "Unexpected token '" "'" (by decide) (by decide)
  | invalidExprTerm =>
      exact hslot "Invalid expression term '" "'" (by decide) (by decide)
  | syntaxError =>
      exact hslot "Syntax error, '" "' expected" (by decide) (by decide)
  | _ => simp [DiagnosticCode.showsText] at h

theorem feed_of_slot {diagnostic : Diagnostic} {text : String} {others : List String}
    (hslot : diagnostic.code.showsText = true ∨ diagnostic.code = .syntaxError)
    (hargs : diagnostic.args = text :: others) :
    '\n' ∈ diagnostic.message.toList ↔ '\n' ∈ text.toList := by
  obtain ⟨front, behind, htemplate, hfront, hbehind⟩ := exists_slot hslot
  have hline := template_within_line diagnostic.code
  rw [htemplate] at hline
  rw [message_of_slot htemplate hfront hbehind hargs]
  simp_all

end Diagnostic

/-- The diagnostic shows a verbatim string that reaches over a line feed. -/
def Diagnostic.ShowsLines (source : String) (tokens : TokenList) (diagnostic : Diagnostic) : Prop :=
  diagnostic.code.showsText = true ∧ ∃ token ∈ tokens.tokens.toList,
    token.kind = .stringLiteral ∧ diagnostic.span = token.span ∧
      diagnostic.args = [token.span.slice source] ∧
        ∃ body, (token.span.slice source).toList = '@' :: '"' :: body ∧ '\n' ∈ body

theorem TokenKind.shown_within_line (kind : TokenKind) :
    '\n' ∉ (kind.fixedText?.getD kind.displayName).toList := by
  cases hfixed : kind.fixedText? with
  | some fixed => exact LexemeRule.fixedText_within_line hfixed
  | none =>
      have hname : ∀ kind ∈ all.filter (·.fixedText?.isNone), '\n' ∉ kind.displayName.toList := by
        decide +kernel
      exact hname kind (by simp [kind.mem_all, hfixed])

theorem Lexeme.showsText_of_feed {lexeme : Lexeme} {diagnostic : Diagnostic}
    (h : lexeme.diagnostic? = some diagnostic) (hfeed : '\n' ∈ diagnostic.message.toList) :
    diagnostic.code.showsText = true := by
  unfold diagnostic? at h
  repeat' split at h
  all_goals cases h
  all_goals first | rfl | exact absurd hfeed (Diagnostic.message_within_line nofun)

theorem Finding.showsText_of_feed {source : String} {tokens : TokenList}
    {version : LanguageVersion} {finding : Finding} {diagnostic : Diagnostic}
    (h : finding.diagnostic? source tokens version = some diagnostic)
    (hfeed : '\n' ∈ diagnostic.message.toList) : diagnostic.code.showsText = true := by
  cases finding with
  | absent kind place =>
      cases h
      unfold absentDiagnostic at hfeed
      simp only at hfeed
      split at hfeed
      iterate 5 exact absurd hfeed (Diagnostic.message_within_line nofun)
      -- The text that was found is an argument here, but the message shows the other one.
      have hwanted := (Diagnostic.feed_of_slot (.inr rfl) rfl).mp hfeed
      exact absurd hwanted (TokenKind.shown_within_line _)
  | typeExpected place | strayOutside place | shortTuple opening | operatorExpected place
  | accessorExpected place =>
      cases h
      exact absurd hfeed (Diagnostic.message_within_line nofun)
  | strayInType place | invalidTerm place | skippedRef place =>
      cases h
      rfl
  | uses feature place =>
      rw [diagnostic?, Feature.check?] at h
      split at h
      · cases h
      · cases h
        have hnames : ∀ name ∈ [feature.displayName, feature.required.name],
            '\n' ∉ name.toList := by
          cases feature <;> decide +kernel
        exact absurd hfeed (Diagnostic.message_within_line hnames)

theorem SyntaxTree.feed_iff_showsLines {source : String} {version : LanguageVersion}
    {diagnostic : Diagnostic} (hmem : diagnostic ∈ (ofText source version).diagnostics) :
    '\n' ∈ diagnostic.message.toList ↔
      diagnostic.ShowsLines source (ofText source version).tokens := by
  have hformed := diagnostics_wellFormed source version diagnostic hmem
  rw [ofText_tokens] at hformed ⊢
  constructor
  · intro hfeed
    have hshows : diagnostic.code.showsText = true := by
      rcases mem_diagnostics.mp hmem with hlexical | hfound
      · rw [lex_diagnostics] at hlexical
        obtain ⟨lexeme, -, hsome⟩ := List.mem_filterMap.mp hlexical
        exact Lexeme.showsText_of_feed hsome hfeed
      · obtain ⟨finding, -, hsome⟩ := List.mem_filterMap.mp hfound
        exact Finding.showsText_of_feed hsome hfeed
    obtain ⟨token, htoken, hspan, hargs⟩ := hformed.shows hshows
    rw [Diagnostic.feed_of_slot (.inl hshows) hargs] at hfeed
    split at hargs
    · rename_i heof
      rw [if_pos heof] at hfeed
      exact absurd hfeed (by decide)
    · rename_i hkind
      rw [if_neg hkind] at hfeed
      obtain ⟨hstring, hbody⟩ := verbatim_of_feed htoken hkind hfeed
      exact ⟨hshows, token, htoken, hstring, hspan, hargs, hbody⟩
  · rintro ⟨hshows, token, -, -, -, hargs, body, htext, hfeed⟩
    rw [Diagnostic.feed_of_slot (.inl hshows) hargs, htext]
    simp [hfeed]

/-! ## Reports -/

theorem List.flatMap_ends {α : Type} (x : α) (pieces : List (List α)) :
    pieces.flatMap (· ++ [x]) = [x].intercalate (pieces ++ [[]]) := by
  induction pieces with
  | nil => rfl
  | cons piece rest ih =>
      have hne : rest ++ [[]] ≠ [] := by simp
      obtain ⟨next, more, hmore⟩ := List.exists_cons_of_ne_nil hne
      rw [List.flatMap_cons, ih, List.cons_append, hmore, List.intercalate_cons_cons]

namespace TerminalReport

variable {report : TerminalReport} {diagnostics : List Diagnostic}

def entry (report : TerminalReport) (diagnostic : Diagnostic) : String :=
  report.place diagnostic
    ++ (Style.ofSeverity diagnostic.severity).apply report.colors diagnostic.label
    ++ ": " ++ diagnostic.message

/-- The report has as many lines as there are diagnostics, and they are those of the
diagnostics in their order. -/
structure LineForEach (report : TerminalReport) (diagnostics : List Diagnostic) : Prop where
  feeds : (report.render diagnostics).toList.count '\n' = diagnostics.length
  lines : (report.render diagnostics).toList.splitOn '\n' =
    diagnostics.map (fun diagnostic => (report.entry diagnostic).toList) ++ [[]]

theorem toList_render (report : TerminalReport) (diagnostics : List Diagnostic) :
    (report.render diagnostics).toList =
      (diagnostics.map fun diagnostic => (report.entry diagnostic).toList).flatMap
        (· ++ ['\n']) := by
  induction diagnostics with
  | nil => rfl
  | cons first rest ih => 
    rw [render] at ih ⊢
    simp [line, entry, ih]

theorem place_within_line (hpath : '\n' ∉ report.path.toList) (diagnostic : Diagnostic) :
    '\n' ∉ (report.place diagnostic).toList := by
  have hnumber (n : Nat) : '\n' ∉ (toString n).toList := by
    rw [Nat.toString_eq_repr, Nat.toList_repr]
    intro hmem
    exact absurd (Nat.isDigit_of_mem_toDigits (by decide) (by decide) hmem) (by decide)
  simp only [place, String.toList_append, List.mem_append, not_or]
  exact ⟨⟨⟨⟨⟨hpath, by decide⟩, hnumber _⟩, by decide⟩, hnumber _⟩, by decide⟩

theorem label_within_line (style : Style) (colors : Bool) (diagnostic : Diagnostic) :
    '\n' ∉ (style.apply colors diagnostic.label).toList := by
  have hlabel : '\n' ∉ diagnostic.label.toList := by
    have hname : '\n' ∉ diagnostic.severity.name.toList := by
      cases diagnostic.severity <;> decide
    have hcode : '\n' ∉ diagnostic.code.number.toList := by
      cases diagnostic.code <;> decide
    simp [Diagnostic.label, hname, hcode]
  cases colors with
  | false => simpa [Style.apply] using hlabel
  | true =>
      have hstart : '\n' ∉ style.start.toList := by cases style <;> decide
      simp [Style.apply, hstart, hlabel]

theorem count_entry (hpath : '\n' ∉ report.path.toList) (diagnostic : Diagnostic) :
    (report.entry diagnostic).toList.count '\n' = diagnostic.message.toList.count '\n' := by
  have hplace := place_within_line hpath diagnostic
  have hlabel := label_within_line (.ofSeverity diagnostic.severity) report.colors diagnostic
  simp [entry, List.count_append, List.count_eq_zero.mpr hplace, List.count_eq_zero.mpr hlabel]

theorem count_render (hpath : '\n' ∉ report.path.toList) (diagnostics : List Diagnostic) :
    (report.render diagnostics).toList.count '\n' = diagnostics.length +
      (diagnostics.map fun diagnostic => diagnostic.message.toList.count '\n').sum := by
  rw [toList_render]
  induction diagnostics with
  | nil => rfl
  | cons first rest ih =>
      simp only [List.map_cons, List.flatMap_cons, List.count_append, count_entry hpath, ih,
        List.length_cons, List.sum_cons]
      simp
      omega

theorem lineForEach_iff (hpath : '\n' ∉ report.path.toList) :
    report.LineForEach diagnostics ↔
      ∀ diagnostic ∈ diagnostics, '\n' ∉ diagnostic.message.toList := by
  have hfeeds : (report.render diagnostics).toList.count '\n' = diagnostics.length ↔
      ∀ diagnostic ∈ diagnostics, '\n' ∉ diagnostic.message.toList := by
    rw [count_render hpath, Nat.add_eq_left, List.sum_eq_zero_iff_forall_eq_nat]
    simp [List.count_eq_zero]
  refine ⟨fun h => hfeeds.mp h.feeds, fun h => ⟨hfeeds.mpr h, ?_⟩⟩
  have hentries : ∀ piece ∈ diagnostics.map (fun diagnostic => (report.entry diagnostic).toList) ++
      [[]], '\n' ∉ piece := by
    intro piece hmem
    rcases List.mem_append.mp hmem with hmem | hmem
    · obtain ⟨diagnostic, hdiagnostic, rfl⟩ := List.mem_map.mp hmem
      rw [← List.count_eq_zero, count_entry hpath, List.count_eq_zero]
      exact h diagnostic hdiagnostic
    · obtain rfl := List.mem_singleton.mp hmem
      simp
  rw [toList_render, List.flatMap_ends, List.splitOn_intercalate _ hentries (by simp)]

end TerminalReport

namespace SyntaxTree

/-- The report on a text has one line for every diagnostic exactly if none of them shows a
verbatim string over a line feed.  Each of these adds the line feeds of its message. -/
theorem ofText_reportLines {path : String} (hpath : '\n' ∉ path.toList) (source : String)
    (version : LanguageVersion) (colors : Bool) :
    ((TerminalReport.ofSource path source colors).LineForEach
        (ofText source version).diagnostics ↔
      ∀ diagnostic ∈ (ofText source version).diagnostics,
        ¬diagnostic.ShowsLines source (ofText source version).tokens) ∧
    ((TerminalReport.ofSource path source colors).render
        (ofText source version).diagnostics).toList.count '\n' =
      (ofText source version).diagnostics.length +
        ((ofText source version).diagnostics.map fun diagnostic =>
          diagnostic.message.toList.count '\n').sum ∧
    ∀ diagnostic ∈ (ofText source version).diagnostics,
      '\n' ∈ diagnostic.message.toList ↔
        diagnostic.ShowsLines source (ofText source version).tokens := by
  have hfeed : ∀ diagnostic ∈ (ofText source version).diagnostics,
      ('\n' ∈ diagnostic.message.toList ↔
        diagnostic.ShowsLines source (ofText source version).tokens) :=
    fun diagnostic hmem => feed_iff_showsLines hmem
  refine ⟨?_, TerminalReport.count_render hpath _, hfeed⟩
  rw [TerminalReport.lineForEach_iff hpath]
  exact forall₂_congr fun diagnostic hmem => not_congr (hfeed diagnostic hmem)

theorem ofText_reportLines_semicolon :
    '\n' ∉ "t.cs".toList ∧
      (TerminalReport.ofSource "t.cs" "class C \x7b int x \x7d" true).LineForEach
        (ofText "class C \x7b int x \x7d" .v7_1).diagnostics := by
  have hpath : '\n' ∉ "t.cs".toList := by decide
  have hdiagnostics : (ofText "class C \x7b int x \x7d" .v7_1).diagnostics =
      [.error .semicolonExpected ⟨16, 17⟩ []] := by decide +kernel
  refine ⟨hpath, (ofText_reportLines hpath "class C \x7b int x \x7d" .v7_1 true).1.mpr ?_⟩
  rw [hdiagnostics]
  rintro diagnostic hmem ⟨hshows, -⟩
  obtain rfl := List.mem_singleton.mp hmem
  cases hshows

theorem ofText_reportLines_verbatim :
    ¬(TerminalReport.ofSource "t.cs" "class C \x7b @\"\n\" \x7d" false).LineForEach
      (ofText "class C \x7b @\"\n\" \x7d" .v7_1).diagnostics := by
  have hdiagnostics : (ofText "class C \x7b @\"\n\" \x7d" .v7_1).diagnostics =
      [.invalidMember ⟨10, 14⟩ "@\"\n\""] := by decide +kernel
  have hpath : '\n' ∉
      (TerminalReport.ofSource "t.cs" "class C \x7b @\"\n\" \x7d" false).path.toList := by
    decide
  rw [hdiagnostics, TerminalReport.lineForEach_iff hpath]
  intro h
  exact h _ (List.mem_singleton_self _) ((Diagnostic.feed_of_slot (.inl rfl) rfl).mpr (by decide))

end SyntaxTree
end TolerantSyntax
