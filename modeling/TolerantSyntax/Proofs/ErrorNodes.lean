import Mathlib.Data.List.Perm.Basic
import TolerantSyntax.Proofs.Diagnostics
import TolerantSyntax.Proofs.Keeps.Basic
import TolerantSyntax.Proofs.Postorder
import TolerantSyntax.Proofs.Recovery.Tree

/-!
# Error nodes and their diagnostics

Some codes are reported for what a tree shows of recovery, and only for that: a term that is
missing or skipped, a `ref` that is skipped, a tuple that is too short, an operator that is
missing.  The diagnostics with such a code are the faults of the tree, each once: neither
does recovery drop a node that was reported, nor does an attempt that is given up report one.
-/

namespace TolerantSyntax

def DiagnosticCode.tellsFault : DiagnosticCode → Bool
  | .invalidExprTerm | .unexpectedToken | .tupleTooFewElements | .ovlOperatorExpected => true
  | _ => false

def Diagnostic.brief (diagnostic : Diagnostic) : DiagnosticCode × Span :=
  (diagnostic.code, diagnostic.span)

namespace Finding

/-- Where a finding that tells a fault is reported, and with which code. -/
def brief? (tokens : TokenList) : Finding → Option (DiagnosticCode × Span)
  | invalidTerm place => some (.invalidExprTerm, spanAt tokens place)
  | skippedRef place => some (.unexpectedToken, spanAt tokens place)
  | shortTuple opening => some (.tupleTooFewElements, spanAt tokens opening)
  | operatorExpected place => some (.ovlOperatorExpected, spanAt tokens place)
  | _ => none

theorem absentDiagnostic_quiet (source : String) (tokens : TokenList) (kind : TokenKind)
    (index : Nat) : (absentDiagnostic source tokens kind index).code.tellsFault = false := by
  unfold absentDiagnostic
  simp only
  split <;> rfl

theorem diagnostic?_brief (source : String) (tokens : TokenList) (version : LanguageVersion)
    (finding : Finding) :
    ((finding.diagnostic? source tokens version).filter (·.code.tellsFault)).map (·.brief) =
      finding.brief? tokens := by
  cases finding with
  | absent kind place =>
      have hquiet := absentDiagnostic_quiet source tokens kind place
      rw [diagnostic?, Option.filter_some, if_neg (by simp [hquiet])]
      rfl
  | uses feature place =>
      rw [diagnostic?, Feature.check?]
      split <;> rfl
  | _ => rfl

theorem brief?_of_quiet {finding : Finding} (h : finding.tellsFault = false)
    (tokens : TokenList) : finding.brief? tokens = none := by
  cases finding <;> first | rfl | cases h

end Finding

def Fault.brief? (tokens : TokenList) (fault : Fault) : Option (DiagnosticCode × Span) :=
  fault.finding?.bind (·.brief? tokens)

theorem Lexeme.diagnostic?_quiet {lexeme : Lexeme} {diagnostic : Diagnostic}
    (h : lexeme.diagnostic? = some diagnostic) : diagnostic.code.tellsFault = false := by
  unfold diagnostic? at h
  repeat' split at h
  all_goals cases h
  all_goals rfl

/-! ## Missing expressions -/

theorem Node.postorder_type (type : TypeSyntax) : (Node.type type).postorder = [] := by
  rw [← exprs_layout]
  exact type.exprs_layout

def Expr.missing? : Expr → Option Nat
  | missing info => some info.range.start
  | _ => none

def Fault.missingExpr? : Fault → Option Nat
  | missingExpr place => some place
  | _ => none

section NotMissing

variable (place : Nat)

theorem ElementType.missingExpr_not_mem (element : ElementType) :
    .fault (.missingExpr place) ∉ element.entries := by
  obtain ⟨range, readonly?, skippedRef?, type, name?⟩ := element
  simp [entries]

theorem TypeSyntax.missingExpr_not_mem (type : TypeSyntax) :
    .fault (.missingExpr place) ∉ type.entries := by
  cases type with
  | tuple range opening elements closing? =>
      rw [entries]
      split <;> simp [ElementType.missingExpr_not_mem]
  | _ => simp [entries, ElementType.missingExpr_not_mem]

theorem Block.missingExpr_not_mem (block : Block) :
    .fault (.missingExpr place) ∉ block.entries := by
  cases block
  simp [entries]

theorem Stmt.missingExpr_not_mem (stmt : Stmt) : .fault (.missingExpr place) ∉ stmt.entries := by
  cases stmt <;> simp [entries, Block.missingExpr_not_mem]

theorem ParameterList.missingExpr_not_mem (list : ParameterList) :
    .fault (.missingExpr place) ∉ list.entries := by
  have hparameter : ∀ parameter : Parameter,
      .fault (.missingExpr place) ∉ parameter.entries := by
    intro parameter
    rw [Parameter.entries]
    split <;> simp
  simp [entries, hparameter]

theorem MemberBody.missingExpr_not_mem (body : MemberBody) :
    .fault (.missingExpr place) ∉ body.entries := by
  cases body <;> simp [entries, Block.missingExpr_not_mem]

theorem PropertyBody.missingExpr_not_mem (body : PropertyBody) :
    .fault (.missingExpr place) ∉ body.entries := by
  cases body <;> simp [entries, MemberBody.missingExpr_not_mem]

theorem Member.missingExpr_not_mem (member : Member) :
    .fault (.missingExpr place) ∉ member.entries := by
  cases member with
  | operator info type keyword op? params body =>
      rw [entries]
      split <;> simp [ParameterList.missingExpr_not_mem, MemberBody.missingExpr_not_mem]
  | _ =>
      simp [entries, ParameterList.missingExpr_not_mem, MemberBody.missingExpr_not_mem,
        PropertyBody.missingExpr_not_mem]

end NotMissing

def Fault.term? : Fault → Option Nat
  | missingExpr place | skippedStmt place => some place
  | _ => none

namespace Node

theorem missing_of_mem_entries {node : Node} {place : Nat}
    (h : .fault (.missingExpr place) ∈ node.entries) : ∃ info, node = .expr (.missing info) := by
  cases node with
  | member inner => exact absurd h (inner.missingExpr_not_mem place)
  | type inner => exact absurd h (inner.missingExpr_not_mem place)
  | stmt inner => exact absurd h (inner.missingExpr_not_mem place)
  | expr inner =>
      cases inner with
      | missing info => exact ⟨info, rfl⟩
      | memberAccess info receiver dot name? args? =>
          cases args? <;>
            simp [entries, Expr.entries, TypeArguments.entries,
              ElementType.missingExpr_not_mem] at h
      | _ =>
          simp [entries, Expr.entries, TypeArguments.entries,
            ElementType.missingExpr_not_mem] at h

theorem faults_missing (node : Node) :
    node.faults.filterMap Fault.missingExpr? = node.postorder.filterMap Expr.missing? := by
  by_cases hmissing : ∃ info, node = .expr (.missing info)
  · obtain ⟨info, rfl⟩ := hmissing
    rw [faults_eq, postorder_eq]
    rfl
  · -- Every other node finds what its children find: its name is a type and its own faults tell
    -- of something else.
    let found (inner : Node) : List Nat := inner.postorder.filterMap Expr.missing?
    have hentries : ∀ entry ∈ node.entries, entry.faults.filterMap Fault.missingExpr? =
        entry.node?.toList.flatMap found := by
      intro entry hmem
      cases entry with
      | node inner =>
          have hinner := faults_missing inner
          simpa [Entry.faults, Entry.node?, found] using hinner
      | body inner => rfl
      | fault fault =>
          cases fault with
          | missingExpr place => exact absurd (missing_of_mem_entries hmem) hmissing
          | _ => rfl
    have hname : (node.name?.toList.map Node.type).flatMap found = [] := by
      cases node.name? with
      | none => rfl
      | some name => simp [found, postorder_type]
    have hself : node.expr?.toList.filterMap Expr.missing? = [] := by
      cases node with
      | expr inner =>
          cases inner with
          | missing info => exact absurd ⟨info, rfl⟩ hmissing
          | _ => rfl
      | _ => rfl
    have hnodes : node.entries.flatMap (fun entry => entry.node?.toList.flatMap found) =
        (node.entries.filterMap Entry.node?).flatMap found := by
      rw [List.filterMap_eq_flatMap_toList, List.flatMap_assoc]
    rw [faults_eq, List.filterMap_flatMap, List.flatMap_congr hentries, hnodes, nodes_of_entries,
      List.flatMap_append, hname, List.nil_append, postorder_eq, List.filterMap_append, hself,
      List.append_nil, List.filterMap_flatMap]
termination_by sizeOf node
decreasing_by exact sizeOf_entry_lt hmem

end Node

/-! ## Faults of a tree -/

namespace CompilationUnit

def skippedStmts (unit : CompilationUnit) : List Nat :=
  unit.faults.filterMap fun
    | .skippedStmt place => some place
    | _ => none

/-- The `ref`s that were skipped in front of tuple elements and type arguments. -/
def skippedRefs (unit : CompilationUnit) : List Nat :=
  unit.faults.filterMap fun
    | .skippedRef token => some token
    | _ => none

/-- The `(` of the tuple types with less than two elements. -/
def shortTuples (unit : CompilationUnit) : List Nat :=
  unit.faults.filterMap fun
    | .shortTuple opening => some opening
    | _ => none

/-- The tokens behind `operator` where no operator stands. -/
def missingOperators (unit : CompilationUnit) : List Nat :=
  unit.faults.filterMap fun
    | .noOperator place => some place
    | _ => none

theorem faults_missing (unit : CompilationUnit) :
    unit.faults.filterMap Fault.missingExpr? = unit.postorder.filterMap Expr.missing? := by
  rw [faults, postorder, List.filterMap_flatMap, List.filterMap_flatMap]
  exact List.flatMap_congr fun member _ => Node.faults_missing _

end CompilationUnit

namespace SyntaxTree

def spansOf (tree : SyntaxTree) (code : DiagnosticCode) : List Span :=
  (tree.diagnostics.filter (·.code == code)).map (·.span)

theorem findingsIn_briefs (source : String) (tokens : TokenList) (version : LanguageVersion)
    (state : ParseState) :
    ((findingsIn source tokens version state).filter (·.code.tellsFault)).map (·.brief) =
      state.findings.reverse.filterMap (·.brief? tokens) := by
  rw [findingsIn, List.filter_filterMap, List.map_filterMap]
  exact List.filterMap_congr fun finding _ => finding.diagnostic?_brief source tokens version

theorem lexical_briefs (source : String) :
    (lex source).diagnostics.filter (·.code.tellsFault) = [] := by
  rw [lex_diagnostics, List.filter_eq_nil_iff]
  intro diagnostic hmem
  obtain ⟨lexeme, -, hsome⟩ := List.mem_filterMap.mp hmem
  rw [Lexeme.diagnostic?_quiet hsome]
  exact Bool.false_ne_true

theorem findings_briefs (tokens : TokenList) (sentence : Sentence) :
    ((ofSentence sentence).2.findings.reverse.filterMap (·.brief? tokens)).Perm
      ((ofSentence sentence).1.faults.filterMap (·.brief? tokens)) := by
  have htold := (ofSentence_told sentence).filterMap (·.brief? tokens)
  rw [List.filterMap_filterMap, List.filterMap_filter] at htold
  have hquiet : ∀ finding ∈ (ofSentence sentence).2.findings,
      (if finding.tellsFault = true then finding.brief? tokens else none) =
        finding.brief? tokens := by
    intro finding _
    split
    · rfl
    · rename_i hquiet
      exact (Finding.brief?_of_quiet (by simpa using hquiet) tokens).symm
  rw [List.filterMap_congr hquiet] at htold
  exact ((List.reverse_perm _).filterMap _).trans htold

theorem ofText_briefs (source : String) (version : LanguageVersion) :
    (((ofText source version).diagnostics.filter (·.code.tellsFault)).map (·.brief)).Perm
      ((ofText source version).root.faults.filterMap
        (·.brief? (ofText source version).tokens)) := by
  rw [ofText_diagnostics, ofText_root, ofText_tokens]
  refine (((List.mergeSort_perm _ _).filter _).map _).trans ?_
  rw [List.filter_append, lexical_briefs, List.nil_append, findingsIn_briefs]
  exact findings_briefs _ _

theorem spansOf_perm (source : String) (version : LanguageVersion) (code : DiagnosticCode)
    (select : Fault → Option Nat) (hcode : code.tellsFault = true)
    (hselect : ∀ tokens fault, ((fault.brief? tokens).filter (·.1 == code)).map (·.2) =
      (select fault).map (Finding.spanAt tokens)) :
    ((ofText source version).spansOf code).Perm
      (((ofText source version).root.faults.filterMap select).map
        (Finding.spanAt (ofText source version).tokens)) := by
  have hbriefs := ((ofText_briefs source version).filter (·.1 == code)).map (·.2)
  have htells : ∀ diagnostic ∈ (ofText source version).diagnostics,
      (diagnostic.brief.1 == code && diagnostic.code.tellsFault) = (diagnostic.code == code) := by
    intro diagnostic _
    cases hsame : diagnostic.code == code with
    | false => exact congrArg (· && _) hsame
    | true =>
        rw [eq_of_beq hsame, hcode, Bool.and_true]
        exact hsame
  rw [List.filter_map, List.filter_filter, List.map_map, List.filter_filterMap,
    List.map_filterMap] at hbriefs
  simp only [hselect] at hbriefs
  rw [List.map_filterMap, spansOf, ← List.filter_congr htells]
  exact hbriefs

theorem terms_perm (source : String) (version : LanguageVersion) :
    ((ofText source version).root.faults.filterMap Fault.term?).Perm
      ((ofText source version).exprs.toList.filterMap Expr.missing? ++
        (ofText source version).root.skippedStmts) := by
  have hexprs : (ofText source version).exprs.toList = (ofText source version).root.postorder := by
    rw [ofText_exprs, ofText_root, ofSentence_exprs, CompilationUnit.exprsOf_parts]
  rw [hexprs, ← CompilationUnit.faults_missing, CompilationUnit.skippedStmts]
  generalize (ofText source version).root.faults = faults
  -- A skipped statement goes behind the missing expressions, whatever the order of the faults.
  induction faults with
  | nil => exact .nil
  | cons fault rest ih =>
      cases fault with
      | missingExpr place => exact ih.cons place
      | skippedStmt place => exact (ih.cons place).trans List.perm_middle.symm
      | _ => exact ih

/-- As multisets of spans: the diagnostics about invalid terms are the missing expressions of
the table and the skipped statements, those about unexpected tokens the `ref`s that are
skipped, those about short tuples the `(` of the tuple types with less than two elements, and
those about operators the tokens where one is missing. -/
theorem ofText_errorNodes (source : String) (version : LanguageVersion) :
    ((ofText source version).spansOf .invalidExprTerm).Perm
        (((ofText source version).exprs.toList.filterMap Expr.missing? ++
          (ofText source version).root.skippedStmts).map
            (Finding.spanAt (ofText source version).tokens)) ∧
      ((ofText source version).spansOf .unexpectedToken).Perm
        ((ofText source version).root.skippedRefs.map
          (Finding.spanAt (ofText source version).tokens)) ∧
      ((ofText source version).spansOf .tupleTooFewElements).Perm
        ((ofText source version).root.shortTuples.map
          (Finding.spanAt (ofText source version).tokens)) ∧
      ((ofText source version).spansOf .ovlOperatorExpected).Perm
        ((ofText source version).root.missingOperators.map
          (Finding.spanAt (ofText source version).tokens)) := by
  refine ⟨?_, ?_, ?_, ?_⟩
  · have hterms := spansOf_perm source version .invalidExprTerm Fault.term? rfl
      fun tokens fault => by cases fault <;> rfl
    exact hterms.trans ((terms_perm source version).map _)
  · exact spansOf_perm source version _ _ rfl fun tokens fault => by cases fault <;> rfl
  · exact spansOf_perm source version _ _ rfl fun tokens fault => by cases fault <;> rfl
  · exact spansOf_perm source version _ _ rfl fun tokens fault => by cases fault <;> rfl

end SyntaxTree
end TolerantSyntax
