import Mathlib.Data.Multiset.AddSub
import TolerantSyntax.Proofs.Reads.Member
import TolerantSyntax.Proofs.Recovery.Brace

/-!
# Gathering entries

From one state to a later one a parse gathers entries when the findings that it adds tell
of the faults in them and of nothing else, when the bodies in them own what stands between
their braces, and when the step closes its own braces.  A fault that takes a `}` excuses
the step and every node around it, and nothing else does.
-/

namespace TolerantSyntax

/-- The finding that comes with a fault. -/
def Fault.finding? : Fault → Option Finding
  | missingExpr place | skippedStmt place => some (.invalidTerm place)
  | skippedRef token => some (.skippedRef token)
  | shortTuple opening => some (.shortTuple opening)
  | noOperator place => some (.operatorExpected place)
  | noName _ => none

namespace Finding

def tellsFault : Finding → Bool
  | invalidTerm _ | skippedRef _ | shortTuple _ | operatorExpected _ => true
  | _ => false

def place : Finding → Nat
  | absent _ place | typeExpected place | strayInType place | strayOutside place
  | invalidTerm place | skippedRef place | shortTuple place | operatorExpected place
  | accessorExpected place | uses _ place => place

def AtRef (sentence : Sentence) : Finding → Prop
  | skippedRef place => sentence.kindAt place = .refKw
  | _ => True

theorem atRef_of_quiet {finding : Finding} (h : finding.tellsFault = false)
    (sentence : Sentence) : finding.AtRef sentence := by
  cases finding with
  | skippedRef => cases h
  | _ => trivial

structure Sound (sentence : Sentence) (finding : Finding) : Prop where
  place : finding.place ≤ sentence.size
  atRef : finding.AtRef sentence

end Finding

theorem Fault.tellsFault_of_finding? {fault : Fault} {finding : Finding}
    (h : fault.finding? = some finding) : finding.tellsFault = true := by
  cases fault <;> cases h <;> rfl

/-- The findings of a state that come with faults. -/
def ParseState.told (state : ParseState) : Multiset Finding :=
  ↑(state.findings.filter (·.tellsFault))

def Fault.tell (faults : List Fault) : Multiset Finding := ↑(faults.filterMap Fault.finding?)

def Entry.faultsOf (entries : List Entry) : List Fault := entries.flatMap Entry.faults

@[simp] theorem Entry.faultsOf_nil : Entry.faultsOf [] = [] := rfl

@[simp] theorem Entry.faultsOf_cons (entry : Entry) (rest : List Entry) :
    faultsOf (entry :: rest) = entry.faults ++ faultsOf rest := rfl

@[simp] theorem Entry.faultsOf_append (left right : List Entry) :
    faultsOf (left ++ right) = faultsOf left ++ faultsOf right := List.flatMap_append

theorem Node.faultsOf_single (node : Node) :
    Entry.faultsOf [.node node] = Entry.faultsOf node.entries := by
  rw [Entry.faultsOf_cons, Entry.faultsOf_nil, List.append_nil, Entry.faults, node.faults_eq,
    Entry.faultsOf]

@[simp] theorem Fault.tell_append (left right : List Fault) :
    tell (left ++ right) = tell left + tell right := by
  simp [tell]

/-- The ranges of a body follow each other from behind its `{` up to its `}`; where there is
no `}` they go up to the end. -/
def Body.OwnsTokens (sentence : Sentence) (body : Body) : Prop :=
  ∀ opening, body.opening? = some opening → sentence.kindAt opening = .lBrace ∧
    ∃ stop, TokenRange.Tile body.ranges (opening + 1) stop ∧ stop ≤ sentence.size ∧
      (body.closing? = some stop ∧ sentence.kindAt stop = .rBrace ∨
        body.closing? = none ∧ sentence.kindAt stop = .eof)

namespace Node

def isStmtOrMember : Node → Bool
  | member _ | stmt _ => true
  | _ => false

/-- A statement or a member closes its own braces, unless recovery has taken a `}` in it. -/
def ClosesOwn (sentence : Sentence) (node : Node) : Prop :=
  node.isStmtOrMember = true → (∀ fault ∈ node.faults, ¬fault.TakesBrace sentence) →
    sentence.ClosesOwn node.range.start node.range.stop

end Node

def Entry.Kept (sentence : Sentence) : Entry → Prop
  | node inner => inner.ClosesOwn sentence
  | body inner => inner.OwnsTokens sentence
  | fault _ => True

/-- The bodies of a node own their tokens, and what stands in it closes its own braces. -/
def Node.Keeps (sentence : Sentence) (node : Node) : Prop :=
  ∀ entry ∈ node.entries, entry.Kept sentence

/-! ## Gathering -/

structure Sentence.Accounts (sentence : Sentence) (entries : List Entry)
    (before after : ParseState) : Prop where
  forward : before.position ≤ after.position
  within : after.position ≤ max before.position sentence.size
  told : after.told = before.told + Fault.tell (Entry.faultsOf entries)
  sound : before.position ≤ sentence.size → (∀ finding ∈ before.findings, finding.Sound sentence) →
    ∀ finding ∈ after.findings, finding.Sound sentence
  inside : ∀ node, .node node ∈ entries → node.Throughout (·.Keeps sentence)

structure Sentence.Gathers (sentence : Sentence) (entries : List Entry)
    (before after : ParseState) : Prop extends sentence.Accounts entries before after where
  closes : (∀ fault ∈ Entry.faultsOf entries, ¬fault.TakesBrace sentence) →
    sentence.ClosesOwn before.position after.position
  kept : ∀ entry ∈ entries, entry.Kept sentence

namespace Sentence

variable {sentence : Sentence} {entries other : List Entry} {before middle after : ParseState}

namespace Accounts

theorem refl : sentence.Accounts [] before before :=
  ⟨Nat.le_refl _, Nat.le_max_left .., (Multiset.add_zero _).symm, fun _ h => h, nofun⟩

theorem position_le (h : sentence.Accounts entries before after)
    (hbefore : before.position ≤ sentence.size) : after.position ≤ sentence.size := by
  have := h.within
  omega

theorem trans (hleft : sentence.Accounts entries before middle)
    (hright : sentence.Accounts other middle after) :
    sentence.Accounts (entries ++ other) before after where
  forward := Nat.le_trans hleft.forward hright.forward
  within := by
    have := hleft.within
    have := hright.within
    omega
  told := by
    rw [hright.told, hleft.told, Entry.faultsOf_append, Fault.tell_append, Multiset.add_assoc]
  sound := fun hbefore hsound =>
    hright.sound (hleft.position_le hbefore) (hleft.sound hbefore hsound)
  inside := by
    intro node hmem
    rcases List.mem_append.mp hmem with h | h
    · exact hleft.inside node h
    · exact hright.inside node h

theorem skip (h : sentence.Accounts entries before after) {stop : Nat}
    (hforward : after.position ≤ stop) (hwithin : stop ≤ max after.position sentence.size) :
    sentence.Accounts entries before { after with position := stop } where
  forward := Nat.le_trans h.forward hforward
  within := by
    have := h.within
    simp only
    omega
  told := h.told
  sound := h.sound
  inside := h.inside

theorem node (node : Node) (h : sentence.Accounts node.entries before after)
    (hkept : node.Keeps sentence) : sentence.Accounts [.node node] before after where
  forward := h.forward
  within := h.within
  told := by
    rw [h.told, node.faultsOf_single]
  sound := h.sound
  inside := by
    intro inner hmem
    cases List.mem_singleton.mp hmem
    exact .intro hkept h.inside

end Accounts

namespace Gathers

theorem refl : sentence.Gathers [] before before where
  toAccounts := .refl
  closes := fun _ => .refl _
  kept := nofun

theorem trans (hleft : sentence.Gathers entries before middle)
    (hright : sentence.Gathers other middle after) :
    sentence.Gathers (entries ++ other) before after where
  toAccounts := hleft.toAccounts.trans hright.toAccounts
  closes := by
    intro hclean
    rw [Entry.faultsOf_append] at hclean
    obtain ⟨hcleanLeft, hcleanRight⟩ := List.forall_mem_append.mp hclean
    exact (hleft.closes hcleanLeft).trans (hright.closes hcleanRight) hleft.forward hright.forward
  kept := List.forall_mem_append.mpr ⟨hleft.kept, hright.kept⟩

theorem behind (h : sentence.Gathers entries before middle)
    (hquiet : sentence.Gathers [] middle after) : sentence.Gathers entries before after := by
  simpa using h.trans hquiet

theorem skip (h : sentence.Gathers entries before after) {stop : Nat}
    (hforward : after.position ≤ stop) (hwithin : stop ≤ max after.position sentence.size)
    (hcloses : (∀ fault ∈ Entry.faultsOf entries, ¬fault.TakesBrace sentence) →
      sentence.ClosesOwn after.position stop) :
    sentence.Gathers entries before { after with position := stop } where
  toAccounts := h.toAccounts.skip hforward hwithin
  closes := fun hclean => (h.closes hclean).trans (hcloses hclean) h.forward hforward
  kept := h.kept

theorem token (heof : sentence.kindAt before.position ≠ .eof)
    (hbrace : sentence.kindAt before.position ≠ .rBrace) :
    sentence.Gathers [] before { before with position := before.position + 1 } := by
  have hsize := lt_size_of_kindAt heof
  exact refl.skip (Nat.le_succ _) (by omega) fun _ => .single hbrace

theorem noted {finding : Finding} (h : sentence.Gathers entries before after)
    (hquiet : finding.tellsFault = false) (hplace : finding.place ≤ after.position) :
    sentence.Gathers entries before { after with findings := finding :: after.findings } where
  forward := h.forward
  within := h.within
  told := by
    rw [← h.told, ParseState.told, ParseState.told, List.filter_cons_of_neg (by simp [hquiet])]
  sound := fun hbefore hsound => List.forall_mem_cons.mpr
    ⟨⟨Nat.le_trans hplace (h.position_le hbefore), Finding.atRef_of_quiet hquiet sentence⟩,
      h.sound hbefore hsound⟩
  inside := h.inside
  closes := h.closes
  kept := h.kept

private theorem withFault {fault : Fault} {findings : List Finding}
    (h : sentence.Gathers entries before after)
    (htold : ParseState.told { after with findings } = after.told + Fault.tell [fault])
    (hsound : after.position ≤ sentence.size →
      (∀ finding ∈ after.findings, finding.Sound sentence) →
        ∀ finding ∈ findings, finding.Sound sentence) :
    sentence.Gathers (entries ++ [.fault fault]) before { after with findings } where
  forward := h.forward
  within := h.within
  told := by
    rw [htold, h.told, Entry.faultsOf_append, Fault.tell_append, Multiset.add_assoc]
    rfl
  sound := fun hbefore hall => hsound (h.position_le hbefore) (h.sound hbefore hall)
  inside := by
    intro node hmem
    exact h.inside node (by simpa using hmem)
  closes := by
    intro hclean
    rw [Entry.faultsOf_append] at hclean
    exact h.closes (List.forall_mem_append.mp hclean).1
  kept := List.forall_mem_append.mpr ⟨h.kept, by simp [Entry.Kept]⟩

theorem faulty {finding : Finding} (h : sentence.Gathers entries before after) (fault : Fault)
    (hfinding : fault.finding? = some finding) (hat : finding.AtRef sentence)
    (hplace : finding.place ≤ after.position) :
    sentence.Gathers (entries ++ [.fault fault]) before
      { after with findings := finding :: after.findings } := by
  refine h.withFault ?_ fun hwithin hsound =>
    List.forall_mem_cons.mpr ⟨⟨Nat.le_trans hplace hwithin, hat⟩, hsound⟩
  have htell : Fault.tell [fault] = {finding} := by simp [Fault.tell, hfinding]
  rw [htell, ParseState.told, List.filter_cons_of_pos (Fault.tellsFault_of_finding? hfinding),
    ← Multiset.cons_coe, ← Multiset.singleton_add, Multiset.add_comm]
  rfl

theorem silent {fault : Fault} (h : sentence.Gathers entries before after)
    (hfinding : fault.finding? = none) :
    sentence.Gathers (entries ++ [.fault fault]) before after := by
  refine h.withFault ?_ fun _ hsound => hsound
  have htell : Fault.tell [fault] = 0 := by simp [Fault.tell, hfinding]
  rw [htell, Multiset.add_zero]

/-- Where the name of a parameter is required symbols are skipped. -/
theorem nameless (h : sentence.Gathers entries before after) :
    sentence.Gathers (entries ++ [.fault (.noName after.position)]) before
      { after with
        position := sentence.seek TokenSet.parameterRecovery.contains after.position } := by
  have hbounds := sentence.seekWithin_bounds TokenSet.parameterRecovery.contains
    (sentence.left after.position) after.position
  refine (h.silent rfl).skip hbounds.1 ?_ fun hclean => ?_
  · simp only [left, seek] at hbounds ⊢
    omega
  · rw [Entry.faultsOf_append] at hclean
    have hname := (List.forall_mem_append.mp hclean).2 _ (List.mem_singleton_self _)
    exact Fault.noName_closesOwn hname

theorem complete (h : sentence.Gathers entries before after) (exprs : ExprTable) :
    sentence.Gathers entries before { after with exprs } := ⟨⟨h.forward, h.within, h.told,
  h.sound, h.inside⟩, h.closes, h.kept⟩

/-! ## Braces, bodies and nodes -/

theorem braces (hopening : sentence.kindAt before.position = .lBrace)
    (h : sentence.Gathers entries { before with position := before.position + 1 } after)
    (hclosing : sentence.kindAt after.position = .rBrace) :
    sentence.Gathers entries before { after with position := after.position + 1 } := by
  have hforward : before.position + 1 ≤ after.position := h.forward
  have hwithin : after.position ≤ max (before.position + 1) sentence.size := h.within
  have hsize : after.position < sentence.size :=
    lt_size_of_kindAt (ne_of_eq_of_ne hclosing (by decide))
  refine ⟨⟨?_, ?_, h.told, fun _ => h.sound ?_, h.inside⟩, ?_, h.kept⟩
  · simp only
    omega
  · simp only
    omega
  · simp only
    omega
  · exact fun hclean => .braces hopening (h.closes hclean) hforward hclosing

theorem withBody {body : Body} (h : sentence.Gathers entries before after)
    (hbody : body.OwnsTokens sentence) : sentence.Gathers (.body body :: entries) before after where
  forward := h.forward
  within := h.within
  told := h.told
  sound := h.sound
  inside := by
    intro node hmem
    exact h.inside node (by simpa using hmem)
  closes := h.closes
  kept := List.forall_mem_cons.mpr ⟨hbody, h.kept⟩

theorem node (node : Node) (h : sentence.Gathers node.entries before after)
    (hrange : node.isStmtOrMember = true → node.range = ⟨before.position, after.position⟩) :
    sentence.Gathers [.node node] before after where
  toAccounts := h.toAccounts.node node h.kept
  closes := by
    rw [node.faultsOf_single]
    exact h.closes
  kept := by
    intro entry hmem
    cases List.mem_singleton.mp hmem
    intro hstep hclean
    rw [hrange hstep]
    rw [node.faults_eq] at hclean
    exact h.closes hclean

theorem type {type : TypeSyntax} (h : sentence.Gathers type.entries before after) :
    sentence.Gathers [.node (.type type)] before after := .node (.type type) h nofun

theorem expr {expr : Expr} (h : sentence.Gathers expr.entries before after) :
    sentence.Gathers [.node (.expr expr)] before after := .node (.expr expr) h nofun

theorem stmt {stmt : Stmt} (h : sentence.Gathers stmt.entries before after)
    (hrange : stmt.range = ⟨before.position, after.position⟩) :
    sentence.Gathers [.node (.stmt stmt)] before after := .node (.stmt stmt) h fun _ => hrange

theorem member {member : Member} (h : sentence.Gathers member.entries before after)
    (hrange : member.range = ⟨before.position, after.position⟩) :
    sentence.Gathers [.node (.member member)] before after :=
  .node (.member member) h fun _ => hrange

end Gathers
end Sentence
end TolerantSyntax
