import TolerantSyntax.Token.Kind

/-!
# Sets of token kinds

A set has one bit for every kind, at the kind's index. The named sets say where
members, types and expressions can start and where skipping may stop.
-/

namespace TolerantSyntax

structure TokenSet where
  bits : BitVec TokenKind.count
deriving DecidableEq, Repr

namespace TokenSet

def empty : TokenSet := ⟨0⟩

def contains (set : TokenSet) (kind : TokenKind) : Bool := set.bits.getLsbD kind.index

def single (kind : TokenKind) : TokenSet := ⟨1 <<< kind.index⟩

def union (left right : TokenSet) : TokenSet := ⟨left.bits ||| right.bits⟩

instance : Union TokenSet := ⟨union⟩

def insert (set : TokenSet) (kind : TokenKind) : TokenSet := set ∪ single kind

def ofList (kinds : List TokenKind) : TokenSet := kinds.foldl insert empty

def toList (set : TokenSet) : List TokenKind := TokenKind.all.filter set.contains

def count (set : TokenSet) : Nat := set.toList.length

theorem index_lt_count (kind : TokenKind) : kind.index < TokenKind.count := by
  cases kind <;> decide

theorem index_injective {kind other : TokenKind} (h : kind.index = other.index) :
    kind = other := by
  rw [← TokenKind.ofNat_ctorIdx kind, ← TokenKind.ofNat_ctorIdx other]
  exact congrArg TokenKind.ofNat h

@[simp] theorem contains_empty (kind : TokenKind) : empty.contains kind = false := by
  simp [contains, empty]

@[simp] theorem contains_single (kind other : TokenKind) :
    (single kind).contains other = (other == kind) := by
  have hbit : (single kind).contains other = decide (kind.index = other.index) := by
    change (BitVec.ofNat TokenKind.count (1 <<< kind.index)).getLsbD other.index = _
    simp only [BitVec.getLsbD_ofNat, index_lt_count, decide_true, Bool.true_and,
      Nat.one_shiftLeft, Nat.testBit_two_pow]
  rw [hbit, Bool.eq_iff_iff, decide_eq_true_iff, beq_iff_eq]
  exact ⟨fun h => (index_injective h).symm, fun h => h ▸ rfl⟩

@[simp] theorem contains_union (left right : TokenSet) (kind : TokenKind) :
    (left ∪ right).contains kind = (left.contains kind || right.contains kind) := by
  change (left.bits ||| right.bits).getLsbD kind.index = _
  simp [contains]

@[simp] theorem contains_ofList (kinds : List TokenKind) (kind : TokenKind) :
    (ofList kinds).contains kind = kinds.contains kind := by
  have hfoldl (set : TokenSet) : (kinds.foldl insert set).contains kind =
      (set.contains kind || kinds.contains kind) := by
    induction kinds generalizing set with
    | nil => simp
    | cons first rest ih =>
        rw [List.foldl_cons, ih, insert, contains_union, contains_single, List.contains_cons,
          Bool.or_assoc]
  rw [ofList, hfoldl, contains_empty, Bool.false_or]

def modifierKeywords : TokenSet :=
  ofList [.publicKw, .privateKw, .protectedKw, .internalKw, .staticKw, .virtualKw, .overrideKw,
    .abstractKw, .sealedKw, .readonlyKw, .unsafeKw, .externKw, .newKw, .constKw, .volatileKw]

def predefinedTypes : TokenSet :=
  ofList [.boolKw, .byteKw, .charKw, .decimalKw, .doubleKw, .floatKw, .intKw, .longKw, .objectKw,
    .sbyteKw, .shortKw, .stringKw, .uintKw, .ulongKw, .ushortKw, .voidKw]

theorem contains_predefinedTypes (kind : TokenKind) :
    predefinedTypes.contains kind = kind.isPredefinedType := by
  rw [predefinedTypes, contains_ofList]
  cases kind <;> rfl

def typeStart : TokenSet := predefinedTypes ∪ ofList [.identifier, .lParen]

theorem contains_typeStart (kind : TokenKind) : typeStart.contains kind =
    (kind.isPredefinedType || [.identifier, .lParen].contains kind) := by
  rw [typeStart, contains_union, contains_predefinedTypes, contains_ofList]

def typeDeclKeywords : TokenSet := ofList [.classKw, .structKw, .interfaceKw]

def memberStart : TokenSet :=
  modifierKeywords ∪ typeStart ∪ typeDeclKeywords
    ∪ ofList [.refKw, .delegateKw, .implicitKw, .explicitKw]

def namespaceMemberStart : TokenSet := memberStart ∪ ofList [.usingKw, .namespaceKw]

def memberHeadFollow : TokenSet :=
  modifierKeywords ∪ predefinedTypes ∪ typeDeclKeywords ∪ ofList [.refKw, .delegateKw]

def memberTypeFollow : TokenSet :=
  ofList [.identifier, .lt, .dot, .lBracket, .question, .star]

def parameterModifiers : TokenSet := ofList [.refKw, .outKw, .inKw, .paramsKw, .thisKw]

def parameterStart : TokenSet := typeStart ∪ parameterModifiers

def declaratorFollow : TokenSet := ofList [.eq, .semicolon, .comma]

def overloadableOperators : TokenSet :=
  ofList [.plus, .minus, .bang, .tilde, .plusPlus, .minusMinus, .trueKw, .falseKw, .star, .slash,
    .percent, .amp, .pipe, .caret, .ltLt, .eqEq, .bangEq, .lt, .ltEq, .gt, .gtEq]

/-- Where a broken parameter may resume. -/
def parameterRecovery : TokenSet :=
  ofList [.comma, .rParen, .rBracket, .lBrace, .arrow, .semicolon]

def directiveRecovery : TokenSet := ofList [.semicolon, .lBrace, .rBrace]

/-- What may follow `(T)` for a named or built type `T` to make it a cast. -/
def castOperandStart : TokenSet :=
  ofList [.identifier, .intLiteral, .realLiteral, .stringLiteral, .charLiteral, .trueKw, .falseKw,
    .nullKw, .lParen, .bang, .tilde, .thisKw, .baseKw, .newKw, .defaultKw, .typeofKw]

def expressionStart : TokenSet :=
  predefinedTypes ∪ castOperandStart
    ∪ ofList [.plus, .minus, .plusPlus, .minusMinus, .star, .amp, .refKw, .throwKw]

theorem expressionStart_of_typeStart {kind : TokenKind} (h : typeStart.contains kind = true) :
    expressionStart.contains kind = true := by
  rw [contains_typeStart, Bool.or_eq_true] at h
  rw [expressionStart, castOperandStart, contains_union, contains_union, contains_predefinedTypes]
  rcases h with hpredefined | hother
  · rw [hpredefined, Bool.true_or, Bool.true_or]
  · have hkind : kind = .identifier ∨ kind = .lParen := by simpa using hother
    rcases hkind with rfl | rfl <;> simp

theorem memberHeadFollow_eof : memberHeadFollow.contains .eof = false := by
  simp [memberHeadFollow, modifierKeywords, predefinedTypes, typeDeclKeywords]

theorem parameterStart_eof : parameterStart.contains .eof = false := by
  simp [parameterStart, typeStart, predefinedTypes, parameterModifiers]

theorem expressionStart_eof : expressionStart.contains .eof = false := by
  simp [expressionStart, predefinedTypes, castOperandStart]

def argumentModifiers : TokenSet := ofList [.refKw, .outKw, .inKw]

/-- What confirms `name<args>` as a generic name rather than two comparisons. -/
def genericNameFollow : TokenSet :=
  ofList [.lParen, .rParen, .rBracket, .rBrace, .colon, .semicolon, .comma, .dot, .question, .eqEq,
    .bangEq, .pipe, .caret, .ampAmp, .pipePipe, .amp, .eof]

end TokenSet
end TolerantSyntax
