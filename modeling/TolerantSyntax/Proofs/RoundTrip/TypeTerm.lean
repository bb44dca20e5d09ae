import TolerantSyntax.Proofs.RoundTrip.Shown

/-!
# Type terms and how they are written

A type term is a type apart from any text: which names and keywords it has, and how they are
put together.  Unlike an operator expression it is never ambiguous in itself.  What it needs is
that the token behind it does not go on with it.
-/

namespace TolerantSyntax

mutual

inductive TypeTerm where
  | predefined (keyword : TokenKind)
  | named (name : String)
  | generic (name : String) (args : List ElementTerm)
  | qualified (left right : TypeTerm)
  | array (element : TypeTerm) (ranks : List Nat)
  | pointer (inner : TypeTerm)
  | nullable (inner : TypeTerm)
  | tuple (elements : List ElementTerm)

/-- An element of a tuple type or, without a name, a type argument. -/
inductive ElementTerm where
  | mk (type : TypeTerm) (name? : Option String)

end

namespace ElementTerm

def type : ElementTerm → TypeTerm
  | mk type _ => type

def name? : ElementTerm → Option String
  | mk _ name? => name?

end ElementTerm

namespace TypeTerm

def isSimple : TypeTerm → Bool
  | named _ | generic .. => true
  | _ => false

def isName : TypeTerm → Bool
  | named _ | generic .. | qualified .. => true
  | _ => false

def isUnargued : TypeTerm → Bool
  | named _ => true
  | qualified _ right => right.isUnargued
  | _ => false

def isArray : TypeTerm → Bool
  | array .. => true
  | _ => false

def isNullable : TypeTerm → Bool
  | nullable _ => true
  | _ => false

/-- Terms that have exactly one way to be put together: all ranks of an array are at one place,
and a type is made nullable once. -/
inductive WellFormed : TypeTerm → Prop where
  | predefined {keyword : TokenKind} (hkeyword : keyword.isPredefinedType = true) :
      WellFormed (.predefined keyword)
  | named (name : String) : WellFormed (.named name)
  | generic (name : String) {args : List ElementTerm} (hsome : args ≠ [])
      (hargs : ∀ arg ∈ args, WellFormed arg.type) (hnames : ∀ arg ∈ args, arg.name? = none) :
      WellFormed (.generic name args)
  | qualified {left right : TypeTerm} (hname : left.isName = true) (hsimple : right.isSimple = true)
      (hleft : WellFormed left) (hright : WellFormed right) : WellFormed (.qualified left right)
  | array {element : TypeTerm} {ranks : List Nat} (hflat : element.isArray = false)
      (hsome : ranks ≠ []) (hranks : ∀ rank ∈ ranks, 1 ≤ rank) (helement : WellFormed element) :
      WellFormed (.array element ranks)
  | pointer {inner : TypeTerm} (hinner : WellFormed inner) : WellFormed (.pointer inner)
  | nullable {inner : TypeTerm} (honce : inner.isNullable = false) (hinner : WellFormed inner) :
      WellFormed (.nullable inner)
  | tuple {elements : List ElementTerm} (hlong : 2 ≤ elements.length)
      (helements : ∀ element ∈ elements, WellFormed element.type) : WellFormed (.tuple elements)

end TypeTerm

def TypeTerm.rankSigns (rank : Nat) : List Sign :=
  .fixed .lBracket :: (List.replicate (rank - 1) (.fixed .comma) ++ [.fixed .rBracket])

mutual

def TypeTerm.signs : TypeTerm → List Sign
  | .predefined keyword => [.fixed keyword]
  | .named name => [⟨.identifier, name, false⟩]
  | .generic name args =>
      ⟨.identifier, name, false⟩ :: .fixed .lt :: ((elementSigns args).tail ++ [.fixed .gt])
  | .qualified left right => left.signs ++ .fixed .dot :: right.signs
  | .array element ranks => element.signs ++ ranks.flatMap TypeTerm.rankSigns
  | .pointer inner => inner.signs ++ [.fixed .star]
  | .nullable inner => inner.signs ++ [.fixed .question]
  | .tuple elements => .fixed .lParen :: ((elementSigns elements).tail ++ [.fixed .rParen])

def ElementTerm.signs : ElementTerm → List Sign
  | .mk type name? => type.signs ++ name?.toList.map (⟨.identifier, ·, false⟩)

def elementSigns : List ElementTerm → List Sign
  | [] => []
  | element :: rest => .fixed .comma :: (element.signs ++ elementSigns rest)

end

namespace TypeTerm

/-- What must follow a type so that nothing goes on with it. -/
structure EndsAt (type : TypeTerm) (sentence : Sentence) (index : Nat) : Prop where
  question : sentence.kindAt index = .question → type.isNullable = true
  star : sentence.kindAt index ≠ .star
  rank : sentence.rankAt index = false
  lt : type.isUnargued = true → sentence.kindAt index ≠ .lt
  dot : type.isName = true → sentence.kindAt index = .dot →
    sentence.kindAt (index + 1) ≠ .identifier

end TypeTerm

def ArrayRank.dimensions? : List ArrayRank → Option (List Nat)
  | [] => some []
  | ⟨_, dimensions, some _⟩ :: rest => do return dimensions :: (← dimensions? rest)
  | ⟨_, _, none⟩ :: _ => none

mutual

/-- The term that a type is, given how every token is spelled; none if a part is absent or by
reference. -/
def TypeSyntax.term? (word : Nat → Spelling) : TypeSyntax → Option TypeTerm
  | .predefined _ keyword => some (.predefined (word keyword).kind)
  | .named _ name => some (.named (word name).text)
  | .generic _ name _ args (some _) => do
      return .generic (word name).text (← elementTerms? word args)
  | .qualified _ left _ right => do
      return .qualified (← left.term? word) (← right.term? word)
  | .array _ element ranks => do
      return .array (← element.term? word) (← ArrayRank.dimensions? ranks)
  | .pointer _ inner _ => do return .pointer (← inner.term? word)
  | .nullable _ inner _ => do return .nullable (← inner.term? word)
  | .tuple _ _ elements (some _) => do return .tuple (← elementTerms? word elements)
  | _ => none

def ElementType.term? (word : Nat → Spelling) : ElementType → Option ElementTerm
  | .mk _ none none type name? => do
      return .mk (← type.term? word) (name?.map fun name => (word name).text)
  | _ => none

def elementTerms? (word : Nat → Spelling) : List ElementType → Option (List ElementTerm)
  | [] => some []
  | element :: rest => do return (← element.term? word) :: (← elementTerms? word rest)

end

namespace Sentence

/-- The signs stand in the sentence from an index on: their kinds, and the texts of names.  As
two `>` may close two lists of arguments, it does not matter whether they touch. -/
def Tells (sentence : Sentence) (word : Nat → Spelling) : Nat → List Sign → Prop
  | _, [] => True
  | index, sign :: rest =>
      (sentence.kindAt index = sign.kind ∧ (word index).kind = sign.kind ∧
        (sign.kind = .identifier → (word index).text = sign.text)) ∧
        sentence.Tells word (index + 1) rest

variable {sentence : Sentence} {word : Nat → Spelling} {index : Nat}

instance decidableTells (sentence : Sentence) (word : Nat → Spelling) :
    (index : Nat) → (signs : List Sign) → Decidable (sentence.Tells word index signs)
  | _, [] => isTrue trivial
  | index, _ :: rest =>
      have := decidableTells sentence word (index + 1) rest
      inferInstanceAs (Decidable (_ ∧ _))

theorem Tells.kind {sign : Sign} {rest : List Sign}
    (h : sentence.Tells word index (sign :: rest)) : sentence.kindAt index = sign.kind := h.1.1

theorem Tells.tail {sign : Sign} {rest : List Sign}
    (h : sentence.Tells word index (sign :: rest)) : sentence.Tells word (index + 1) rest := h.2

theorem tells_append {left right : List Sign} :
    sentence.Tells word index (left ++ right) ↔
      sentence.Tells word index left ∧ sentence.Tells word (index + left.length) right := by
  induction left generalizing index with
  | nil => simp [Tells]
  | cons sign rest ih =>
      have hindex : index + 1 + rest.length = index + (rest.length + 1) := by omega
      rw [List.cons_append, Tells, Tells, ih, List.length_cons, hindex]
      simp only [and_assoc]

theorem Shows.tells {signs : List Sign} (h : sentence.Shows word index signs) :
    sentence.Tells word index signs := by
  induction signs generalizing index with
  | nil => trivial
  | cons sign rest ih => exact ⟨⟨h.1.1, h.1.2.2.1, fun _ => h.1.2.2.2⟩, ih h.tail⟩

end Sentence

def TokenKind.continuesType : TokenKind → Bool
  | question | star | lBracket | lt | dot => true
  | _ => false

namespace TypeTerm

variable {sentence : Sentence} {word : Nat → Spelling} {index : Nat} {type : TypeTerm}

theorem EndsAt.of_kind (h : (sentence.kindAt index).continuesType = false) :
    type.EndsAt sentence index := by
  have hne : ∀ kind, kind.continuesType = true → sentence.kindAt index ≠ kind := by
    rintro kind hkind rfl
    rw [hkind] at h
    cases h
  refine ⟨fun hquestion => absurd hquestion (hne .question rfl), hne .star rfl, ?_,
    fun _ => hne .lt rfl, fun _ hdot => absurd hdot (hne .dot rfl)⟩
  simp [Sentence.rankAt, hne .lBracket rfl]

theorem WellFormed.head (h : type.WellFormed) (htells : sentence.Tells word index type.signs) :
    sentence.kindAt index = .identifier ∨ sentence.kindAt index = .lParen ∨
      (sentence.kindAt index).isPredefinedType = true := by
  induction h with
  | predefined hkeyword => exact .inr (.inr (by rw [htells.kind]; exact hkeyword))
  | named | generic => exact .inl htells.kind
  | tuple => exact .inr (.inl htells.kind)
  | qualified _ _ _ _ ih => exact ih (Sentence.tells_append.mp htells).1
  | array _ _ _ _ ih | pointer _ ih | nullable _ _ ih =>
      exact ih (Sentence.tells_append.mp htells).1

theorem WellFormed.name_head (h : type.WellFormed) (hname : type.isName = true)
    (htells : sentence.Tells word index type.signs) : sentence.kindAt index = .identifier := by
  induction h with
  | named | generic => exact htells.kind
  | qualified hleft _ _ _ ih => exact ih hleft (Sentence.tells_append.mp htells).1
  | _ => cases hname

theorem WellFormed.joined (h : type.WellFormed) :
    ∀ sign ∈ type.signs, sign.joined = false := by
  have helements {elements : List ElementTerm}
      (h : ∀ element ∈ elements, ∀ sign ∈ element.type.signs, sign.joined = false) :
      ∀ sign ∈ elementSigns elements, sign.joined = false := by
    induction elements with
    | nil => nofun
    | cons element rest ih =>
        obtain ⟨helement, hrest⟩ := List.forall_mem_cons.mp h
        obtain ⟨type, name?⟩ := element
        have hname : ∀ sign ∈ name?.toList.map fun name => (⟨.identifier, name, false⟩ : Sign),
            sign.joined = false := by
          simp
        rw [elementSigns, ElementTerm.signs]
        simp only [List.mem_cons, List.mem_append]
        rintro sign (rfl | (hmem | hmem) | hmem)
        · rfl
        · exact helement sign hmem
        · exact hname sign hmem
        · exact ih hrest sign hmem
  have hranks (ranks : List Nat) : ∀ sign ∈ ranks.flatMap rankSigns, sign.joined = false := by
    intro sign hmem
    obtain ⟨rank, -, hmem⟩ := List.mem_flatMap.mp hmem
    simp only [rankSigns, List.mem_cons, List.mem_append, List.mem_replicate] at hmem
    rcases hmem with rfl | ⟨-, rfl⟩ | rfl | hmem
    all_goals first | rfl | cases hmem
  induction h with
  | predefined | named => simp [signs, Sign.fixed]
  | generic name hsome hargs hnames ih =>
      simp only [signs, List.mem_cons, List.mem_append]
      rintro sign (rfl | rfl | hmem | rfl | hmem)
      · rfl
      · rfl
      · exact helements ih sign (List.mem_of_mem_tail hmem)
      · rfl
      · cases hmem
  | qualified _ _ _ _ ihleft ihright =>
      simp only [signs, List.mem_append, List.mem_cons]
      rintro sign (hmem | rfl | hmem)
      · exact ihleft sign hmem
      · rfl
      · exact ihright sign hmem
  | array _ _ _ _ ih =>
      simp only [signs, List.mem_append]
      rintro sign (hmem | hmem)
      · exact ih sign hmem
      · exact hranks _ sign hmem
  | pointer _ ih | nullable _ _ ih =>
      simp only [signs, List.mem_append, List.mem_singleton]
      rintro sign (hmem | rfl)
      · exact ih sign hmem
      · rfl
  | tuple hlong hterms ih =>
      simp only [signs, List.mem_cons, List.mem_append]
      rintro sign (rfl | hmem | rfl | hmem)
      · rfl
      · exact helements ih sign (List.mem_of_mem_tail hmem)
      · rfl
      · cases hmem

end TypeTerm
end TolerantSyntax
