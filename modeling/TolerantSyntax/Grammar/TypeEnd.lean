import TolerantSyntax.Grammar.Sentence

/-!
# Where types end

Reading ahead over a type without building it: `typeEnd?` follows exactly the symbols
that the type grammar takes. A run of nested parentheses is asked about again and again,
so the ends of tuple types are tabulated once for a sentence, from the right, where
every entry only needs those behind it. The scan takes the table as a function, which
lets it also run without one.
-/

namespace TolerantSyntax
namespace Sentence

def commasEndWithin (sentence : Sentence) : Nat → Nat → Nat
  | 0, index => index
  | n + 1, index =>
      if sentence.kindAt index = .comma then sentence.commasEndWithin n (index + 1) else index

def rankEnd (sentence : Sentence) (index : Nat) : Nat :=
  let stop := sentence.commasEndWithin (sentence.left index) (index + 1)
  if sentence.kindAt stop = .rBracket then stop + 1 else stop

def ranksEndWithin (sentence : Sentence) : Nat → Nat → Nat
  | 0, index => index
  | n + 1, index =>
      if sentence.rankAt index then sentence.ranksEndWithin n (sentence.rankEnd index) else index

/-- Behind the suffixes `?`, `*` and `[]`; a nullable type takes no second `?`. -/
def suffixesEndWithin (sentence : Sentence) : Nat → Bool → Nat → Nat
  | 0, _, index => index
  | n + 1, nullable, index =>
      match sentence.kindAt index with
      | .question => if nullable then index else sentence.suffixesEndWithin n true (index + 1)
      | .star => sentence.suffixesEndWithin n false (index + 1)
      | .lBracket =>
          if sentence.rankAt index then
            sentence.suffixesEndWithin n false (sentence.ranksEndWithin n index)
          else index
      | _ => index

def suffixesEnd (sentence : Sentence) (index : Nat) : Nat :=
  sentence.suffixesEndWithin (sentence.left index) false index

/-- Behind one type argument or, when it may have a name, one tuple element. -/
def elementEnd (sentence : Sentence) (nested : Nat → Option Nat) (named : Bool)
    (index : Nat) : Nat :=
  let atRef :=
    if sentence.kindAt index = .readonlyKw ∧ sentence.kindAt (index + 1) = .refKw then index + 1
    else index
  let atType := if sentence.kindAt atRef = .refKw then atRef + 1 else atRef
  let atName := (nested atType).getD atType
  if named ∧ sentence.kindAt atName = .identifier then atName + 1 else atName

def elementsEndWithin (sentence : Sentence) (nested : Nat → Option Nat) (named : Bool) :
    Nat → Nat → Nat
  | 0, index => sentence.elementEnd nested named index
  | n + 1, index =>
      let stop := sentence.elementEnd nested named index
      if sentence.kindAt stop = .comma then sentence.elementsEndWithin nested named n (stop + 1)
      else stop

/-- Behind elements and, if it is there, the symbol that closes them. -/
def listEnd (sentence : Sentence) (nested : Nat → Option Nat) (named : Bool)
    (closing : TokenKind) (index : Nat) : Nat :=
  let stop := sentence.elementsEndWithin nested named (sentence.left index) index
  if sentence.kindAt stop = closing then stop + 1 else stop

def simpleNameEnd (sentence : Sentence) (nested : Nat → Option Nat) (index : Nat) : Nat :=
  if sentence.kindAt (index + 1) = .lt then sentence.listEnd nested false .gt (index + 2)
  else index + 1

def segmentsEndWithin (sentence : Sentence) (nested : Nat → Option Nat) : Nat → Nat → Nat
  | 0, index => index
  | n + 1, index =>
      if sentence.kindAt index = .dot ∧ sentence.kindAt (index + 1) = .identifier then
        sentence.segmentsEndWithin nested n (sentence.simpleNameEnd nested (index + 1))
      else index

def qualifiedNameEnd (sentence : Sentence) (nested : Nat → Option Nat) (index : Nat) : Nat :=
  let stop := sentence.simpleNameEnd nested index
  sentence.segmentsEndWithin nested (sentence.left stop) stop

/-- Behind the tuple type that opens at an index. -/
def tupleEnd (sentence : Sentence) (nested : Nat → Option Nat) (index : Nat) : Nat :=
  sentence.listEnd nested true .rParen (index + 1)

/-- Behind the type at an index, given where nested types and tuple types end; `none`
when no type starts there. -/
def typeEndStep (sentence : Sentence) (nested : Nat → Option Nat) (tuples : Nat → Nat)
    (index : Nat) : Option Nat :=
  match sentence.kindAt index with
  | .identifier => some (sentence.suffixesEnd (sentence.qualifiedNameEnd nested index))
  | .lParen => some (sentence.suffixesEnd (tuples index))
  | kind => if kind.isPredefinedType then some (sentence.suffixesEnd (index + 1)) else none

/-- Types nest no deeper than there are symbols. -/
def typeEndWithin? (sentence : Sentence) (tuples : Nat → Nat) : Nat → Nat → Option Nat
  | 0, _ => none
  | n + 1, index =>
      sentence.typeEndStep (sentence.typeEndWithin? tuples n) tuples index

def typeEnd? (sentence : Sentence) (tuples : Nat → Nat) (index : Nat) : Option Nat :=
  sentence.typeEndWithin? tuples (sentence.left index) index

/-- Fills in the ends of the tuple types that open before `index`, from the right. -/
def fillTupleEnds (sentence : Sentence) : Nat → Array Nat → Array Nat
  | 0, ends => ends
  | index + 1, ends =>
      if sentence.kindAt index = .lParen then
        let stop := sentence.tupleEnd (sentence.typeEnd? fun opening => ends.getD opening 0) index
        sentence.fillTupleEnds index (ends.setIfInBounds index stop)
      else sentence.fillTupleEnds index ends

/-- For every `(`, where a tuple type that opens there ends; elsewhere 0. -/
def tupleEnds (sentence : Sentence) : Array Nat :=
  sentence.fillTupleEnds sentence.size (Array.replicate sentence.size 0)

/-- As `typeEndWithin?`, reading every tuple type anew. -/
def plainTypeEndWithin? (sentence : Sentence) : Nat → Nat → Option Nat
  | 0, _ => none
  | n + 1, index =>
      let nested := sentence.plainTypeEndWithin? n
      sentence.typeEndStep nested (sentence.tupleEnd nested) index

def plainTypeEnd? (sentence : Sentence) (index : Nat) : Option Nat :=
  sentence.plainTypeEndWithin? (sentence.left index) index

end Sentence
end TolerantSyntax
