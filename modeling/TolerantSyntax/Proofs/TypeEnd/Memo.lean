import TolerantSyntax.Proofs.TypeEnd.Table

/-!
# Ends of tuple types that are remembered

The ends of tuple types can also be found on demand: a scan over a type records the end of
every tuple type that it comes through, and looks there before it scans a `(` again.  The
record is read back inside the scans that fill it.  Each entry is what a scan without a record
finds, so a scan gives the same whatever is recorded already.
-/

namespace TolerantSyntax

structure TupleEnds where
  ends : Array Nat
deriving DecidableEq, Repr

namespace TupleEnds

def empty : TupleEnds := ⟨#[]⟩

def get? (memo : TupleEnds) (opening : Nat) : Option Nat :=
  memo.ends[opening]?.filter (· != 0)

def insert (memo : TupleEnds) (opening stop : Nat) : TupleEnds :=
  ⟨(memo.ends ++ Array.replicate (opening + 1 - memo.ends.size) 0).setIfInBounds opening stop⟩

theorem get?_insert (memo : TupleEnds) {opening stop : Nat} (hstop : stop ≠ 0) (index : Nat) :
    (memo.insert opening stop).get? index =
      if index = opening then some stop else memo.get? index := by
  have hentry : (memo.insert opening stop).ends[index]? =
      if index = opening then some stop
      else if index < memo.ends.size then memo.ends[index]?
      else if index ≤ opening then some 0 else none := by
    unfold insert
    grind
  unfold get?
  rw [hentry]
  grind

end TupleEnds

abbrev Scan := StateM TupleEnds

namespace Sentence

section

variable (sentence : Sentence) (nested : Nat → Scan (Option Nat))

def scanElement (named : Bool) (index : Nat) : Scan Nat := do
  let start := sentence.elementStart index
  let stop? ← nested start
  return sentence.nameEnd named (stop?.getD start)

def scanElementsWithin (named : Bool) : Nat → Nat → Scan Nat
  | 0, index => sentence.scanElement nested named index
  | n + 1, index => do
      let stop ← sentence.scanElement nested named index
      if sentence.kindAt stop = .comma then scanElementsWithin named n (stop + 1) else return stop

def scanList (named : Bool) (closing : TokenKind) (index : Nat) : Scan Nat := do
  let stop ← sentence.scanElementsWithin nested named (sentence.left index) index
  return sentence.behind closing stop

def scanSimpleName (index : Nat) : Scan Nat :=
  if sentence.kindAt (index + 1) = .lt then sentence.scanList nested false .gt (index + 2)
  else return index + 1

def scanSegmentsWithin : Nat → Nat → Scan Nat
  | 0, index => return index
  | n + 1, index =>
      if sentence.kindAt index = .dot ∧ sentence.kindAt (index + 1) = .identifier then do
        let stop ← sentence.scanSimpleName nested (index + 1)
        scanSegmentsWithin n stop
      else return index

def scanQualifiedName (index : Nat) : Scan Nat := do
  let stop ← sentence.scanSimpleName nested index
  sentence.scanSegmentsWithin nested (sentence.left stop) stop

/-- Behind the tuple type that opens at the index: scanned at most once. -/
def scanTuple (index : Nat) : Scan Nat := do
  match (← get).get? index with
  | some stop => return stop
  | none => do
      let stop ← sentence.scanList nested true .rParen (index + 1)
      modify (·.insert index stop)
      return stop

def scanTypeStep (index : Nat) : Scan (Option Nat) :=
  match sentence.kindAt index with
  | .identifier => do
      let stop ← sentence.scanQualifiedName nested index
      return some (sentence.suffixesEnd stop)
  | .lParen => do
      let stop ← sentence.scanTuple nested index
      return some (sentence.suffixesEnd stop)
  | kind =>
      return if kind.isPredefinedType then some (sentence.suffixesEnd (index + 1)) else none

end

def scanTypeWithin (sentence : Sentence) : Nat → Nat → Scan (Option Nat)
  | 0, _ => return none
  | n + 1, index => sentence.scanTypeStep (sentence.scanTypeWithin n) index

def scanType (sentence : Sentence) (index : Nat) : Scan (Option Nat) :=
  sentence.scanTypeWithin (sentence.left index) index

def scanTupleType (sentence : Sentence) (opening : Nat) : Scan Nat :=
  sentence.scanTuple sentence.scanType opening

/-! ## What scans find -/

def plainTupleEnd (sentence : Sentence) (opening : Nat) : Nat :=
  sentence.tupleEnd sentence.plainTypeEnd? opening

/-- Every entry of the record is what a scan without a record finds. -/
def Recalls (sentence : Sentence) (memo : TupleEnds) : Prop :=
  ∀ opening stop, memo.get? opening = some stop → stop = sentence.plainTupleEnd opening

/-- From whatever such record on the scan gives the value, and leaves such a record. -/
def Finds {α : Type} (sentence : Sentence) (scan : Scan α) (value : α) : Prop :=
  ∀ memo, sentence.Recalls memo →
    (scan.run memo).1 = value ∧ sentence.Recalls (scan.run memo).2

section Finds

variable {α β : Type} {sentence : Sentence}

theorem Finds.pure (value : α) : sentence.Finds (Pure.pure value) value :=
  fun _ hmemo => ⟨rfl, hmemo⟩

theorem Finds.bind {scan : Scan α} {next : α → Scan β} {value : α} {result : β}
    (h : sentence.Finds scan value) (hnext : sentence.Finds (next value) result) :
    sentence.Finds (scan >>= next) result := by
  intro memo hmemo
  obtain ⟨hvalue, hafter⟩ := h memo hmemo
  have hrest := hnext _ hafter
  rw [← hvalue] at hrest
  exact hrest

theorem Finds.ite {condition : Prop} [Decidable condition] {yes no : Scan α} {left right : α}
    (hyes : condition → sentence.Finds yes left) (hno : ¬condition → sentence.Finds no right) :
    sentence.Finds (if condition then yes else no) (if condition then left else right) := by
  split
  · exact hyes ‹_›
  · exact hno ‹_›

end Finds

section Plain

variable (sentence : Sentence)

theorem plainTypeEnd?_agree : AgreeFrom 0 sentence.plainTypeEnd? sentence.plainTypeEnd? := by
  have htable : sentence.plainTypeEnd? = sentence.typeEnd? (Input.ofSentence sentence).tupleEnd :=
    funext sentence.plainTypeEnd?_eq
  rw [htable]
  exact typeEnd?_agree (tupleEnds_filled sentence).same

theorem lt_plainTupleEnd (opening : Nat) : opening < sentence.plainTupleEnd opening :=
  (sentence.tupleEnd_agree (sentence.plainTypeEnd?_agree.mono (Nat.zero_le _))).2

theorem plainTypeEnd?_step (index : Nat) :
    sentence.plainTypeEnd? index =
      sentence.typeEndStep sentence.plainTypeEnd? sentence.plainTupleEnd index := by
  have hfilled := tupleEnds_filled sentence
  have htable : sentence.plainTypeEnd? = sentence.typeEnd? (Input.ofSentence sentence).tupleEnd :=
    funext sentence.plainTypeEnd?_eq
  have hagree := sentence.plainTypeEnd?_agree.mono (Nat.zero_le (index + 1))
  rw [plainTypeEnd?_eq, typeEnd?_eq hfilled.same, ← htable]
  refine (sentence.typeEndStep_agree hagree fun hkind => ?_).1
  obtain ⟨hentry, hforward⟩ := hfilled index (Nat.zero_le _) hkind
  rw [← htable] at hentry
  exact ⟨hentry, hforward⟩

end Plain

section Scans

variable {sentence : Sentence} {nested : Nat → Scan (Option Nat)} {bound index : Nat}

/-- From a bound on nested types are scanned as without the record. -/
def FindsFrom (sentence : Sentence) (bound : Nat) (nested : Nat → Scan (Option Nat)) : Prop :=
  ∀ index, bound ≤ index → sentence.Finds (nested index) (sentence.plainTypeEnd? index)

theorem plain_from (sentence : Sentence) (bound : Nat) :
    AgreeFrom bound sentence.plainTypeEnd? sentence.plainTypeEnd? :=
  sentence.plainTypeEnd?_agree.mono (Nat.zero_le bound)

theorem scanElement_finds (h : sentence.FindsFrom bound nested) (named : Bool)
    (hindex : bound ≤ index) :
    sentence.Finds (sentence.scanElement nested named index)
      (sentence.elementEnd sentence.plainTypeEnd? named index) :=
  (h _ (Nat.le_trans hindex (sentence.le_elementStart index))).bind (.pure _)

theorem scanElementsWithin_finds (h : sentence.FindsFrom bound nested) (named : Bool) (n : Nat)
    (hindex : bound ≤ index) :
    sentence.Finds (sentence.scanElementsWithin nested named n index)
      (sentence.elementsEndWithin sentence.plainTypeEnd? named n index) := by
  induction n generalizing index with
  | zero => exact scanElement_finds h named hindex
  | succ n ih =>
      have hforward := (sentence.elementEnd_agree (sentence.plain_from bound) named hindex).2
      refine (scanElement_finds h named hindex).bind (.ite (fun _ => ih ?_) fun _ => .pure _)
      omega

theorem scanList_finds (h : sentence.FindsFrom bound nested) (named : Bool) (closing : TokenKind)
    (hindex : bound ≤ index) :
    sentence.Finds (sentence.scanList nested named closing index)
      (sentence.listEnd sentence.plainTypeEnd? named closing index) :=
  (scanElementsWithin_finds h named _ hindex).bind (.pure _)

theorem scanSimpleName_finds (h : sentence.FindsFrom bound nested) (hindex : bound ≤ index + 1) :
    sentence.Finds (sentence.scanSimpleName nested index)
      (sentence.simpleNameEnd sentence.plainTypeEnd? index) :=
  .ite (fun _ => scanList_finds h false .gt (by omega)) fun _ => .pure _

theorem scanSegmentsWithin_finds (h : sentence.FindsFrom bound nested) (n : Nat)
    (hindex : bound ≤ index) :
    sentence.Finds (sentence.scanSegmentsWithin nested n index)
      (sentence.segmentsEndWithin sentence.plainTypeEnd? n index) := by
  induction n generalizing index with
  | zero => exact .pure _
  | succ n ih =>
      have hname : bound ≤ index + 1 + 1 := by omega
      have hforward := (sentence.simpleNameEnd_agree (sentence.plain_from bound) hname).2
      refine .ite (fun _ => ?_) fun _ => .pure _
      exact (scanSimpleName_finds h hname).bind (ih (by omega))

theorem scanQualifiedName_finds (h : sentence.FindsFrom (index + 1) nested) :
    sentence.Finds (sentence.scanQualifiedName nested index)
      (sentence.qualifiedNameEnd sentence.plainTypeEnd? index) := by
  have hforward := (sentence.simpleNameEnd_agree (sentence.plain_from (index + 1))
    (Nat.le_refl _)).2
  exact (scanSimpleName_finds h (Nat.le_refl _)).bind (scanSegmentsWithin_finds h _ hforward)

theorem Recalls.insert {memo : TupleEnds} (h : sentence.Recalls memo) (opening : Nat) :
    sentence.Recalls (memo.insert opening (sentence.plainTupleEnd opening)) := by
  intro other stop hother
  have hpos := sentence.lt_plainTupleEnd opening
  rw [TupleEnds.get?_insert memo (by omega)] at hother
  split at hother
  · subst other
    exact (Option.some.inj hother).symm
  · exact h other stop hother

theorem scanTuple_of_some {memo : TupleEnds} {stop : Nat} (h : memo.get? index = some stop) :
    (sentence.scanTuple nested index).run memo = (stop, memo) := by
  simp [scanTuple, h]
  rfl

theorem scanTuple_of_none {memo : TupleEnds} (h : memo.get? index = none) :
    (sentence.scanTuple nested index).run memo =
      let scanned := (sentence.scanList nested true .rParen (index + 1)).run memo
      (scanned.1, scanned.2.insert index scanned.1) := by
  simp [scanTuple, h]
  rfl

theorem scanTuple_finds (h : sentence.FindsFrom (index + 1) nested) :
    sentence.Finds (sentence.scanTuple nested index) (sentence.plainTupleEnd index) := by
  intro memo hmemo
  cases hentry : memo.get? index with
  | some stop =>
      rw [scanTuple_of_some hentry]
      exact ⟨hmemo index stop hentry, hmemo⟩
  | none =>
      obtain ⟨hstop, hafter⟩ := scanList_finds h true .rParen (Nat.le_refl _) memo hmemo
      simp only [scanTuple_of_none hentry, hstop]
      exact ⟨rfl, hafter.insert index⟩

theorem scanTuple_records (h : sentence.FindsFrom (index + 1) nested) {memo : TupleEnds}
    (hmemo : sentence.Recalls memo) :
    ((sentence.scanTuple nested index).run memo).2.get? index =
      some (sentence.plainTupleEnd index) := by
  cases hentry : memo.get? index with
  | some stop =>
      rw [scanTuple_of_some hentry, hentry, hmemo index stop hentry]
  | none =>
      obtain ⟨hstop, -⟩ := scanList_finds h true .rParen (Nat.le_refl _) memo hmemo
      have hpos := sentence.lt_plainTupleEnd index
      have hend : sentence.listEnd sentence.plainTypeEnd? true .rParen (index + 1) ≠ 0 := by
        unfold plainTupleEnd tupleEnd at hpos
        omega
      simp only [scanTuple_of_none hentry, hstop, TupleEnds.get?_insert _ hend, if_true]
      rfl

theorem scanTypeStep_finds (h : sentence.FindsFrom (index + 1) nested) :
    sentence.Finds (sentence.scanTypeStep nested index) (sentence.plainTypeEnd? index) := by
  rw [plainTypeEnd?_step]
  unfold scanTypeStep
  split
  · rename_i hkind
    rw [typeEndStep, hkind]
    exact (scanQualifiedName_finds h).bind (.pure _)
  · rename_i hkind
    rw [typeEndStep, hkind]
    exact (scanTuple_finds h).bind (.pure _)
  · rename_i hname hopening
    rw [typeEndStep_of_ne hname hopening]
    exact .pure _

theorem scanTypeWithin_finds {n : Nat} (hn : sentence.left index ≤ n) :
    sentence.Finds (sentence.scanTypeWithin n index) (sentence.plainTypeEnd? index) := by
  induction n generalizing index with
  | zero =>
      rw [plainTypeEnd?_step, typeEndStep_of_left (Nat.le_zero.mp hn)]
      exact .pure _
  | succ n ih =>
      refine scanTypeStep_finds fun behind hbehind => ih ?_
      unfold left at hn ⊢
      omega

theorem scanType_finds (sentence : Sentence) (index : Nat) :
    sentence.Finds (sentence.scanType index) (sentence.plainTypeEnd? index) :=
  scanTypeWithin_finds (Nat.le_refl _)

theorem scanTupleType_finds (sentence : Sentence) (opening : Nat) :
    sentence.Finds (sentence.scanTupleType opening) (sentence.plainTupleEnd opening) :=
  scanTuple_finds fun index _ => sentence.scanType_finds index

end Scans

end Sentence
end TolerantSyntax
