import Mathlib.Order.Bounds.Basic
import TolerantSyntax.Proofs.Recovery.Brace
import TolerantSyntax.Proofs.Parse.Gives
import TolerantSyntax.Proofs.Sentence
import TolerantSyntax.Proofs.Speculation.Script

/-!
# Where skipping stops

What is skipped on the way to the next member or accessor ends at the first index that the
grammar names.  The depth that is counted on the way says which braces are open there, so a `}`
at depth zero is one that no `{` among the skipped symbols matches.
-/

namespace TolerantSyntax

namespace Sentence

variable {sentence : Sentence} {start index stop depth : Nat}

/-- The braces from `start` up to `stop` match each other. -/
def Balanced (sentence : Sentence) (start stop : Nat) : Prop :=
  sentence.ClosesOwn start stop ∧
    (sentence.kinds start stop).count .lBrace = (sentence.kinds start stop).count .rBrace

/-- The `{` at one index and the `}` at the other are a pair. -/
structure Matches (sentence : Sentence) (opening closing : Nat) : Prop where
  lt : opening < closing
  opens : sentence.kindAt opening = .lBrace
  closes : sentence.kindAt closing = .rBrace
  inner : sentence.Balanced (opening + 1) closing

/-- The `}` at the index is in no pair with a `{` from `start` on. -/
def Unmatched (sentence : Sentence) (start index : Nat) : Prop :=
  sentence.kindAt index = .rBrace ∧ ∀ opening, start ≤ opening → ¬sentence.Matches opening index

/-- Of the braces from `start` up to the index `depth` are open. -/
structure DepthAt (sentence : Sentence) (start index depth : Nat) : Prop where
  le : start ≤ index
  closesOwn : sentence.ClosesOwn start index
  count : (sentence.kinds start index).count .lBrace =
    (sentence.kinds start index).count .rBrace + depth

theorem length_kinds (start stop : Nat) : (sentence.kinds start stop).length = stop - start := by
  simp [kinds]

theorem kinds_succ (h : start ≤ index) :
    sentence.kinds start (index + 1) = sentence.kinds start index ++ [sentence.kindAt index] := by
  rw [← kinds_append h (Nat.le_succ index), kinds_cons (Nat.lt_succ_self index), kinds_self]

/-- The depth is never below zero. -/
theorem closesOwn_iff (h : start ≤ stop) : sentence.ClosesOwn start stop ↔
    ∀ index, start ≤ index → index ≤ stop →
      (sentence.kinds start index).count .rBrace ≤ (sentence.kinds start index).count .lBrace := by
  constructor
  · intro hown index hstart hstop
    have hprefix : sentence.kinds start index <+: sentence.kinds start stop :=
      ⟨_, kinds_append hstart hstop⟩
    simpa using hown _ hprefix
  · intro hall front hfront
    have hlength := hfront.length_le
    rw [length_kinds] at hlength
    have hprefix : sentence.kinds start (start + front.length) <+: sentence.kinds start stop :=
      ⟨_, kinds_append (by omega) (by omega)⟩
    have hlengths : front.length = (sentence.kinds start (start + front.length)).length := by
      simp [length_kinds]
    have hsame := (List.prefix_of_prefix_length_le hfront hprefix
      (Nat.le_of_eq hlengths)).eq_of_length hlengths
    have hcount := hall (start + front.length) (by omega) (by omega)
    rw [← hsame] at hcount
    omega

theorem exists_matches (hclosing : sentence.kindAt stop = .rBrace) (hle : start ≤ stop)
    (hcount : (sentence.kinds start stop).count .rBrace <
      (sentence.kinds start stop).count .lBrace) :
    ∃ opening, start ≤ opening ∧ sentence.Matches opening stop := by
  induction hlength : stop - start using Nat.strong_induction_on generalizing start with
  | _ length ih =>
      have hlt : start < stop := by
        refine Nat.lt_of_le_of_ne hle fun heq => ?_
        simp [heq, kinds_self] at hcount
      have hlater {later : Nat} (hstart : start < later) (hstop : later ≤ stop)
          (hmore : (sentence.kinds later stop).count .rBrace <
            (sentence.kinds later stop).count .lBrace) :
          ∃ opening, start ≤ opening ∧ sentence.Matches opening stop := by
        obtain ⟨opening, hopening, hmatches⟩ := ih _ (by omega) hstop hmore rfl
        exact ⟨opening, by omega, hmatches⟩
      rw [kinds_cons hlt] at hcount
      by_cases hrest : (sentence.kinds (start + 1) stop).count .rBrace <
          (sentence.kinds (start + 1) stop).count .lBrace
      · exact hlater (Nat.lt_succ_self start) hlt hrest
      -- The first symbol makes the difference, so it is a brace and all behind it is even.
      have hopens : sentence.kindAt start = .lBrace := by
        by_contra hopens
        rw [List.count_cons_of_ne hopens] at hcount
        have hle := List.count_le_count_cons (a := TokenKind.rBrace) (b := sentence.kindAt start)
          (l := sentence.kinds (start + 1) stop)
        omega
      rw [hopens, List.count_cons_self, List.count_cons_of_ne (by decide)] at hcount
      by_cases hown : sentence.ClosesOwn (start + 1) stop
      · exact ⟨start, Nat.le_refl _, hlt, hopens, hclosing, hown, by omega⟩
      · rw [closesOwn_iff hlt] at hown
        push Not at hown
        obtain ⟨index, hstart, hstop, hless⟩ := hown
        have hmore : (sentence.kinds index stop).count .rBrace <
            (sentence.kinds index stop).count .lBrace := by
          rw [← kinds_append hstart hstop, List.count_append, List.count_append] at hrest hcount
          omega
        exact hlater hstart hstop hmore

namespace DepthAt

theorem refl (sentence : Sentence) (start : Nat) : sentence.DepthAt start start 0 :=
  ⟨Nat.le_refl _, .refl _, by simp [kinds_self]⟩

theorem opened (h : sentence.DepthAt start index depth) (hkind : sentence.kindAt index = .lBrace) :
    sentence.DepthAt start (index + 1) (depth + 1) where
  le := by have := h.le; omega
  closesOwn := h.closesOwn.trans (.single (by simp [hkind])) h.le (Nat.le_succ _)
  count := by
    have := h.count
    simp [kinds_succ h.le, hkind]
    omega

theorem closed (h : sentence.DepthAt start index (depth + 1))
    (hkind : sentence.kindAt index = .rBrace) : sentence.DepthAt start (index + 1) depth where
  le := by have := h.le; omega
  closesOwn := by
    have hle := h.le
    have hcount := h.count
    refine (closesOwn_iff (by omega)).mpr fun place hstart hstop => ?_
    rcases Nat.lt_or_eq_of_le hstop with hlt | rfl
    · exact (closesOwn_iff hle).mp h.closesOwn place hstart (by omega)
    · simp [kinds_succ hle, hkind]
      omega
  count := by
    have := h.count
    simp [kinds_succ h.le, hkind]
    omega

theorem other (h : sentence.DepthAt start index depth) (hopen : sentence.kindAt index ≠ .lBrace)
    (hclose : sentence.kindAt index ≠ .rBrace) : sentence.DepthAt start (index + 1) depth where
  le := by have := h.le; omega
  closesOwn := h.closesOwn.trans (.single hclose) h.le (Nat.le_succ _)
  count := by simpa [kinds_succ h.le, hopen, hclose] using h.count

theorem balanced_iff (h : sentence.DepthAt start index depth) :
    sentence.Balanced start index ↔ depth = 0 := by
  have hcount := h.count
  exact ⟨fun hbalanced => by have := hbalanced.2; omega, fun hzero => ⟨h.closesOwn, by omega⟩⟩

/-- At depth zero, and only there, a `}` has no `{`. -/
theorem unmatched_iff (h : sentence.DepthAt start index depth)
    (hkind : sentence.kindAt index = .rBrace) : sentence.Unmatched start index ↔ depth = 0 := by
  have hcount := h.count
  constructor
  · intro hunmatched
    by_contra hdepth
    obtain ⟨opening, hopening, hmatches⟩ := exists_matches hkind h.le (by omega)
    exact hunmatched.2 opening hopening hmatches
  · rintro rfl
    refine ⟨hkind, fun opening hopening hmatches => ?_⟩
    have hlt := hmatches.lt
    have hbefore := (closesOwn_iff h.le).mp h.closesOwn opening hopening (by omega)
    have hinner := hmatches.inner.2
    rw [← kinds_append hopening (Nat.le_of_lt hlt), kinds_cons hlt, hmatches.opens] at hcount
    simp at hcount
    omega

end DepthAt

/-! ## Where skipping ends -/

/-- The search from the index on ends at the first place of the set, or at the limit. -/
structure FirstAt (places : Nat → Prop) (index stop limit : Nat) : Prop where
  le : index ≤ stop
  within : stop ≤ limit
  ends : stop = limit ∨ places stop
  skipped : ∀ place, index ≤ place → place < stop → ¬places place

def OrEnd (sentence : Sentence) (places : Nat → Prop) (place : Nat) : Prop :=
  sentence.kindAt place = .eof ∨ places place

namespace FirstAt

variable {places : Nat → Prop} {limit : Nat}

theorem none (places : Nat → Prop) (index : Nat) : FirstAt places index index index :=
  ⟨Nat.le_refl _, Nat.le_refl _, .inl rfl, fun place hle hlt => absurd hlt (by omega)⟩

theorem here (h : places index) (hle : index ≤ limit) : FirstAt places index index limit :=
  ⟨Nat.le_refl _, hle, .inr h, fun place hle hlt => absurd hlt (by omega)⟩

theorem next (hnot : ¬places index) (h : FirstAt places (index + 1) stop limit) :
    FirstAt places index stop limit where
  le := by have := h.le; omega
  within := h.within
  ends := h.ends
  skipped place hle hlt := by
    rcases Nat.eq_or_lt_of_le hle with rfl | hle
    · exact hnot
    · exact h.skipped place hle hlt

theorem isLeast
    (h : FirstAt (sentence.OrEnd places) index stop (index + sentence.left index)) :
    IsLeast {place | index ≤ place ∧ (sentence.kindAt place = .eof ∨ places place)} stop := by
  have hwithin := h.within
  constructor
  · refine ⟨h.le, h.ends.elim (fun hend => .inl (kindAt_eq_eof ?_)) id⟩
    unfold left at hend
    omega
  · rintro place ⟨hle, hplace⟩
    by_contra hlt
    exact h.skipped place hle (by omega) hplace

end FirstAt

/-- Where skipping to the next member ends: at a start of one, or at a `}` that nothing
skipped opens. -/
def EndsSkipped (sentence : Sentence) (starts : TokenKind → Bool) (start index : Nat) : Prop :=
  starts (sentence.kindAt index) = true ∨ sentence.Unmatched start index

theorem memberBoundaryWithin_first (starts : TokenKind → Bool) (n : Nat)
    (h : sentence.DepthAt start index depth) :
    FirstAt (sentence.OrEnd (sentence.EndsSkipped starts start)) index
      (sentence.memberBoundaryWithin starts n depth index) (index + n) := by
  induction n generalizing depth index with
  | zero => exact .none _ _
  | succ n ih =>
      have hnext {inner : Nat} (hstep : sentence.DepthAt start (index + 1) inner)
          (hnot : ¬sentence.OrEnd (sentence.EndsSkipped starts start) index) :
          FirstAt (sentence.OrEnd (sentence.EndsSkipped starts start)) index
            (sentence.memberBoundaryWithin starts n inner (index + 1)) (index + (n + 1)) := by
        have hrest := ih hstep
        rw [Nat.add_right_comm] at hrest
        exact .next hnot hrest
      simp only [memberBoundaryWithin]
      split
      · rename_i hstops
        refine .here ?_ (Nat.le_add_right _ _)
        simp only [Bool.or_eq_true, beq_iff_eq] at hstops
        exact hstops.imp_right .inl
      · rename_i hgoes
        simp only [Bool.or_eq_true, beq_iff_eq, not_or] at hgoes
        obtain ⟨heof, hstarts⟩ := hgoes
        have hnot (hmatched : ¬sentence.Unmatched start index) :
            ¬sentence.OrEnd (sentence.EndsSkipped starts start) index :=
          not_or.mpr ⟨heof, not_or.mpr ⟨hstarts, hmatched⟩⟩
        split
        · rename_i hkind
          refine hnext (h.opened hkind) (hnot fun hunmatched => ?_)
          exact absurd (hkind.symm.trans hunmatched.1) (by decide)
        · rename_i hkind
          exact .here (.inr (.inr ((h.unmatched_iff hkind).mpr rfl))) (Nat.le_add_right _ _)
        · rename_i hkind
          refine hnext (h.closed hkind) (hnot fun hunmatched => ?_)
          exact absurd ((h.unmatched_iff hkind).mp hunmatched) (Nat.succ_ne_zero _)
        · rename_i hopen hzero hsucc
          have hclose := ne_rBrace_of_depth hzero hsucc
          exact hnext (h.other (hopen ·) hclose) (hnot fun hunmatched => hclose hunmatched.1)

/-- The index right behind a `;` outside of braces. -/
def BehindSemicolon (sentence : Sentence) (start index : Nat) : Prop :=
  ∃ semicolon, start ≤ semicolon ∧ index = semicolon + 1 ∧
    sentence.kindAt semicolon = .semicolon ∧ sentence.Balanced start semicolon

theorem not_behindSemicolon (sentence : Sentence) (start : Nat) :
    ¬sentence.BehindSemicolon start start := by
  rintro ⟨semicolon, hle, heq, -⟩
  omega

/-- Where skipping to the next accessor ends. -/
def EndsAccessor (sentence : Sentence) (start index : Nat) : Prop :=
  sentence.Balanced start index ∧
      (sentence.kindAt index = .rBrace ∨ sentence.accessorKeywordAt index = true) ∨
    sentence.BehindSemicolon start index

theorem accessorKeywordAt_of_ne (h : sentence.kindAt index ≠ .identifier) :
    sentence.accessorKeywordAt index = false := by
  simp [accessorKeywordAt, h]

theorem not_endsAccessor (hbehind : ¬sentence.BehindSemicolon start index)
    (hends : sentence.Balanced start index →
      sentence.kindAt index ≠ .rBrace ∧ sentence.accessorKeywordAt index = false) :
    ¬sentence.EndsAccessor start index := by
  rintro (⟨hbalanced, hclose | hword⟩ | hsemicolon)
  · exact (hends hbalanced).1 hclose
  · simp [(hends hbalanced).2] at hword
  · exact hbehind hsemicolon

theorem accessorBoundaryWithin_first (n : Nat) (h : sentence.DepthAt start index depth)
    (hbehind : ¬sentence.BehindSemicolon start index) :
    FirstAt (sentence.OrEnd (sentence.EndsAccessor start)) index
      (sentence.accessorBoundaryWithin n depth index) (index + n) := by
  induction n generalizing depth index with
  | zero => exact .none _ _
  | succ n ih =>
      have hnext {inner : Nat} (hstep : sentence.DepthAt start (index + 1) inner)
          (hnot : ¬sentence.OrEnd (sentence.EndsAccessor start) index)
          (hsemicolon : sentence.kindAt index = .semicolon → ¬sentence.Balanced start index) :
          FirstAt (sentence.OrEnd (sentence.EndsAccessor start)) index
            (sentence.accessorBoundaryWithin n inner (index + 1)) (index + (n + 1)) := by
        have hfresh : ¬sentence.BehindSemicolon start (index + 1) := by
          rintro ⟨semicolon, -, heq, hkind, hbalanced⟩
          obtain rfl := Nat.succ.inj heq
          exact hsemicolon hkind hbalanced
        have hrest := ih hstep hfresh
        rw [Nat.add_right_comm] at hrest
        exact .next hnot hrest
      have hinside (hdepth : depth ≠ 0) : ¬sentence.Balanced start index := by
        rwa [h.balanced_iff]
      have hnot (heof : sentence.kindAt index ≠ .eof)
          (hends : sentence.Balanced start index →
            sentence.kindAt index ≠ .rBrace ∧ sentence.accessorKeywordAt index = false) :
          ¬sentence.OrEnd (sentence.EndsAccessor start) index :=
        not_or.mpr ⟨heof, not_endsAccessor hbehind hends⟩
      simp only [accessorBoundaryWithin]
      split
      · rename_i hkind
        exact .here (.inl hkind) (Nat.le_add_right _ _)
      · rename_i hkind
        refine hnext (h.opened hkind) (hnot (by simp [hkind]) fun _ => ⟨by simp [hkind], ?_⟩)
          (by simp [hkind])
        exact accessorKeywordAt_of_ne (by simp [hkind])
      · rename_i hkind
        exact .here (.inr (.inl ⟨h.balanced_iff.mpr rfl, .inl hkind⟩)) (Nat.le_add_right _ _)
      · rename_i hkind
        exact hnext (h.closed hkind) (hnot (by simp [hkind]) fun hbalanced =>
          absurd hbalanced (hinside (Nat.succ_ne_zero _))) (by simp [hkind])
      · rename_i hkind
        have hpast : sentence.BehindSemicolon start (index + 1) :=
          ⟨index, h.le, rfl, hkind, h.balanced_iff.mpr rfl⟩
        have hword : sentence.accessorKeywordAt index = false :=
          accessorKeywordAt_of_ne (by simp [hkind])
        refine .next (hnot (by simp [hkind]) fun _ => ⟨by simp [hkind], hword⟩) ?_
        exact .here (.inr (.inr hpast)) (by omega)
      · rename_i heof hopen hclose hsemicolon
        split
        · rename_i hword
          exact .here (.inr (.inl ⟨h.balanced_iff.mpr rfl, .inr hword⟩)) (Nat.le_add_right _ _)
        · rename_i hword
          exact hnext (h.other hopen hclose) (hnot heof fun _ => ⟨hclose, by simpa using hword⟩)
            fun hkind => absurd hkind hsemicolon
      · rename_i hdepth heof hopen hzero hsucc _
        have hunbalanced := hinside hdepth
        exact hnext (h.other hopen (ne_rBrace_of_depth hzero hsucc))
          (hnot heof fun hbalanced => absurd hbalanced hunbalanced) fun _ => hunbalanced

end Sentence

/-! ## Productions -/

namespace Parse

variable {input : Input} {state : ParseState}

def stray (context : ParseContext) : Nat → Finding :=
  if context.inTypeBody then .strayInType else .strayOutside

theorem stray_diagnostic? (context : ParseContext) (source : String) (tokens : TokenList)
    (version : LanguageVersion) (place : Nat) :
    ∃ diagnostic, (stray context place).diagnostic? source tokens version = some diagnostic ∧
      diagnostic.code = (if context.inTypeBody then .invalidMemberDecl else .eofExpected) ∧
      diagnostic.span = Finding.spanAt tokens place := by
  unfold stray
  cases context.inTypeBody with
  | true => exact ⟨_, rfl, rfl, rfl⟩
  | false => exact ⟨_, rfl, rfl, rfl⟩

/-- Skips a symbol that starts no member, and on to one of the given starts. -/
def skippedUpTo (starts : TokenKind → Bool) (context : ParseContext) : Parse Member := do
  let start ← position
  noteHere (stray context)
  let _ ← advance
  moveTo fun sentence => sentence.memberBoundary starts
  return .skipped ⟨.empty, ← rangeFrom start⟩

theorem skippedUpTo_ends (starts : TokenKind → Bool) (context : ParseContext)
    (hkind : input.sentence.kindAt state.position ≠ .eof) :
    Ends (skippedUpTo starts context) input state fun member after =>
      after = ⟨input.sentence.memberBoundary starts (state.position + 1),
        stray context state.position :: state.findings, state.exprs⟩ ∧
      member = .skipped ⟨.empty, ⟨state.position, after.position⟩⟩ := by
  have hle : state.position ≤ input.sentence.memberBoundary starts (state.position + 1) :=
    Nat.le_of_succ_le (input.sentence.memberBoundaryWithin_bounds starts _ 0 _).1
  have hmove : Ends (moveTo fun sentence => sentence.memberBoundary starts) input
      ⟨state.position + 1, stray context state.position :: state.findings, state.exprs⟩
      fun _ after => after = ⟨input.sentence.memberBoundary starts (state.position + 1),
        stray context state.position :: state.findings, state.exprs⟩ := rfl
  refine .position (.noteHere (.advance hkind (hmove.bind ?_)))
  rintro _ _ rfl
  exact rangeFrom_step hle (.pure ⟨rfl, rfl⟩)

/-- Skipping takes just the symbols up to the boundary that is documented, and is reported
once.  In the braces that are counted on the way no `}` comes before its `{`. -/
theorem skips_to_boundary (tokens : TokenList) (tupleEnd : Nat → Nat) (state : ParseState) :
    (∀ (starts : TokenKind → Bool) (context : ParseContext),
      (Sentence.ofTokens tokens).kindAt state.position ≠ .eof →
        Ends (skippedUpTo starts context) ⟨.ofTokens tokens, tupleEnd⟩ state fun member after =>
          IsLeast {index | state.position < index ∧
            ((Sentence.ofTokens tokens).kindAt index = .eof ∨
              (Sentence.ofTokens tokens).EndsSkipped starts (state.position + 1) index)}
            after.position ∧
          (Sentence.ofTokens tokens).ClosesOwn (state.position + 1) after.position ∧
          member = .skipped ⟨.empty, ⟨state.position, after.position⟩⟩ ∧
          after.exprs = state.exprs ∧
          ∀ (source : String) (version : LanguageVersion), ∃ diagnostic : Diagnostic,
            diagnostic.code = (if context.inTypeBody then .invalidMemberDecl else .eofExpected) ∧
            diagnostic.span = Finding.spanAt tokens state.position ∧
            SyntaxTree.findingsIn source tokens version after =
              SyntaxTree.findingsIn source tokens version state ++ [diagnostic]) ∧
    (∀ context : ParseContext,
      skippedMember context = skippedUpTo context.memberStart.contains context) ∧
    (Ends (moveTo Sentence.accessorBoundary) ⟨.ofTokens tokens, tupleEnd⟩ state fun _ after =>
      IsLeast {index | state.position ≤ index ∧
        ((Sentence.ofTokens tokens).kindAt index = .eof ∨
          (Sentence.ofTokens tokens).EndsAccessor state.position index)} after.position ∧
      (Sentence.ofTokens tokens).ClosesOwn state.position after.position ∧
      after = { state with position := after.position }) := by
  refine ⟨fun starts context hkind => ?_, fun _ => rfl, ?_⟩
  · refine (skippedUpTo_ends starts context hkind).imp ?_
    rintro member _ ⟨rfl, hmember⟩
    have hstart := Sentence.DepthAt.refl (.ofTokens tokens) (state.position + 1)
    have hfirst := Sentence.memberBoundaryWithin_first starts
      ((Sentence.ofTokens tokens).left (state.position + 1)) hstart
    refine ⟨hfirst.isLeast, Sentence.memberBoundaryWithin_closesWithin _ _ 0 _, hmember, rfl,
      fun source version => ?_⟩
    obtain ⟨diagnostic, hsome, hcode, hspan⟩ :=
      stray_diagnostic? context source tokens version state.position
    refine ⟨diagnostic, hcode, hspan, ?_⟩
    have hcons := SyntaxTree.findingsIn_cons source tokens version state
      (stray context state.position)
    rw [hsome] at hcons
    exact hcons
  · have hfresh := (Sentence.ofTokens tokens).not_behindSemicolon state.position
    have hstart := Sentence.DepthAt.refl (.ofTokens tokens) state.position
    have hfirst := Sentence.accessorBoundaryWithin_first
      ((Sentence.ofTokens tokens).left state.position) hstart hfresh
    exact ⟨hfirst.isLeast, Sentence.accessorBoundaryWithin_closesWithin _ 0 _, rfl⟩

theorem skips_to_boundary_braces :
    let sentence := Sentence.ofTokens (lex ") \x7b x \x7d ; \x7d y").tokens
    sentence.kindAt 0 ≠ .eof ∧ IsLeast {index | 0 < index ∧
      (sentence.kindAt index = .eof ∨ sentence.EndsSkipped (fun _ => false) 1 index)} 5 := by
  have hkind : (Sentence.ofTokens (lex ") \x7b x \x7d ; \x7d y").tokens).kindAt 0 ≠ .eof := by
    decide
  have hstop : (skippedUpTo (fun _ => false) .typeBody
      ⟨.ofTokens (lex ") \x7b x \x7d ; \x7d y").tokens, fun _ => 0⟩ .start).2.position = 5 := by
    decide
  have hleast := ((skips_to_boundary _ (fun _ => 0) .start).1 (fun _ => false) .typeBody hkind).1
  rw [hstop] at hleast
  exact ⟨hkind, hleast⟩

end Parse
end TolerantSyntax
