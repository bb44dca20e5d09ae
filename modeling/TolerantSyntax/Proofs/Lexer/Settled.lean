import Mathlib.Tactic.SplitIfs
import TolerantSyntax.Proofs.Lexer.Tiling

/-!
# Numbers before a break

How far a rule goes depends on what it takes and on the character behind.  No part of a
number goes further before a blank, a newline or the end of the text than before any other
text.
-/

namespace TolerantSyntax.LexemeRule

/-- The text ends here, or a blank or a newline follows. -/
inductive Breaks : List Char → Prop where
  | nil : Breaks []
  | blank (rest : List Char) : Breaks (' ' :: rest)
  | newline (rest : List Char) : Breaks ('\n' :: rest)

variable {c : Char} {text rest other : List Char}

/-- A part of a rule takes no more than there is, and what it takes from the front of a text
it takes also when a break follows. -/
structure Settled {α : Type} (taken : α → Nat) (scan : List Char → α) : Prop where
  le : ∀ cs, taken (scan cs) ≤ cs.length
  before_break : ∀ {text rest other : List Char}, taken (scan (text ++ rest)) ≤ text.length →
    Breaks other → scan (text ++ other) = scan (text ++ rest)

theorem Settled.drop_le {f : List Char → Nat} (hf : Settled id f) (cs : List Char) (n : Nat)
    (hn : n ≤ cs.length) : n + f (cs.drop n) ≤ cs.length := by
  have hle := hf.le (cs.drop n)
  rw [id, List.length_drop] at hle
  omega

theorem Settled.chain {f g : List Char → Nat} (hf : Settled id f) (hg : Settled id g) :
    Settled id fun cs => f cs + g (cs.drop (f cs)) where
  le cs := hg.drop_le cs (f cs) (hf.le cs)
  before_break {text rest other} hle hother := by
    simp only [id] at hle ⊢
    have hf' : f (text ++ rest) ≤ text.length := by omega
    rw [List.drop_append_of_le_length hf'] at hle
    have hg' : g (text.drop (f (text ++ rest)) ++ rest) ≤
        (text.drop (f (text ++ rest))).length := by
      rw [List.length_drop]
      omega
    rw [hf.before_break hf' hother, List.drop_append_of_le_length hf',
      List.drop_append_of_le_length hf', hg.before_break hg' hother]

theorem runLength_cons_of_pos {p : Char → Bool} (h : p c = true) (rest : List Char) :
    runLength p (c :: rest) = runLength p rest + 1 := by
  unfold runLength
  rw [List.takeWhile_cons_of_pos h, List.length_cons]

theorem runLength_cons_of_neg {p : Char → Bool} (h : p c = false) (rest : List Char) :
    runLength p (c :: rest) = 0 := by
  unfold runLength
  rw [List.takeWhile_cons_of_neg (by simp [h]), List.length_nil]

theorem runLength_of_breaks {p : Char → Bool} (hblank : p ' ' = false)
    (hnewline : p '\n' = false) (hother : Breaks other) : runLength p other = 0 := by
  cases hother with
  | nil => rfl
  | blank rest => exact runLength_cons_of_neg hblank rest
  | newline rest => exact runLength_cons_of_neg hnewline rest

theorem runLength_settled {p : Char → Bool} (hblank : p ' ' = false) (hnewline : p '\n' = false) :
    Settled id (runLength p) where
  le cs := (List.takeWhile_sublist p).length_le
  before_break {text rest other} hle hother := by
    induction text with
    | nil =>
        rw [List.nil_append, List.nil_append, runLength_of_breaks hblank hnewline hother]
        exact (Nat.le_zero.mp hle).symm
    | cons c text ih =>
        cases hc : p c with
        | false =>
            rw [List.cons_append, List.cons_append, runLength_cons_of_neg hc,
              runLength_cons_of_neg hc]
        | true =>
            rw [List.cons_append, id, runLength_cons_of_pos hc] at hle
            rw [List.cons_append, List.cons_append, runLength_cons_of_pos hc,
              runLength_cons_of_pos hc, ih (Nat.le_of_succ_le_succ hle)]

theorem integerSuffix_settled : Settled id integerSuffix where
  le cs := by
    unfold integerSuffix
    repeat' split
    all_goals simp
  before_break {text rest other} hle hother := by
    match text with
    | [] =>
        rw [List.nil_append, List.nil_append]
        rw [List.nil_append, id, List.length_nil, Nat.le_zero] at hle
        rw [hle]
        cases hother <;> rfl
    | [c] =>
        have hshort : integerSuffix (c :: rest) = integerSuffix [c] := by
          cases rest with
          | nil => rfl
          | cons d rest =>
              simp only [List.cons_append, List.nil_append, integerSuffix, id] at hle ⊢
              split_ifs at hle ⊢ <;> simp_all
        rw [List.cons_append, List.cons_append, List.nil_append, List.nil_append, hshort]
        cases hother <;> rfl
    | c :: d :: text => rfl

theorem realSuffix_settled : Settled id realSuffix where
  le cs := by
    unfold realSuffix
    repeat' split
    all_goals simp
  before_break {text rest other} hle hother := by
    cases text with
    | nil =>
        rw [List.nil_append, id, List.length_nil, Nat.le_zero] at hle
        rw [List.nil_append, List.nil_append, hle]
        cases hother <;> rfl
    | cons c text => rfl

def sign : List Char → Nat
  | d :: _ => if d = '+' ∨ d = '-' then 1 else 0
  | [] => 0

theorem sign_settled : Settled id sign where
  le cs := by
    unfold sign
    repeat' split
    all_goals simp
  before_break {text rest other} hle hother := by
    cases text with
    | nil =>
        rw [List.nil_append, id, List.length_nil, Nat.le_zero] at hle
        rw [List.nil_append, List.nil_append, hle]
        cases hother <;> rfl
    | cons c text => rfl

theorem exponent_cons (c : Char) (rest : List Char) :
    exponent (c :: rest) =
      if c = 'e' ∨ c = 'E' then
        let digits := runLength Char.isDigit (rest.drop (sign rest))
        if digits = 0 then 0 else 1 + sign rest + digits
      else 0 := rfl

theorem digits_settled : Settled id (runLength Char.isDigit) := runLength_settled rfl rfl

theorem exponent_settled : Settled id exponent where
  le cs := by
    cases cs with
    | nil => exact Nat.le_refl 0
    | cons c rest =>
        have hle := (sign_settled.chain digits_settled).le rest
        simp only [id] at hle
        simp only [exponent_cons, id, List.length_cons]
        split_ifs <;> omega
  before_break {text rest other} hle hother := by
    cases text with
    | nil =>
        rw [List.nil_append, id, List.length_nil, Nat.le_zero] at hle
        rw [List.nil_append, List.nil_append, hle]
        cases hother <;> rfl
    | cons c text =>
        simp only [List.cons_append, exponent_cons, id, List.length_cons] at hle ⊢
        by_cases hmark : c = 'e' ∨ c = 'E'
        · simp only [if_pos hmark] at hle ⊢
          cases text with
          | nil =>
              have hzero : runLength Char.isDigit (rest.drop (sign rest)) = 0 := by
                by_contra hdigits
                simp only [List.nil_append, if_neg hdigits, List.length_nil] at hle
                omega
              rw [List.nil_append, List.nil_append, if_pos hzero]
              cases hother <;> rfl
          | cons d text =>
              have hsign (behind : List Char) : sign (d :: text ++ behind) = sign (d :: text) := rfl
              have hdrop (behind : List Char) : (d :: text ++ behind).drop (sign (d :: text)) =
                  (d :: text).drop (sign (d :: text)) ++ behind :=
                List.drop_append_of_le_length (sign_settled.le _)
              have hlength := List.length_drop (i := sign (d :: text)) (l := d :: text)
              have hsignle := sign_settled.le (d :: text)
              simp only [hsign, hdrop, id] at hle hsignle ⊢
              rw [digits_settled.before_break ?_ hother]
              rw [id, hlength]
              split at hle <;> omega
        · simp only [if_neg hmark]

theorem fraction_settled : Settled id fraction := by
  have hdigits : Settled id (runLength isDigitOrUnderscore) := runLength_settled rfl rfl
  have hchain := hdigits.chain (exponent_settled.chain realSuffix_settled)
  refine cast (congrArg _ (funext fun cs => ?_)) hchain
  simp only [fraction, List.drop_drop, Nat.add_assoc]

/-! ## Numbers -/

theorem startsWithDigit_of_breaks (h : Breaks other) : startsWithDigit other = false := by
  cases h <;> rfl

def numberTail : List Char → TokenKind × Nat
  | '.' :: behind =>
      if startsWithDigit behind then (.realLiteral, 1 + fraction behind) else (.intLiteral, 0)
  | c :: rest =>
      if exponent (c :: rest) ≠ 0 then
        (.realLiteral,
          exponent (c :: rest) + realSuffix ((c :: rest).drop (exponent (c :: rest))))
      else if isRealSuffix c then (.realLiteral, 1)
      else (.intLiteral, integerSuffix (c :: rest))
  | [] => (.intLiteral, 0)

theorem number_eq (cs : List Char) :
    number cs =
      let digits := runLength isDigitOrUnderscore cs
      (.token (numberTail (cs.drop digits)).1, digits + (numberTail (cs.drop digits)).2) := by
  simp only [number]
  generalize cs.drop (runLength isDigitOrUnderscore cs) = tail
  unfold numberTail
  split
  · split_ifs <;> simp_all [Nat.add_assoc]
  · split_ifs <;> simp_all [Nat.add_assoc]
  · rfl

theorem numberTail_point (behind : List Char) :
    numberTail ('.' :: behind) =
      if startsWithDigit behind then (.realLiteral, 1 + fraction behind)
      else (.intLiteral, 0) := rfl

theorem numberTail_cons (h : c ≠ '.') (rest : List Char) :
    numberTail (c :: rest) =
      if exponent (c :: rest) ≠ 0 then
        (.realLiteral,
          exponent (c :: rest) + realSuffix ((c :: rest).drop (exponent (c :: rest))))
      else if isRealSuffix c then (.realLiteral, 1)
      else (.intLiteral, integerSuffix (c :: rest)) := by
  unfold numberTail
  split
  · rename_i heq
    exact absurd (List.cons.inj heq).1 h
  · rename_i heq
    obtain ⟨rfl, rfl⟩ := List.cons.inj heq
    rfl
  · rename_i heq
    cases heq

theorem fraction_pos (h : startsWithDigit rest = true) : 0 < fraction rest := by
  cases rest with
  | nil => cases h
  | cons c rest =>
      have hdigits : 0 < runLength isDigitOrUnderscore (c :: rest) :=
        runLength_pos (by simp [isDigitOrUnderscore, show c.isDigit = true from h]) rest
      exact Nat.add_pos_left (Nat.add_pos_left hdigits _) _

theorem numberTail_stop (h : (numberTail rest).2 ≤ 0) : numberTail rest = (.intLiteral, 0) := by
  cases rest with
  | nil => rfl
  | cons c rest =>
      by_cases hpoint : c = '.'
      · subst hpoint
        rw [numberTail_point] at h ⊢
        split_ifs at h ⊢ <;> simp_all
      · rw [numberTail_cons hpoint] at h ⊢
        split_ifs at h ⊢ <;> simp_all

theorem numberTail_settled : Settled Prod.snd numberTail where
  le cs := by
    cases cs with
    | nil => exact Nat.le_refl 0
    | cons c rest =>
        by_cases hpoint : c = '.'
        · subst hpoint
          have hle := fraction_settled.le rest
          rw [id] at hle
          rw [numberTail_point]
          split <;> simp only [List.length_cons] <;> omega
        · have hreal := (exponent_settled.chain realSuffix_settled).le (c :: rest)
          have hint := integerSuffix_settled.le (c :: rest)
          simp only [id] at hreal hint
          rw [numberTail_cons hpoint]
          split_ifs <;> simp_all
  before_break {text rest other} hle hother := by
    cases text with
    | nil =>
        rw [List.nil_append] at hle
        rw [List.nil_append, List.nil_append, numberTail_stop hle]
        cases hother <;> rfl
    | cons c text =>
        rw [List.cons_append, List.length_cons] at hle
        rw [List.cons_append, List.cons_append]
        by_cases hpoint : c = '.'
        · subst hpoint
          rw [numberTail_point] at hle
          rw [numberTail_point, numberTail_point]
          cases text with
          | nil =>
              have hrest : startsWithDigit rest = false := by
                by_contra hdigit
                have hpos := fraction_pos (Bool.of_not_eq_false hdigit)
                simp only [List.nil_append, Bool.of_not_eq_false hdigit, if_true,
                  List.length_nil] at hle
                omega
              rw [List.nil_append, List.nil_append, hrest, startsWithDigit_of_breaks hother]
              rfl
          | cons d text =>
              have hstart (behind : List Char) :
                  startsWithDigit (d :: text ++ behind) = d.isDigit := rfl
              simp only [hstart] at hle ⊢
              split
              · rename_i hdigit
                rw [if_pos hdigit] at hle
                have hfraction : fraction (d :: text ++ rest) ≤ (d :: text).length := by omega
                rw [fraction_settled.before_break hfraction hother]
              · rfl
        · rw [numberTail_cons hpoint] at hle
          rw [numberTail_cons hpoint, numberTail_cons hpoint]
          simp only [← List.cons_append, ← List.length_cons (a := c)] at hle ⊢
          generalize c :: text = text at hle ⊢
          have hexponent : exponent (text ++ rest) ≤ text.length := by
            by_contra hlong
            rw [if_pos (by omega)] at hle
            omega
          rw [exponent_settled.before_break hexponent hother,
            List.drop_append_of_le_length hexponent, List.drop_append_of_le_length hexponent]
          rw [List.drop_append_of_le_length hexponent] at hle
          split_ifs at hle ⊢ with hscale hsuffix
          · have hreal : realSuffix (text.drop (exponent (text ++ rest)) ++ rest) ≤
                (text.drop (exponent (text ++ rest))).length := by
              rw [List.length_drop]
              omega
            rw [realSuffix_settled.before_break hreal hother]
          · rfl
          · rw [integerSuffix_settled.before_break hle hother]

theorem number_settled : Settled Prod.snd number where
  le cs := by
    have hdigits : Settled id (runLength isDigitOrUnderscore) := runLength_settled rfl rfl
    have hle := hdigits.le cs
    have htail := numberTail_settled.le (cs.drop (runLength isDigitOrUnderscore cs))
    rw [id] at hle
    rw [List.length_drop] at htail
    rw [number_eq]
    simp only
    omega
  before_break {text rest other} hle hother := by
    have hdigits : Settled id (runLength isDigitOrUnderscore) := runLength_settled rfl rfl
    rw [number_eq] at hle ⊢
    rw [number_eq]
    simp only at hle ⊢
    have hfits : runLength isDigitOrUnderscore (text ++ rest) ≤ text.length := by omega
    rw [List.drop_append_of_le_length hfits] at hle
    rw [hdigits.before_break hfits hother, List.drop_append_of_le_length hfits,
      List.drop_append_of_le_length hfits, numberTail_settled.before_break ?_ hother]
    rw [List.length_drop]
    omega

def hexDigits : List Char → Nat
  | c :: mark :: behind =>
      if c = '0' ∧ (mark = 'x' ∨ mark = 'X') then
        if runLength isHexOrUnderscore behind = 0 then 0
        else 2 + runLength isHexOrUnderscore behind
      else 0
  | _ => 0

theorem hexDigits_settled : Settled id hexDigits where
  le cs := by
    have hdigits : Settled id (runLength isHexOrUnderscore) := runLength_settled rfl rfl
    match cs with
    | [] => exact Nat.le_refl 0
    | [c] => exact Nat.zero_le 1
    | c :: mark :: behind =>
        have hle := hdigits.le behind
        simp only [id] at hle
        simp only [id, hexDigits, List.length_cons]
        split_ifs <;> omega
  before_break {text rest other} hle hother := by
    have hdigits : Settled id (runLength isHexOrUnderscore) := runLength_settled rfl rfl
    match text with
    | [] =>
        have hzero : hexDigits rest = 0 := Nat.le_zero.mp hle
        rw [List.nil_append, List.nil_append, hzero]
        cases hother with
        | nil => rfl
        | blank behind => cases behind <;> rfl
        | newline behind => cases behind <;> rfl
    | [c] =>
        have hzero : hexDigits (c :: rest) = 0 := by
          cases rest with
          | nil => rfl
          | cons mark behind =>
              simp only [List.cons_append, List.nil_append, hexDigits, id, List.length_cons,
                List.length_nil] at hle ⊢
              split_ifs at hle ⊢ <;> omega
        rw [List.cons_append, List.cons_append, List.nil_append, List.nil_append, hzero]
        cases hother with
        | nil => rfl
        | blank behind => simp [hexDigits]
        | newline behind => simp [hexDigits]
    | c :: mark :: text =>
        simp only [List.cons_append, hexDigits, id, List.length_cons] at hle ⊢
        by_cases hmark : c = '0' ∧ (mark = 'x' ∨ mark = 'X')
        · simp only [if_pos hmark] at hle ⊢
          have hfits : runLength isHexOrUnderscore (text ++ rest) ≤ text.length := by
            split at hle <;> omega
          rw [hdigits.before_break hfits hother]
        · simp only [if_neg hmark]

def numeral (cs : List Char) : LexemeRule × Nat :=
  if hexDigits cs = 0 then number cs
  else (.token .intLiteral, hexDigits cs + integerSuffix (cs.drop (hexDigits cs)))

theorem numeral_settled : Settled Prod.snd numeral where
  le cs := by
    have hhex := (hexDigits_settled.chain integerSuffix_settled).le cs
    have hnumber := number_settled.le cs
    unfold numeral
    split
    · exact hnumber
    · exact hhex
  before_break {text rest other} hle hother := by
    unfold numeral at hle ⊢
    have hhex : hexDigits (text ++ rest) ≤ text.length := by
      split at hle <;> omega
    rw [hexDigits_settled.before_break hhex hother, List.drop_append_of_le_length hhex,
      List.drop_append_of_le_length hhex]
    rw [List.drop_append_of_le_length hhex] at hle
    split
    · rename_i hzero
      rw [if_pos hzero] at hle
      exact number_settled.before_break hle hother
    · rename_i hdigits
      rw [if_neg hdigits] at hle
      rw [integerSuffix_settled.before_break _ hother]
      rw [id, List.length_drop]
      simp only at hle
      omega

theorem numeral_rule (cs : List Char) :
    ∃ kind, (numeral cs).1 = .token kind ∧ (kind = .intLiteral ∨ kind = .realLiteral) := by
  have hnumber : ∃ kind, (number cs).1 = .token kind ∧
      (kind = .intLiteral ∨ kind = .realLiteral) := by
    rw [number_eq]
    refine ⟨_, rfl, ?_⟩
    unfold numberTail
    repeat' split
    all_goals simp
  unfold numeral
  split
  · exact hnumber
  · exact ⟨_, rfl, .inl rfl⟩

theorem hexNumber_eq {cs behind : List Char} (hdrop : cs.drop 2 = behind)
    (hdigits : hexDigits cs =
      if runLength isHexOrUnderscore behind = 0 then 0
      else 2 + runLength isHexOrUnderscore behind) : hexNumber cs behind = numeral cs := by
  subst hdrop
  unfold hexNumber numeral
  rw [hdigits]
  by_cases hzero : runLength isHexOrUnderscore (cs.drop 2) = 0
  · simp only [if_pos hzero, if_true]
  · simp only [if_neg hzero, List.drop_drop]
    rw [if_neg (by omega)]

theorem scan_digit (hblank : isWhitespace c = false) (hdigit : c.isDigit = true)
    (rest : List Char) : scan c rest = numeral (c :: rest) := by
  unfold scan
  rw [if_neg (by simp [hblank]), if_pos hdigit]
  split
  · exact hexNumber_eq rfl rfl
  · exact hexNumber_eq rfl rfl
  · rename_i hx hX
    have hzero : hexDigits (c :: rest) = 0 := by
      cases rest with
      | nil => rfl
      | cons mark behind =>
          refine if_neg fun hmark => ?_
          obtain ⟨rfl, rfl | rfl⟩ := hmark
          · exact hx behind rfl rfl
          · exact hX behind rfl rfl
    rw [numeral, if_pos hzero]

end TolerantSyntax.LexemeRule
