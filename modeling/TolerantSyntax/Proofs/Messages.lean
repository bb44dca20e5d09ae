import Mathlib.Data.List.Infix
import TolerantSyntax.Diagnostic.Basic

/-!
# Messages

A template has one reading as characters and placeholders.  A message shows this reading part by
part: a character stands for itself, and a placeholder for the argument at its index, or for what
is written where there is none.  No argument takes part in the reading, so all of them go in at
once, and the braces of an argument are text.  The templates of the codes have no placeholders but
those for the arguments that their diagnostics carry.
-/

namespace TolerantSyntax

/-- Decimal digits and the number that they denote. -/
structure DecimalDigits (digits : List Char) (value : Nat) : Prop where
  ne_nil : digits ≠ []
  isDigit : ∀ digit ∈ digits, digit.isDigit = true
  value : Nat.ofDigitChars 10 digits 0 = value

/-- A placeholder has its index in decimal digits, with or without a plus sign. -/
inductive Numeral : List Char → Nat → Prop where
  | plain {digits : List Char} {index : Nat} (h : DecimalDigits digits index) : Numeral digits index
  | signed {digits : List Char} {index : Nat} (h : DecimalDigits digits index) :
      Numeral ('+' :: digits) index

theorem DecimalDigits.of_toString (index : Nat) : DecimalDigits (toString index).toList index := by
  rw [Nat.toString_eq_repr, Nat.toList_repr]
  exact ⟨Nat.toDigits_ne_nil, fun digit => Nat.isDigit_of_mem_toDigits (by decide) (by decide),
    Nat.ofDigitChars_ten_toDigits⟩

namespace Numeral

variable {numeral : List Char} {index : Nat}

theorem not_mem_of_not_isDigit {c : Char} (h : Numeral numeral index) (hc : c.isDigit = false)
    (hplus : c ≠ '+') : c ∉ numeral := by
  have hdigits {digits : List Char} (h : DecimalDigits digits index) : c ∉ digits := fun hmem => by
    simp [h.isDigit c hmem] at hc
  cases h with
  | plain h => exact hdigits h
  | signed h => exact List.not_mem_cons_of_ne_of_not_mem hplus (hdigits h)

theorem open_not_mem (h : Numeral numeral index) : '\x7b' ∉ numeral :=
  h.not_mem_of_not_isDigit rfl (by decide)

theorem close_not_mem (h : Numeral numeral index) : '\x7d' ∉ numeral :=
  h.not_mem_of_not_isDigit rfl (by decide)

theorem takeWhile_append_close (h : Numeral numeral index) (behind : List Char) :
    (numeral ++ '\x7d' :: behind).takeWhile (· ≠ '\x7d') = numeral := by
  rw [List.takeWhile_append_of_pos, List.takeWhile_cons_of_neg (by simp), List.append_nil]
  exact fun c hmem => decide_eq_true fun hclose => h.close_not_mem (hclose ▸ hmem)

theorem dropWhile_append_close (h : Numeral numeral index) (behind : List Char) :
    (numeral ++ '\x7d' :: behind).dropWhile (· ≠ '\x7d') = '\x7d' :: behind := by
  rw [List.dropWhile_append_of_pos, List.dropWhile_cons_of_neg (by simp)]
  exact fun c hmem => decide_eq_true fun hclose => h.close_not_mem (hclose ▸ hmem)

theorem append_close_inj {other behind behind' : List Char} {index' : Nat}
    (h : Numeral numeral index) (hother : Numeral other index')
    (heq : numeral ++ '\x7d' :: behind = other ++ '\x7d' :: behind') :
    numeral = other ∧ behind = behind' := by
  have hnumeral : numeral = other := by
    rw [← h.takeWhile_append_close behind, heq, hother.takeWhile_append_close]
  subst hnumeral
  exact ⟨rfl, (List.cons.inj (List.append_cancel_left heq)).2⟩

end Numeral

namespace Diagnostic

variable {numeral : List Char} {index : Nat}

theorem index?_of_unsigned {digits : List Char} (hunsigned : unsigned numeral = digits)
    (h : DecimalDigits digits index) : index? numeral = some index := by
  have hall : digits.all (·.isDigit) = true := List.all_eq_true.mpr h.isDigit
  rw [index?, hunsigned]
  simp [h.ne_nil, hall, h.value]

theorem unsigned_of_isDigit (h : ∀ digit ∈ numeral, digit.isDigit = true) :
    unsigned numeral = numeral := by
  unfold unsigned
  split
  · exact absurd (h '+' (List.mem_cons_self ..)) (by decide)
  · rfl

theorem index?_eq_some_iff : index? numeral = some index ↔ Numeral numeral index := by
  constructor
  · intro h
    have hdecimal : DecimalDigits (unsigned numeral) index := by
      rw [index?, Option.ite_none_right_eq_some] at h
      obtain ⟨⟨hne, hall⟩, hvalue⟩ := h
      exact ⟨hne, List.all_eq_true.mp hall, Option.some.inj hvalue⟩
    unfold unsigned at hdecimal
    split at hdecimal
    · exact .signed hdecimal
    · exact .plain hdecimal
  · intro h
    cases h with
    | plain h => exact index?_of_unsigned (unsigned_of_isDigit h.isDigit) h
    | signed h => exact index?_of_unsigned rfl h

end Diagnostic

theorem Numeral.unique {numeral : List Char} {index other : Nat} (h : Numeral numeral index)
    (hother : Numeral numeral other) : index = other := by
  rw [← Diagnostic.index?_eq_some_iff] at h hother
  exact Option.some.inj (h.symm.trans hother)

/-! ## Readings -/

/-- A part of a template: a character for itself or a placeholder. -/
inductive TemplatePart where
  | character (c : Char)
  | placeholder (numeral : List Char) (index : Nat)

namespace TemplatePart

def written : TemplatePart → List Char
  | character c => [c]
  | placeholder numeral _ => '\x7b' :: (numeral ++ ['\x7d'])

@[simp] theorem written_character (c : Char) : (character c).written = [c] := rfl

@[simp] theorem written_placeholder (numeral : List Char) (index : Nat) :
    (placeholder numeral index).written = '\x7b' :: (numeral ++ ['\x7d']) := rfl

/-- What a message shows for the part; a placeholder without an argument stays as written. -/
def shown (args : List String) : TemplatePart → List Char
  | character c => [c]
  | placeholder numeral index =>
      match args[index]? with
      | some arg => arg.toList
      | none => (placeholder numeral index).written

theorem flatMap_shown_congr {args others : List String} {parts : List TemplatePart}
    (h : ∀ numeral index, placeholder numeral index ∈ parts → others[index]? = args[index]?) :
    parts.flatMap (·.shown others) = parts.flatMap (·.shown args) := by
  refine List.flatMap_congr fun part hmem => ?_
  cases part with
  | character c => rfl
  | placeholder numeral index => rw [shown, shown, h numeral index hmem]

end TemplatePart

/-- A placeholder stands at the front of the text. -/
def OpensPlaceholder (text : List Char) : Prop :=
  ∃ numeral index behind, Numeral numeral index ∧ text = '\x7b' :: (numeral ++ '\x7d' :: behind)

/-- The parts of a template. A brace is a character of its own only where no placeholder stands. -/
inductive ReadsAs : List Char → List TemplatePart → Prop where
  | nil : ReadsAs [] []
  | placeholder {numeral text : List Char} {index : Nat} {parts : List TemplatePart}
      (hnumeral : Numeral numeral index) (hrest : ReadsAs text parts) :
      ReadsAs ('\x7b' :: (numeral ++ '\x7d' :: text)) (.placeholder numeral index :: parts)
  | character {c : Char} {text : List Char} {parts : List TemplatePart}
      (hopens : ¬OpensPlaceholder (c :: text)) (hrest : ReadsAs text parts) :
      ReadsAs (c :: text) (.character c :: parts)

namespace ReadsAs

variable {text front behind numeral : List Char} {index : Nat}
variable {parts others before after : List TemplatePart}

theorem written (h : ReadsAs text parts) : parts.flatMap (·.written) = text := by
  induction h with
  | nil => rfl
  | placeholder hnumeral hrest ih => simp [ih]
  | character hopens hrest ih => simp [ih]

theorem unique (h : ReadsAs text parts) (hother : ReadsAs text others) : parts = others := by
  induction h generalizing others with
  | nil => cases hother; rfl
  | @placeholder numeral text index parts hnumeral hrest ih =>
      generalize hwhole : '\x7b' :: (numeral ++ '\x7d' :: text) = whole at hother
      cases hother with
      | nil => cases hwhole
      | placeholder hnumeral' hrest' =>
          obtain ⟨rfl, rfl⟩ := hnumeral.append_close_inj hnumeral' (List.cons.inj hwhole).2
          rw [hnumeral.unique hnumeral', ih hrest']
      | character hopens hrest' => exact absurd ⟨_, _, _, hnumeral, hwhole.symm⟩ hopens
  | @character c text parts hopens hrest ih =>
      generalize hwhole : c :: text = whole at hother
      cases hother with
      | nil => cases hwhole
      | placeholder hnumeral' hrest' => exact absurd ⟨_, _, _, hnumeral', hwhole⟩ hopens
      | character hopens' hrest' =>
          obtain ⟨rfl, rfl⟩ := List.cons.inj hwhole
          rw [ih hrest']

theorem exists_suffix (h : ReadsAs text parts) (hmem : .placeholder numeral index ∈ parts) :
    Numeral numeral index ∧ ∃ behind, '\x7b' :: (numeral ++ '\x7d' :: behind) <:+ text := by
  induction h with
  | nil => cases hmem
  | @placeholder other text _ _ hother hrest ih =>
      rcases List.mem_cons.mp hmem with heq | hmem
      · obtain ⟨rfl, rfl⟩ := TemplatePart.placeholder.inj heq
        exact ⟨hother, text, List.suffix_refl _⟩
      · obtain ⟨hnumeral, behind, hsuffix⟩ := ih hmem
        have htext : text <:+ '\x7b' :: (other ++ '\x7d' :: text) :=
          ⟨'\x7b' :: (other ++ ['\x7d']), by simp⟩
        exact ⟨hnumeral, behind, hsuffix.trans htext⟩
  | character hopens hrest ih =>
      have hmem := (List.mem_cons.mp hmem).resolve_left nofun
      obtain ⟨hnumeral, behind, hsuffix⟩ := ih hmem
      exact ⟨hnumeral, behind, hsuffix.trans (List.suffix_cons ..)⟩

theorem plain (h : '\x7b' ∉ text) : ReadsAs text (text.map .character) := by
  induction text with
  | nil => exact .nil
  | cons c rest ih =>
      rw [List.mem_cons, not_or] at h
      refine .character ?_ (ih h.2)
      rintro ⟨numeral, index, behind, -, heq⟩
      exact h.1 (List.cons.inj heq).1.symm

/-- Wherever a placeholder stands, what is in front of it and what is behind it are read apart. -/
theorem append_placeholder (hfront : ReadsAs front before) (hnumeral : Numeral numeral index)
    (hbehind : ReadsAs behind after) :
    ReadsAs (front ++ '\x7b' :: (numeral ++ '\x7d' :: behind))
      (before ++ .placeholder numeral index :: after) := by
  induction hfront with
  | nil => exact .placeholder hnumeral hbehind
  | placeholder hother hrest ih =>
      have hwhole := placeholder hother ih
      simpa using hwhole
  | @character c text parts hopens hrest ih =>
      refine .character ?_ ih
      rintro ⟨other, index', behind', hother, heq⟩
      obtain ⟨rfl, htail⟩ := List.cons.inj heq
      -- A placeholder that starts in front of the other one also ends there.
      rcases List.append_eq_append_iff.mp htail with ⟨inner, rfl, hinner⟩ | ⟨inner, rfl, hinner⟩
      · cases inner with
        | nil => cases hinner
        | cons d inner =>
            obtain ⟨rfl, -⟩ := List.cons.inj hinner
            exact hother.open_not_mem (by simp)
      · cases inner with
        | nil => cases hinner
        | cons d inner =>
            obtain ⟨rfl, -⟩ := List.cons.inj hinner
            exact hopens ⟨other, index', inner, hother, rfl⟩

end ReadsAs

theorem exists_readsAs (text : List Char) : ∃ parts, ReadsAs text parts := by
  induction hlength : text.length using Nat.strong_induction_on generalizing text with
  | _ length ih =>
      by_cases hopens : OpensPlaceholder text
      · obtain ⟨numeral, index, behind, hnumeral, rfl⟩ := hopens
        obtain ⟨parts, hparts⟩ := ih behind.length (by simp at hlength; omega) behind rfl
        exact ⟨_, .placeholder hnumeral hparts⟩
      · cases text with
        | nil => exact ⟨[], .nil⟩
        | cons c rest =>
            obtain ⟨parts, hparts⟩ := ih rest.length (by simp at hlength; omega) rest rfl
            exact ⟨_, .character hopens hparts⟩

/-! ## Messages -/

namespace Diagnostic

variable {args : List String} {template front behind numeral : List Char} {index : Nat}

theorem placeholder?_numeral (h : Numeral numeral index) (behind : List Char) :
    placeholder? args (numeral ++ '\x7d' :: behind) = args[index]?.map (·, behind) := by
  rw [placeholder?, h.dropWhile_append_close, h.takeWhile_append_close, index?_eq_some_iff.mpr h]

theorem opensPlaceholder_of_placeholder? {text : List Char} {filled : String × List Char}
    (h : placeholder? args text = some filled) : OpensPlaceholder ('\x7b' :: text) := by
  unfold placeholder? at h
  split at h
  · cases h
  · rename_i c behind hdrop
    split at h
    · cases h
    · rename_i index hindex
      obtain rfl : c = '\x7d' := by
        have hhead := List.head?_dropWhile_not (· ≠ '\x7d') text
        rw [hdrop] at hhead
        simpa using hhead
      refine ⟨_, index, behind, index?_eq_some_iff.mp hindex, ?_⟩
      rw [← hdrop, List.takeWhile_append_dropWhile]

theorem fill_append (args : List String) (hfront : '\x7b' ∉ front) (fuel : Nat)
    (rest : List Char) :
    fill args (front.length + fuel) (front ++ rest) = front ++ fill args fuel rest := by
  induction front with
  | nil => simp
  | cons c front ih =>
      rw [List.mem_cons, not_or] at hfront
      rw [List.length_cons, Nat.add_right_comm, List.cons_append, fill, if_neg (Ne.symm hfront.1),
        ih hfront.2, List.cons_append]

theorem fill_character {c : Char} {rest : List Char} (h : ¬OpensPlaceholder (c :: rest))
    (fuel : Nat) : fill args (fuel + 1) (c :: rest) = c :: fill args fuel rest := by
  rw [fill]
  split
  · rename_i hopen
    subst hopen
    split
    · rename_i hfilled
      exact absurd (opensPlaceholder_of_placeholder? hfilled) h
    · rfl
  · rfl

/-- A placeholder goes by its argument. Without one, its brace stays and the rest of it is text. -/
theorem fill_placeholder (args : List String) (hnumeral : Numeral numeral index) (fuel : Nat)
    (rest : List Char) :
    ∃ left, fuel ≤ left ∧
      fill args (numeral.length + 1 + fuel + 1) ('\x7b' :: (numeral ++ '\x7d' :: rest)) =
        (TemplatePart.placeholder numeral index).shown args ++ fill args left rest := by
  rw [fill, if_pos rfl, placeholder?_numeral hnumeral]
  cases harg : args[index]? with
  | some arg =>
      exact ⟨numeral.length + 1 + fuel, by omega, by simp [TemplatePart.shown, harg]⟩
  | none =>
      have hplain : '\x7b' ∉ numeral ++ ['\x7d'] := by simp [hnumeral.open_not_mem]
      have hpassed := fill_append args hplain fuel rest
      rw [List.length_append, List.length_singleton, List.append_assoc, List.singleton_append]
        at hpassed
      exact ⟨fuel, Nat.le_refl fuel, by simp [TemplatePart.shown, harg, hpassed]⟩

/-- A template is filled part by part; the parts do not depend on the arguments. -/
theorem fill_eq {parts : List TemplatePart} (h : ReadsAs template parts) {fuel : Nat}
    (hfuel : template.length ≤ fuel) :
    fill args fuel template = parts.flatMap (·.shown args) := by
  -- The reading, and not the fuel, says what the next step takes.
  induction h generalizing fuel with
  | nil => cases fuel <;> rfl
  | @placeholder numeral text index parts hnumeral hrest ih =>
      rw [List.length_cons, List.length_append, List.length_cons] at hfuel
      obtain ⟨more, rfl⟩ : ∃ more, fuel = numeral.length + 1 + more + 1 :=
        ⟨fuel - (numeral.length + 2), by omega⟩
      obtain ⟨left, hleft, hfill⟩ := fill_placeholder args hnumeral more text
      rw [hfill, ih (by omega), List.flatMap_cons]
  | @character c text parts hopens hrest ih =>
      obtain ⟨fuel, rfl⟩ : ∃ less, fuel = less + 1 :=
        Nat.exists_eq_add_one.mpr (Nat.lt_of_lt_of_le (Nat.succ_pos _) hfuel)
      rw [fill_character hopens, ih (Nat.le_of_succ_le_succ hfuel), List.flatMap_cons]
      rfl

variable {diagnostic : Diagnostic} {parts : List TemplatePart}

theorem toList_message (h : ReadsAs diagnostic.code.template.toList parts) :
    diagnostic.message.toList = parts.flatMap (·.shown diagnostic.args) := by
  rw [message, String.toList_ofList, fill_eq h (Nat.le_refl _)]

theorem mem_message {c : Char} (h : c ∈ diagnostic.message.toList) :
    c ∈ diagnostic.code.template.toList ∨ ∃ arg ∈ diagnostic.args, c ∈ arg.toList := by
  obtain ⟨parts, hreads⟩ := exists_readsAs diagnostic.code.template.toList
  rw [toList_message hreads] at h
  obtain ⟨part, hpart, hshown⟩ := List.mem_flatMap.mp h
  have hwritten (hc : c ∈ part.written) : c ∈ diagnostic.code.template.toList := by
    rw [← hreads.written]
    exact List.mem_flatMap_of_mem hpart hc
  cases part with
  | character d => exact .inl (hwritten hshown)
  | placeholder numeral index =>
      rw [TemplatePart.shown] at hshown
      split at hshown
      · rename_i arg harg
        exact .inr ⟨arg, List.mem_of_getElem? harg, hshown⟩
      · exact .inl (hwritten hshown)

theorem message_of_slot {text : String} {others : List String}
    (htemplate : diagnostic.code.template.toList = front ++ '\x7b' :: '0' :: '\x7d' :: behind)
    (hfront : '\x7b' ∉ front) (hbehind : '\x7b' ∉ behind)
    (hargs : diagnostic.args = text :: others) :
    diagnostic.message.toList = front ++ text.toList ++ behind := by
  have hplain (text : List Char) :
      (text.map TemplatePart.character).flatMap (·.shown diagnostic.args) = text := by
    rw [List.flatMap_map]
    exact List.flatMap_singleton' text
  have hreads :=
    (ReadsAs.plain hfront).append_placeholder (.plain (.of_toString 0)) (.plain hbehind)
  rw [toList_message (htemplate ▸ hreads), List.flatMap_append, List.flatMap_cons, hplain, hplain,
    TemplatePart.shown, hargs]
  simp

end Diagnostic

namespace DiagnosticCode

/-- Every placeholder of a template has an index below the arity, in its shortest numeral. -/
theorem template_placeholders (code : DiagnosticCode) : ∀ suffix ∈ code.template.toList.tails,
    suffix.head? = some '\x7b' → '\x7d' ∈ suffix →
      ∃ index < code.arity, suffix.tail.takeWhile (· ≠ '\x7d') = (toString index).toList := by
  cases code <;> decide +kernel

theorem placeholder_of_template {code : DiagnosticCode} {parts : List TemplatePart}
    (h : ReadsAs code.template.toList parts) {numeral : List Char} {index : Nat}
    (hmem : .placeholder numeral index ∈ parts) :
    numeral = (toString index).toList ∧ index < code.arity := by
  obtain ⟨hnumeral, behind, hsuffix⟩ := h.exists_suffix hmem
  -- The table is about what stands between the braces; a numeral has only one value.
  obtain ⟨index', hlt, hshort⟩ := code.template_placeholders _ ((List.mem_tails ..).mpr hsuffix)
    rfl (by simp)
  rw [List.tail_cons, hnumeral.takeWhile_append_close] at hshort
  subst hshort
  obtain rfl := hnumeral.unique (.plain (.of_toString index'))
  exact ⟨rfl, hlt⟩

/-- The template of a code has one reading, in which no argument takes part. A message shows it
part by part: a character for itself, a placeholder as its argument or else as it is written. -/
theorem message_substitutes (code : DiagnosticCode) :
    ∃ parts : List TemplatePart,
      (∀ other, ReadsAs code.template.toList other ↔ other = parts) ∧
      parts.flatMap (·.written) = code.template.toList ∧
      (∀ numeral index, .placeholder numeral index ∈ parts →
        numeral = (toString index).toList ∧ index < code.arity) ∧
      ∀ severity span args,
        (Diagnostic.mk code severity span args).message.toList =
          parts.flatMap (·.shown args) ∧
        ∀ others : List String,
          (∀ numeral index, .placeholder numeral index ∈ parts → others[index]? = args[index]?) →
          (Diagnostic.mk code severity span others).message =
            (Diagnostic.mk code severity span args).message := by
  obtain ⟨parts, hreads⟩ := exists_readsAs code.template.toList
  refine ⟨parts, ?_, hreads.written, fun numeral index => placeholder_of_template hreads, ?_⟩
  · exact fun other => ⟨fun hother => hother.unique hreads, fun heq => heq ▸ hreads⟩
  · intro severity span args
    have hmessage (args : List String) : (Diagnostic.mk code severity span args).message.toList =
        parts.flatMap (·.shown args) := Diagnostic.toList_message hreads
    refine ⟨hmessage args, fun others hsame => String.toList_inj.mp ?_⟩
    rw [hmessage, hmessage, TemplatePart.flatMap_shown_congr hsame]

end DiagnosticCode

example : (Diagnostic.featureNotAvailable ⟨0, 1⟩ "\x7b1\x7d" "\x7b0\x7d").message =
    "Feature '\x7b1\x7d' is not available in this language version. Please use language " ++
      "version \x7b0\x7d or greater." := by
  decide +kernel

end TolerantSyntax
