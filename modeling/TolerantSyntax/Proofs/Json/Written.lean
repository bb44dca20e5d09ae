import TolerantSyntax.Proofs.Json.Reader
import TolerantSyntax.Report.Json

/-!
# Written values are read back

What the reader makes of quoted texts, of decimal numerals, and of values between signs.  A
string or a sign is taken whatever comes behind it, and a numeral where no character behind
it could go on with it.
-/

namespace TolerantSyntax.Json.Reader

variable {α β : Type} {text rest : List Char} {c : Char}

theorem bind_apply {first : Reader α} {behind : α → Reader β} {value : α}
    (h : first text = some (value, rest)) : (first >>= behind) text = behind value rest := by
  simp [bind, StateT.bind, h]

@[simp] theorem pure_apply (value : α) (text : List Char) :
    (pure value : Reader α) text = some (value, text) := rfl

theorem map_apply {reader : Reader α} {value : α} (h : reader text = some (value, rest))
    (f : α → β) : (f <$> reader) text = some (f value, rest) := by
  simp [Functor.map, StateT.map, h]

@[simp] theorem get_apply (text : List Char) :
    (get : Reader (List Char)) text = some (text, text) := rfl

@[simp] theorem next_apply (c : Char) (rest : List Char) : next (c :: rest) = some (c, rest) := rfl

@[simp] theorem exactly_apply (c : Char) (rest : List Char) :
    exactly c (c :: rest) = some ((), rest) := by
  simp [exactly, bind_apply (next_apply c rest), require]

theorem skipBlanks_apply (text : List Char) :
    skipBlanks text = some ((), text.dropWhile isBlank) := rfl

theorem takeIf_of_not {wanted : Char → Bool} (h : ∀ c ∈ text.head?, wanted c = false) :
    takeIf wanted text = some (false, text) := by
  cases text with
  | nil => rfl
  | cons c rest => simp [takeIf, h c rfl]

theorem dropWhile_blanks {blanks : List Char} (hblanks : blanks.all isBlank = true)
    (hc : isBlank c = false) : (blanks ++ c :: rest).dropWhile isBlank = c :: rest := by
  rw [List.dropWhile_append_of_pos (List.all_eq_true.mp hblanks)]
  simp [hc]

section Signs

variable {blanks : List Char} (hblanks : blanks.all isBlank = true) (hc : isBlank c = false)
include hblanks hc

theorem symbol_apply (rest : List Char) : symbol c (blanks ++ c :: rest) = some ((), rest) := by
  rw [symbol, bind_apply (skipBlanks_apply _), dropWhile_blanks hblanks hc]
  exact exactly_apply c rest

theorem symbolIf_apply (rest : List Char) :
    symbolIf c (blanks ++ c :: rest) = some (true, rest) := by
  simp [symbolIf, dropWhile_blanks hblanks hc]

end Signs

def sign? (text : List Char) : Option Char := (text.dropWhile isBlank).head?

theorem sign?_append_of_some (h : sign? text = some c) (rest : List Char) :
    sign? (text ++ rest) = some c := by
  rw [sign?, List.dropWhile_append]
  split
  · rename_i hempty
    rw [List.isEmpty_iff] at hempty
    simp [sign?, hempty] at h
  · rw [List.head?_append]
    rw [sign?] at h
    simp [h]

theorem symbolIf_of_not (h : sign? text ≠ some c) : symbolIf c text = some (false, text) := by
  unfold symbolIf
  rw [sign?] at h
  split
  · rename_i d rest hdrop
    rw [hdrop] at h
    have hne : d ≠ c := fun heq => h (congrArg some heq)
    simp [hne]
  · rfl

/-! ## Quoted texts and numerals -/

theorem hexDigit?_digitChar : ∀ digit < 16, hexDigit? (Nat.digitChar digit) = some digit := by
  decide

theorem hexDigit_apply (digit : Nat) (h : digit < 16) (rest : List Char) :
    hexDigit (Nat.digitChar digit :: rest) = some (digit, rest) := by
  simp [hexDigit, bind_apply (next_apply _ _), hexDigit?_digitChar digit h]

theorem hex_byte {n : Nat} (h : n < 256) :
    (hex 4 n).toList = ['0', '0', Nat.digitChar (n / 16), Nat.digitChar (n % 16)] := by
  by_cases hsmall : n < 16
  · simp [hex, Nat.toDigits_of_lt_base hsmall, Nat.div_eq_of_lt hsmall, Nat.mod_eq_of_lt hsmall,
      List.replicate]
  · have hlow : n / 16 < 16 := by omega
    have hdigits : Nat.toDigits 16 n = [Nat.digitChar (n / 16), Nat.digitChar (n % 16)] := by
      rw [Nat.toDigits_of_base_le (by decide) (by omega), Nat.toDigits_of_lt_base hlow]
      rfl
    simp [hex, hdigits, List.replicate]

theorem hexUnit_apply {n : Nat} (h : n < 256) (rest : List Char) :
    hexUnit ((hex 4 n).toList ++ rest) = some (n, rest) := by
  have hzero : ∀ rest, hexDigit ('0' :: rest) = some (0, rest) :=
    hexDigit_apply 0 (by decide)
  rw [hex_byte h, hexUnit]
  simp only [List.cons_append, List.nil_append]
  rw [bind_apply (hzero _), bind_apply (hzero _), bind_apply (hexDigit_apply _ (by omega) _),
    bind_apply (hexDigit_apply _ (by omega) _), pure_apply]
  have hvalue : ((0 * 16 + 0) * 16 + n / 16) * 16 + n % 16 = n := by omega
  rw [hvalue]

theorem ofCode_toNat (c : Char) (rest : List Char) :
    ofCode c.toNat rest = some (c, rest) := by
  have hvalid : c.toNat.isValidChar := c.valid
  simp [ofCode, hvalid]

theorem escaped_hex (h : c.toNat < 256) (rest : List Char) :
    escaped ('u' :: ((hex 4 c.toNat).toList ++ rest)) = some (c, rest) := by
  have hplane : ¬ (0xD800 ≤ c.toNat ∧ c.toNat < 0xDC00) := by omega
  rw [escaped, bind_apply (next_apply _ _)]
  change unicode _ = _
  rw [unicode, bind_apply (hexUnit_apply h rest), if_neg hplane]
  exact ofCode_toNat c rest

theorem character_escaped (h : escaped text = some (c, rest)) :
    character ('\\' :: text) = some (some c, rest) := by
  rw [character, bind_apply (next_apply _ _)]
  change (escaped >>= fun c => pure (some c)) text = _
  rw [bind_apply h, pure_apply]

theorem character_escape (c : Char) (rest : List Char) :
    character (JsonText.escape c ++ rest) = some (some c, rest) := by
  unfold JsonText.escape
  split
  · rfl
  · rfl
  · rfl
  · rfl
  · rfl
  · rename_i hquote hbackslash _ _ _
    split
    · rename_i hcontrol
      have hbyte : c.toNat < 256 := by
        simp [JsonText.isControl] at hcontrol
        omega
      exact character_escaped (escaped_hex hbyte rest)
    · rename_i hcontrol
      have hraw : ¬ c.toNat < 0x20 := by
        simp [JsonText.isControl] at hcontrol
        omega
      rw [character, List.cons_append, List.nil_append, bind_apply (next_apply _ _)]
      split
      · rename_i heq
        exact absurd rfl hquote
      · exact absurd rfl hbackslash
      · rw [if_neg hraw, pure_apply]

theorem charactersWithin_escapes {n : Nat} {chars : List Char} (h : chars.length < n)
    (rest : List Char) :
    charactersWithin n (chars.flatMap JsonText.escape ++ '"' :: rest) = some (chars, rest) := by
  induction chars generalizing n with
  | nil =>
      obtain ⟨n, rfl⟩ := Nat.exists_eq_add_one_of_ne_zero (Nat.ne_of_gt h)
      rfl
  | cons c chars ih =>
      obtain ⟨n, rfl⟩ := Nat.exists_eq_add_one_of_ne_zero (Nat.ne_of_gt (Nat.zero_lt_of_lt h))
      have hrest := ih (Nat.lt_of_succ_lt_succ h)
      rw [List.flatMap_cons, List.append_assoc, charactersWithin,
        bind_apply (character_escape c _)]
      simp [bind_apply hrest]

theorem escape_ne_nil (c : Char) : JsonText.escape c ≠ [] := by
  unfold JsonText.escape
  split <;> try split
  all_goals simp

theorem length_le_escapes (chars : List Char) :
    chars.length ≤ (chars.flatMap JsonText.escape).length := by
  induction chars with
  | nil => simp
  | cons c chars ih =>
      have hpos := List.length_pos_iff.mpr (escape_ne_nil c)
      simp only [List.flatMap_cons, List.length_append, List.length_cons]
      omega

theorem toList_quote (text : String) :
    (JsonText.quote text).toList = '"' :: (text.toList.flatMap JsonText.escape ++ ['"']) := by
  simp [JsonText.quote]

theorem string_quote (text : String) (rest : List Char) :
    string ((JsonText.quote text).toList ++ rest) = some (text, rest) := by
  have hlength := length_le_escapes text.toList
  have hfuel : text.toList.length <
      (text.toList.flatMap JsonText.escape ++ '"' :: rest).length := by
    rw [List.length_append, List.length_cons]
    omega
  rw [toList_quote, string, List.cons_append, List.append_assoc, bind_apply (exactly_apply _ _),
    bind_apply (get_apply _), List.singleton_append,
    bind_apply (charactersWithin_escapes hfuel rest)]
  simp

/-- Whether a character could go on with a numeral. -/
def goesOn (c : Char) : Bool := c.isDigit || c = '.' || c = 'e' || c = 'E'

def Delimited (rest : List Char) : Prop := ∀ c ∈ rest.head?, goesOn c = false

theorem Delimited.cons (h : goesOn c = false) (rest : List Char) : Delimited (c :: rest) := by
  rintro d ⟨⟩
  exact h

theorem Delimited.takeIf {wanted : Char → Bool} (hrest : Delimited rest)
    (hwanted : ∀ c, wanted c = true → goesOn c = true) :
    Reader.takeIf wanted rest = some (false, rest) := by
  refine takeIf_of_not fun c hc => ?_
  cases hcase : wanted c with
  | false => rfl
  | true => exact absurd (hwanted c hcase) (by simp [hrest c hc])

section Decimal

variable (n : Nat)

theorem toDigits_isDigit : ∀ c ∈ Nat.toDigits 10 n, c.isDigit = true :=
  fun _ hc => Nat.isDigit_of_mem_toDigits (by decide) (by decide) hc

theorem digits_apply {rest : List Char} (hrest : Delimited rest) :
    digits (Nat.toDigits 10 n ++ rest) = some (Nat.toDigits 10 n, rest) := by
  have hstop : rest.takeWhile Char.isDigit = [] ∧ rest.dropWhile Char.isDigit = rest := by
    cases rest with
    | nil => simp
    | cons c rest =>
        have hc : c.isDigit = false := by
          have hgoesOn := hrest c rfl
          simp only [goesOn, Bool.or_eq_false_iff] at hgoesOn
          exact hgoesOn.1.1.1
        simp [hc]
  have htake : (Nat.toDigits 10 n ++ rest).takeWhile Char.isDigit = Nat.toDigits 10 n := by
    rw [List.takeWhile_append_of_pos (toDigits_isDigit n), hstop.1, List.append_nil]
  have hdrop : (Nat.toDigits 10 n ++ rest).dropWhile Char.isDigit = rest := by
    rw [List.dropWhile_append_of_pos (toDigits_isDigit n), hstop.2]
  have hmodify : (modify (List.dropWhile Char.isDigit) : Reader Unit)
      (Nat.toDigits 10 n ++ rest) = some ((), rest) := congrArg (fun rest => some ((), rest)) hdrop
  have hrequire : (require !(Nat.toDigits 10 n).isEmpty : Reader Unit) rest = some ((), rest) := by
    simp [require, Nat.toDigits_ne_nil]
  rw [digits, bind_apply (get_apply _), htake, bind_apply hmodify, bind_apply hrequire, pure_apply]

theorem head?_toDigits_append (rest : List Char) :
    (Nat.toDigits 10 n ++ rest).head? = (Nat.toDigits 10 n).head? := by
  obtain ⟨digit, digits, hdigits⟩ :=
    List.exists_cons_of_ne_nil (Nat.toDigits_ne_nil (b := 10) (n := n))
  simp [hdigits]

theorem head?_toDigits (h : n ≠ 0) : (Nat.toDigits 10 n).head? ≠ some '0' := by
  induction n using Nat.strongRecOn with
  | ind n ih =>
      by_cases hsmall : n < 10
      · have hdigit : ∀ n < 10, n ≠ 0 → Nat.digitChar n ≠ '0' := by decide
        rw [Nat.toDigits_of_lt_base hsmall]
        simpa using hdigit n hsmall h
      · have hquot : n / 10 ≠ 0 := by omega
        rw [Nat.toDigits_of_base_le (by decide) (by omega), head?_toDigits_append]
        exact ih (n / 10) (by omega) hquot

theorem whole_apply {rest : List Char} (hrest : Delimited rest) :
    whole (Nat.toDigits 10 n ++ rest) = some (Nat.toDigits 10 n, rest) := by
  rw [whole, bind_apply (digits_apply n hrest)]
  by_cases h : n = 0
  · subst h
    rfl
  · simp [require, head?_toDigits n h]

theorem number_apply {rest : List Char} (hrest : Delimited rest) :
    number (Nat.toDigits 10 n ++ rest) = some (ofNat n, rest) := by
  have hminus : takeIf (· = '-') (Nat.toDigits 10 n ++ rest) =
      some (false, Nat.toDigits 10 n ++ rest) := by
    refine takeIf_of_not fun c hc => ?_
    rw [head?_toDigits_append] at hc
    have hdigit := toDigits_isDigit n c (List.mem_of_mem_head? hc)
    simp only [decide_eq_false_iff_not]
    rintro rfl
    exact absurd hdigit (by decide)
  have hpoint : takeIf (· = '.') rest = some (false, rest) :=
    hrest.takeIf fun c hc => by simp_all [goesOn]
  have hshift : takeIf (fun c => c = 'e' || c = 'E') rest = some (false, rest) :=
    hrest.takeIf fun c hc => by simp_all [goesOn, or_assoc]
  rw [number, bind_apply hminus, bind_apply (whole_apply n hrest), bind_apply hpoint]
  simp [bind_apply hshift, Nat.ofDigitChars_ten_toDigits, ofNat]

end Decimal

/-! ## Values -/

/-- The reader takes what is written, and nothing else, where no numeral goes on. -/
def Reads (reader : Reader α) (written : List Char) (value : α) : Prop :=
  ∀ rest, Delimited rest → reader (written ++ rest) = some (value, rest)

section Lists

def separated (texts : List (List Char)) : List Char := [','].intercalate texts

@[simp] theorem separated_nil : separated [] = [] := rfl

@[simp] theorem separated_singleton (text : List Char) : separated [text] = text := by
  simp [separated]

theorem separated_cons_cons (first second : List Char) (texts : List (List Char)) :
    separated (first :: second :: texts) = first ++ ',' :: separated (second :: texts) := by
  simp [separated, List.intercalate_cons_cons]

theorem separated_cons (first : List Char) (texts : List (List Char)) :
    ∃ behind, separated (first :: texts) = first ++ behind := by
  cases texts with
  | nil => exact ⟨[], by simp⟩
  | cons second texts => exact ⟨_, separated_cons_cons first second texts⟩

theorem length_le_separated (first : List Char) (texts : List (List Char)) :
    texts.length ≤ (separated (first :: texts)).length := by
  induction texts generalizing first with
  | nil => simp
  | cons second texts ih =>
      have hrest := ih second
      rw [separated_cons_cons]
      simp only [List.length_append, List.length_cons]
      omega

/-- A sign that closes a list. -/
structure Closes (c : Char) : Prop where
  notBlank : isBlank c = false
  delimits : goesOn c = false
  notComma : c ≠ ','

variable {reader : Reader α} {blanks : List Char} {closing : Char}
  (hclosing : Closes closing) (hblanks : blanks.all isBlank = true)
include hclosing hblanks

theorem sign?_closing (rest : List Char) : sign? (blanks ++ closing :: rest) = some closing := by
  simp [sign?, dropWhile_blanks hblanks hclosing.notBlank]

theorem delimited_closing (rest : List Char) : Delimited (blanks ++ closing :: rest) := by
  cases blanks with
  | nil => exact .cons hclosing.delimits rest
  | cons c blanks =>
      have hc : isBlank c = true := by simp_all
      refine .cons ?_ _
      simp only [isBlank, Bool.or_eq_true, decide_eq_true_eq] at hc
      rcases hc with ((rfl | rfl) | rfl) | rfl <;> decide

theorem itemsWithin_apply {n : Nat} {first : List Char × α} {items : List (List Char × α)}
    (hitems : ∀ item ∈ first :: items, Reads reader item.1 item.2) (hn : items.length < n)
    (rest : List Char) :
    itemsWithin reader closing n
        (separated ((first :: items).map Prod.fst) ++ (blanks ++ closing :: rest)) =
      some ((first :: items).map Prod.snd, rest) := by
  induction items generalizing n first with
  | nil =>
      obtain ⟨n, rfl⟩ := Nat.exists_eq_add_one_of_ne_zero (Nat.ne_of_gt hn)
      have hfirst := hitems first List.mem_cons_self _ (delimited_closing hclosing hblanks rest)
      have hcomma : symbolIf ',' (blanks ++ closing :: rest) =
          some (false, blanks ++ closing :: rest) := by
        refine symbolIf_of_not ?_
        simp [sign?_closing hclosing hblanks, hclosing.notComma]
      have hclose := symbol_apply hblanks hclosing.notBlank rest
      rw [itemsWithin]
      simp [bind_apply hfirst, bind_apply hcomma, map_apply hclose]
  | cons second items ih =>
      obtain ⟨n, rfl⟩ := Nat.exists_eq_add_one_of_ne_zero (Nat.ne_of_gt (Nat.zero_lt_of_lt hn))
      have hbehind : ∀ item ∈ second :: items, Reads reader item.1 item.2 :=
        fun item hitem => hitems item (.tail _ hitem)
      have hmore := ih hbehind (Nat.lt_of_succ_lt_succ hn)
      rw [List.map_cons] at hmore
      generalize hwritten : separated (second.1 :: items.map Prod.fst) ++
        (blanks ++ closing :: rest) = more at hmore
      have hfirst := hitems first List.mem_cons_self (',' :: more) (.cons (by decide) _)
      have hcomma : symbolIf ',' (',' :: more) = some (true, more) :=
        symbolIf_apply List.all_nil (by decide) more
      rw [itemsWithin, List.map_cons, List.map_cons, separated_cons_cons, List.append_assoc,
        List.cons_append, hwritten]
      simp [bind_apply hfirst, bind_apply hcomma, map_apply hmore]

theorem list_reads (opening : Char) (hopening : isBlank opening = false)
    {items : List (List Char × α)} (hitems : ∀ item ∈ items, Reads reader item.1 item.2)
    (hbegins : ∀ item ∈ items, ∃ c, sign? item.1 = some c ∧ c ≠ closing) :
    Reads (list reader opening closing)
      (opening :: (separated (items.map Prod.fst) ++ (blanks ++ [closing])))
      (items.map Prod.snd) := by
  intro rest _
  have hopen : ∀ rest, symbol opening (opening :: rest) = some ((), rest) :=
    symbol_apply List.all_nil hopening
  simp only [List.cons_append, List.append_assoc, List.nil_append]
  rw [list, bind_apply (hopen _)]
  cases items with
  | nil =>
      have hclose := symbolIf_apply hblanks hclosing.notBlank rest
      simp [bind_apply hclose]
  | cons first items =>
      generalize hwritten : separated ((first :: items).map Prod.fst) ++
        (blanks ++ closing :: rest) = written
      have hfuel : items.length < written.length := by
        have hlength := length_le_separated first.1 (items.map Prod.fst)
        rw [← hwritten, List.map_cons]
        simp only [List.length_append, List.length_cons, List.length_map] at hlength ⊢
        omega
      have hclose : symbolIf closing written = some (false, written) := by
        obtain ⟨c, hc, hne⟩ := hbegins first List.mem_cons_self
        obtain ⟨behind, hbehind⟩ := separated_cons first.1 (items.map Prod.fst)
        refine symbolIf_of_not ?_
        rw [← hwritten, List.map_cons, hbehind, List.append_assoc, sign?_append_of_some hc]
        simp [hne]
      have hmore := itemsWithin_apply hclosing hblanks hitems hfuel rest
      rw [hwritten] at hmore
      rw [bind_apply hclose]
      exact (bind_apply (get_apply _)).trans hmore

end Lists

section Kinds

variable {nested : Reader Json}

theorem valueStep_apply (nested : Reader Json) (hc : isBlank c = false) (rest : List Char) :
    valueStep nested (c :: rest) = valueAt nested (some c) (c :: rest) := by
  have hdrop : (c :: rest).dropWhile isBlank = c :: rest := by simp [hc]
  rw [valueStep, bind_apply (skipBlanks_apply _), hdrop]
  exact bind_apply (get_apply _)

theorem Reads.behind {blanks written : List Char} {value : Json}
    (h : Reads (valueStep nested) written value) (hblanks : blanks.all isBlank = true) :
    Reads (valueStep nested) (blanks ++ written) value := by
  intro rest hrest
  have hdrop : (blanks ++ (written ++ rest)).dropWhile isBlank =
      (written ++ rest).dropWhile isBlank :=
    List.dropWhile_append_of_pos (List.all_eq_true.mp hblanks)
  rw [← h rest hrest, List.append_assoc, valueStep, bind_apply (skipBlanks_apply _),
    bind_apply (skipBlanks_apply _), hdrop]

theorem isBlank_of_isDigit (h : c.isDigit = true) : isBlank c = false := by
  cases hblank : isBlank c with
  | false => rfl
  | true =>
      simp only [isBlank, Bool.or_eq_true, decide_eq_true_eq] at hblank
      rcases hblank with ((rfl | rfl) | rfl) | rfl <;> exact absurd h (by decide)

theorem valueAt_digit (hdigit : c.isDigit = true) : valueAt nested (some c) = number := by
  unfold valueAt
  split
  all_goals first
    | rfl
    | (rename_i heq; cases heq; exact absurd hdigit (by decide))

theorem valueStep_string (nested : Reader Json) (text : String) :
    Reads (valueStep nested) (JsonText.quote text).toList (.string text) := by
  intro rest _
  have hstring := string_quote text rest
  rw [toList_quote, List.cons_append] at hstring ⊢
  have hquote : isBlank '"' = false := by decide
  have hvalue := valueStep_apply nested hquote
  exact (hvalue _).trans ((bind_apply hstring).trans (pure_apply _ _))

theorem valueStep_number (nested : Reader Json) (n : Nat) :
    Reads (valueStep nested) (toString n).toList (ofNat n) := by
  intro rest hrest
  have hnumber := number_apply n hrest
  obtain ⟨digit, digits, hdigits⟩ :=
    List.exists_cons_of_ne_nil (Nat.toDigits_ne_nil (b := 10) (n := n))
  have hdigit : digit.isDigit = true := toDigits_isDigit n digit (by simp [hdigits])
  have hvalue := valueStep_apply nested (isBlank_of_isDigit hdigit) (digits ++ rest)
  rw [valueAt_digit hdigit] at hvalue
  rw [Nat.toString_eq_ofList_toDigits, String.toList_ofList]
  rw [hdigits] at hnumber ⊢
  exact hvalue.trans hnumber

section Nested

variable {blanks : List Char} (hblanks : blanks.all isBlank = true)
include hblanks

theorem valueStep_array {items : List (List Char × Json)}
    (hitems : ∀ item ∈ items, Reads nested item.1 item.2)
    (hbegins : ∀ item ∈ items, ∃ c, sign? item.1 = some c ∧ c ≠ ']') :
    Reads (valueStep nested) ('[' :: (separated (items.map Prod.fst) ++ (blanks ++ [']'])))
      (.array (items.map Prod.snd)) := by
  intro rest hrest
  have hopening : isBlank '[' = false := by decide
  have hlist := list_reads ⟨by decide, by decide, by decide⟩ hblanks '[' hopening hitems
    hbegins rest hrest
  have hvalue := valueStep_apply nested hopening
    (separated (items.map Prod.fst) ++ (blanks ++ [']']) ++ rest)
  exact hvalue.trans ((bind_apply hlist).trans (pure_apply _ _))

theorem valueStep_object {members : List (List Char × String × Json)}
    (hmembers : ∀ item ∈ members, Reads (member nested) item.1 item.2)
    (hbegins : ∀ item ∈ members, ∃ c, sign? item.1 = some c ∧ c ≠ '\x7d') :
    Reads (valueStep nested)
      ('\x7b' :: (separated (members.map Prod.fst) ++ (blanks ++ ['\x7d'])))
      (.object (members.map Prod.snd)) := by
  intro rest hrest
  have hopening : isBlank '\x7b' = false := by decide
  have hlist := list_reads ⟨by decide, by decide, by decide⟩ hblanks '\x7b' hopening hmembers
    hbegins rest hrest
  have hvalue := valueStep_apply nested hopening
    (separated (members.map Prod.fst) ++ (blanks ++ ['\x7d']) ++ rest)
  exact hvalue.trans ((bind_apply hlist).trans (pure_apply _ _))

theorem member_reads {written : List Char} {value : Json} (key : String)
    (hvalue : Reads nested written value) :
    Reads (member nested) (blanks ++ ((JsonText.quote key).toList ++ ':' :: written))
      (key, value) := by
  intro rest hrest
  have hkey := string_quote key (':' :: written ++ rest)
  have hcolon : symbol ':' (':' :: written ++ rest) = some ((), written ++ rest) :=
    symbol_apply List.all_nil (by decide) _
  have hskip : skipBlanks (blanks ++ ((JsonText.quote key).toList ++ ':' :: written) ++ rest) =
      some ((), (JsonText.quote key).toList ++ (':' :: written ++ rest)) := by
    have hquote : isBlank '"' = false := by decide
    rw [skipBlanks_apply, toList_quote]
    simp only [List.append_assoc, List.cons_append, dropWhile_blanks hblanks hquote]
  rw [member, bind_apply hskip, bind_apply hkey, bind_apply hcolon]
  exact (bind_apply (hvalue rest hrest)).trans (pure_apply _ _)

end Nested

end Kinds

end TolerantSyntax.Json.Reader
