import TolerantSyntax.Command.Options
import TolerantSyntax.Proofs.Json.Sealed

/-!
# Reports are faithful

A report for tools is JSON, whatever the diagnostics are: an array with an object for each of
them, in their order, and every field of an object has the value it stands for.  No control
character stands as it is in one of its strings.
-/

namespace TolerantSyntax

open Json.Reader (separated Reads sign? valueStep)

/-- The object that stands for a diagnostic. -/
def Diagnostic.toJson (source : String) (diagnostic : Diagnostic) : Json :=
  let position := positionIn source diagnostic.span.start
  .object
    [("id", .string diagnostic.code.id),
     ("code", .string diagnostic.code.number),
     ("severity", .string diagnostic.severity.name),
     ("message", .string diagnostic.message),
     ("args", .array (diagnostic.args.map .string)),
     ("start", .ofNat diagnostic.span.start),
     ("end", .ofNat diagnostic.span.stop),
     ("line", .ofNat position.line),
     ("column", .ofNat position.column)]

section Text

open JsonReport

theorem JsonReport.toList_array (items : List String) :
    (array items).toList = '[' :: (separated (items.map String.toList) ++ ([] ++ [']'])) := by
  simp [array, separated]

theorem JsonReport.toList_field {key : String} (h : key.toList.flatMap JsonText.escape = key.toList)
    (value : String) :
    '\n' :: (field key value).toList =
      "\n    ".toList ++ ((JsonText.quote key).toList ++ ':' :: (" ".toList ++ value.toList)) := by
  simp [field, JsonText.quote, h]

theorem JsonReport.toList_intercalate_lines (first : String) (texts : List String) :
    '\n' :: (String.intercalate ",\n" (first :: texts)).toList =
      separated ((first :: texts).map fun text => '\n' :: text.toList) := by
  induction texts generalizing first with
  | nil => simp [separated]
  | cons second texts ih =>
      have hmore := ih second
      rw [List.map_cons] at hmore
      rw [List.map_cons, List.map_cons, Json.Reader.separated_cons_cons, ← hmore]
      simp [String.toList_intercalate]

theorem JsonReport.toList_object (report : JsonReport) (diagnostic : Diagnostic) :
    (report.object diagnostic).toList =
      "  ".toList ++ '\x7b' ::
        (separated ((report.fields diagnostic).map fun field => '\n' :: field.toList) ++
          ("\n  ".toList ++ ['\x7d'])) := by
  have hlines := toList_intercalate_lines (field "id" (JsonText.quote diagnostic.code.id))
    (report.fields diagnostic).tail
  have hfields : field "id" (JsonText.quote diagnostic.code.id) ::
      (report.fields diagnostic).tail = report.fields diagnostic := rfl
  rw [hfields] at hlines
  rw [← hlines]
  simp [object]

theorem JsonReport.addAll_lines (report : JsonReport) (h : report.isEmpty = false)
    (first : Diagnostic) (diagnostics : List Diagnostic) :
    '\n' :: ((report.object first).toList ++ (report.addAll diagnostics).1.toList) =
        separated ((first :: diagnostics).map fun diagnostic =>
          '\n' :: (report.object diagnostic).toList) ∧
      (report.addAll diagnostics).2.isEmpty = false := by
  induction diagnostics generalizing first with
  | nil => simp [addAll, h]
  | cons second diagnostics ih =>
      have hreport : { report with isEmpty := false } = report := by rw [← h]
      obtain ⟨htext, hempty⟩ := ih second
      rw [List.map_cons] at htext
      rw [List.map_cons, List.map_cons, Json.Reader.separated_cons_cons, ← htext]
      simp [addAll, add, next, h, hreport, hempty]

def JsonReport.block (source : String) (diagnostic : Diagnostic) : List Char :=
  '\n' :: ((ofSource source).object diagnostic).toList

/-- The whole report: the objects on lines of their own with commas between them. -/
theorem JsonReport.toList_render (source : String) (diagnostics : List Diagnostic) :
    ((ofSource source).render diagnostics).toList =
      '[' :: (separated (diagnostics.map (block source)) ++ ("\n".toList ++ [']'])) ++
        ['\n'] := by
  cases diagnostics with
  | nil => simp [render, addAll, opening, closing, ofSource]
  | cons first diagnostics =>
      obtain ⟨htext, hempty⟩ :=
        addAll_lines { ofSource source with isEmpty := false } rfl first diagnostics
      have hblocks : '\n' :: (((ofSource source).object first).toList ++
          ({ ofSource source with isEmpty := false }.addAll diagnostics).1.toList) =
            separated ((first :: diagnostics).map (block source)) := htext
      rw [← hblocks]
      have hfirst : (ofSource source).isEmpty = true := rfl
      simp [render, addAll, add, next, opening, closing, hempty, hfirst]

end Text

/-! ## Fields and objects -/

def Diagnostic.jsonFields (source : String) (diagnostic : Diagnostic) :
    List (String × String × Json) :=
  let position := positionIn source diagnostic.span.start
  let text (value : String) := (JsonText.quote value, Json.string value)
  let numeral (n : Nat) := (toString n, Json.ofNat n)
  [("id", text diagnostic.code.id),
   ("code", text diagnostic.code.number),
   ("severity", text diagnostic.severity.name),
   ("message", text diagnostic.message),
   ("args", JsonReport.array (diagnostic.args.map JsonText.quote),
     .array (diagnostic.args.map .string)),
   ("start", numeral diagnostic.span.start),
   ("end", numeral diagnostic.span.stop),
   ("line", numeral position.line),
   ("column", numeral position.column)]

/-- A key needs no escapes, and the value is read back and sealed. -/
structure FaithfulField (nested : Json.Reader Json) (key text : String) (value : Json) : Prop where
  key : key.toList.flatMap JsonText.escape = key.toList
  reads : Reads (valueStep (valueStep nested)) text.toList value
  seals : Sealed.Written text.toList

namespace FaithfulField

variable {nested : Json.Reader Json} {key : String}
  (hkey : key.toList.flatMap JsonText.escape = key.toList)
include hkey

theorem text (value : String) :
    FaithfulField nested key (JsonText.quote value) (.string value) where
  key := hkey
  reads := Json.Reader.valueStep_string _ value
  seals := .quote value

theorem numeral (n : Nat) : FaithfulField nested key (toString n) (.ofNat n) where
  key := hkey
  reads := Json.Reader.valueStep_number _ n
  seals := by
    refine .plain fun hmem => ?_
    rw [Nat.toString_eq_ofList_toDigits, String.toList_ofList] at hmem
    exact absurd (Json.Reader.toDigits_isDigit n _ hmem) (by decide)

theorem texts (values : List String) :
    FaithfulField nested key (JsonReport.array (values.map JsonText.quote))
      (.array (values.map .string)) where
  key := hkey
  reads := by
    let items := values.map fun value => ((JsonText.quote value).toList, Json.string value)
    have hreads : ∀ item ∈ items, Reads (valueStep nested) item.1 item.2 := by
      simp only [items, List.mem_map]
      rintro _ ⟨value, -, rfl⟩
      exact Json.Reader.valueStep_string nested value
    have hbegins : ∀ item ∈ items, ∃ c, sign? item.1 = some c ∧ c ≠ ']' := by
      simp only [items, List.mem_map]
      rintro _ ⟨value, -, rfl⟩
      refine ⟨'"', ?_, by decide⟩
      rw [Json.Reader.toList_quote]
      rfl
    have harray := Json.Reader.valueStep_array List.all_nil hreads hbegins
    rw [JsonReport.toList_array]
    simpa [items, Function.comp_def] using harray
  seals := by
    have hitems : Sealed.Written (separated ((values.map JsonText.quote).map String.toList)) := by
      refine .separated ?_
      simp only [List.map_map, List.mem_map]
      rintro _ ⟨value, -, rfl⟩
      exact .quote value
    have hopening : Sealed.Written ['['] := .plain (by decide)
    rw [JsonReport.toList_array]
    exact hopening.append (hitems.append (.plain (by decide)))

end FaithfulField

theorem Diagnostic.jsonFields_faithful (nested : Json.Reader Json) (source : String)
    (diagnostic : Diagnostic) :
    ∀ field ∈ diagnostic.jsonFields source, FaithfulField nested field.1 field.2.1 field.2.2 := by
  simp only [jsonFields, List.forall_mem_cons, List.not_mem_nil, false_imp_iff, implies_true,
    and_true]
  exact ⟨.text rfl _, .text rfl _, .text rfl _, .text rfl _, .texts rfl _, .numeral rfl _,
    .numeral rfl _, .numeral rfl _, .numeral rfl _⟩

theorem JsonReport.fields_eq (source : String) (diagnostic : Diagnostic) :
    (ofSource source).fields diagnostic =
      (diagnostic.jsonFields source).map fun field => JsonReport.field field.1 field.2.1 := rfl

theorem Diagnostic.toJson_eq (source : String) (diagnostic : Diagnostic) :
    diagnostic.toJson source =
      .object ((diagnostic.jsonFields source).map fun field => (field.1, field.2.2)) := rfl

def JsonReport.line (field : String × String × Json) : List Char :=
  '\n' :: (JsonReport.field field.1 field.2.1).toList

section Line

variable {nested : Json.Reader Json} {field : String × String × Json}
  (h : FaithfulField nested field.1 field.2.1 field.2.2)
include h

theorem JsonReport.line_reads :
    Reads (Json.Reader.member (valueStep (valueStep nested))) (line field)
      (field.1, field.2.2) := by
  have hspace : [' '].all Json.Reader.isBlank = true := rfl
  rw [line, toList_field h.key]
  exact Json.Reader.member_reads (by decide) field.1 (h.reads.behind hspace)

theorem JsonReport.sign?_line : sign? (line field) = some '"' := by
  rw [line, toList_field h.key, Json.Reader.toList_quote, sign?, List.cons_append,
    Json.Reader.dropWhile_blanks (by decide) (by decide)]
  rfl

theorem JsonReport.line_sealed : Sealed.Written (line field) := by
  have hcolon : Sealed.Written [':', ' '] := .plain (by decide)
  have hvalue : Sealed.Written (':' :: (" ".toList ++ field.2.1.toList)) := hcolon.append h.seals
  rw [line, toList_field h.key]
  exact (Sealed.Written.plain (by decide)).append ((Sealed.Written.quote field.1).append hvalue)

end Line

section Block

variable (source : String) (diagnostic : Diagnostic)

theorem JsonReport.block_eq :
    block source diagnostic = "\n  ".toList ++ '\x7b' ::
      (separated ((diagnostic.jsonFields source).map line) ++ ("\n  ".toList ++ ['\x7d'])) := by
  have hlines : ((ofSource source).fields diagnostic).map (fun field => '\n' :: field.toList) =
      (diagnostic.jsonFields source).map line := by
    rw [fields_eq, List.map_map]
    rfl
  simp [block, toList_object, hlines]

theorem JsonReport.block_reads (nested : Json.Reader Json) :
    Reads (valueStep (valueStep (valueStep nested))) (block source diagnostic)
      (diagnostic.toJson source) := by
  have hfaithful := diagnostic.jsonFields_faithful nested source
  let members := (diagnostic.jsonFields source).map fun field => (line field, field.1, field.2.2)
  have hreads : ∀ item ∈ members,
      Reads (Json.Reader.member (valueStep (valueStep nested))) item.1 item.2 := by
    simp only [members, List.mem_map]
    rintro _ ⟨field, hfield, rfl⟩
    exact line_reads (hfaithful field hfield)
  have hbegins : ∀ item ∈ members, ∃ c, sign? item.1 = some c ∧ c ≠ '\x7d' := by
    simp only [members, List.mem_map]
    rintro _ ⟨field, hfield, rfl⟩
    exact ⟨'"', sign?_line (hfaithful field hfield), by decide⟩
  have hblanks : "\n  ".toList.all Json.Reader.isBlank = true := by decide
  have hobject := Json.Reader.valueStep_object hblanks hreads hbegins
  rw [block_eq, Diagnostic.toJson_eq]
  simp only [members, List.map_map, Function.comp_def] at hobject
  exact hobject.behind hblanks

theorem JsonReport.sign?_block : sign? (block source diagnostic) = some '\x7b' := by
  rw [block_eq, sign?, Json.Reader.dropWhile_blanks (by decide) (by decide)]
  rfl

theorem JsonReport.block_sealed : Sealed.Written (block source diagnostic) := by
  have hlines : Sealed.Written (separated ((diagnostic.jsonFields source).map line)) := by
    refine .separated ?_
    simp only [List.mem_map]
    rintro _ ⟨field, hfield, rfl⟩
    exact line_sealed (diagnostic.jsonFields_faithful Json.Reader.number source field hfield)
  have hclosing : Sealed.Written ("\n  ".toList ++ ['\x7d']) := .plain (by decide)
  have hopening : Sealed.Written ("\n  ".toList ++ ['\x7b']) := .plain (by decide)
  rw [block_eq]
  simpa using hopening.append (hlines.append hclosing)

end Block

/-! ## Reports -/

section Report

variable (source : String) (diagnostics : List Diagnostic)

theorem JsonReport.render_reads (nested : Json.Reader Json) :
    valueStep (valueStep (valueStep (valueStep nested)))
        ((ofSource source).render diagnostics).toList =
      some (.array (diagnostics.map (·.toJson source)), ['\n']) := by
  let items := diagnostics.map fun diagnostic =>
    (block source diagnostic, diagnostic.toJson source)
  have hreads : ∀ item ∈ items,
      Reads (valueStep (valueStep (valueStep nested))) item.1 item.2 := by
    simp only [items, List.mem_map]
    rintro _ ⟨diagnostic, -, rfl⟩
    exact block_reads source diagnostic nested
  have hbegins : ∀ item ∈ items, ∃ c, sign? item.1 = some c ∧ c ≠ ']' := by
    simp only [items, List.mem_map]
    rintro _ ⟨diagnostic, -, rfl⟩
    exact ⟨'\x7b', sign?_block source diagnostic, by decide⟩
  have hblanks : ['\n'].all Json.Reader.isBlank = true := rfl
  have harray := Json.Reader.valueStep_array hblanks hreads hbegins
  simp only [items, List.map_map, Function.comp_def] at harray
  rw [toList_render]
  exact harray ['\n'] (.cons (by decide) [])

theorem JsonReport.render_sealed :
    Sealed ((ofSource source).render diagnostics).toList := by
  have hblocks : Sealed.Written (separated (diagnostics.map (block source))) := by
    refine .separated ?_
    simp only [List.mem_map]
    rintro _ ⟨diagnostic, -, rfl⟩
    exact block_sealed source diagnostic
  have hclosing : Sealed.Written ("\n".toList ++ [']'] ++ ['\n']) := .plain (by decide)
  have hopening : Sealed.Written ['['] := .plain (by decide)
  have hall := (hopening.append (hblocks.append hclosing)).sealed
  rw [toList_render]
  simpa using hall

theorem JsonReport.four_le_length : 4 ≤ ((ofSource source).render diagnostics).length := by
  rw [← String.length_toList, toList_render]
  simp

end Report

/-- A report for tools is read back as an array with the object of each diagnostic, in their
order, and no control character stands inside one of its strings. -/
theorem CommandOptions.report_json (options : CommandOptions) (path source : String)
    (diagnostics : List Diagnostic) :
    let text := { options with format := .json }.report path source diagnostics
    Json.read? text = some (.array (diagnostics.map (·.toJson source))) ∧ Sealed text.toList := by
  intro text
  have htext : text = (JsonReport.ofSource source).render diagnostics := rfl
  refine ⟨?_, htext ▸ JsonReport.render_sealed source diagnostics⟩
  -- The objects hold arrays of strings: no value of a report is nested more deeply.
  obtain ⟨depth, hdepth⟩ := Nat.exists_eq_add_of_le' (JsonReport.four_le_length source diagnostics)
  have hread := JsonReport.render_reads source diagnostics (Json.Reader.valueWithin depth)
  have hvalue : Json.Reader.valueWithin text.length text.toList =
      some (.array (diagnostics.map (·.toJson source)), ['\n']) := by
    rw [htext, hdepth]
    exact hread
  rw [Json.read?, hvalue]
  rfl

end TolerantSyntax
