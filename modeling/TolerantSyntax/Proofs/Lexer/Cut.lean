import Mathlib.Data.String.Basic
import TolerantSyntax.Token.Lexeme

/-!
# Spans that cut a text

Spans cut a text when each begins where the one before ends, the first at a given offset,
and each is as long as its part of the text.  All their ends are character boundaries
then, so that the slices under them give the text back.
-/

namespace TolerantSyntax

theorem Lexeme.byteLength_append (left right : List Char) :
    byteLength (left ++ right) = byteLength left + byteLength right := by
  induction left with
  | nil => simp [byteLength]
  | cons c left ih =>
      change c.utf8Size + byteLength (left ++ right) = c.utf8Size + byteLength left + _
      rw [ih, Nat.add_assoc]

theorem Lexeme.byteLength_eq_utf8Len (cs : List Char) : byteLength cs = String.utf8Len cs := by
  induction cs with
  | nil => rfl
  | cons c cs ih =>
      change c.utf8Size + byteLength cs = _
      rw [ih, String.utf8Len_cons, Nat.add_comm]

theorem Lexeme.byteLength_toList (text : String) :
    byteLength text.toList = text.utf8ByteSize := by
  rw [byteLength_eq_utf8Len, String.utf8Len_toList]

namespace Span

open Lexeme (byteLength byteLength_append byteLength_eq_utf8Len)

def Cut : List Span → Nat → List Char → Prop
  | [], _, cs => cs = []
  | span :: rest, offset, cs => ∃ text behind, cs = text ++ behind ∧
      span = ⟨offset, offset + byteLength text⟩ ∧ Cut rest span.stop behind

theorem cut_append {left right : List Span} {offset : Nat} {cs : List Char} :
    Cut (left ++ right) offset cs ↔ ∃ text behind, cs = text ++ behind ∧
      Cut left offset text ∧ Cut right (offset + byteLength text) behind := by
  induction left generalizing offset cs with
  | nil =>
      constructor
      · intro h
        exact ⟨[], cs, rfl, rfl, h⟩
      · rintro ⟨text, behind, rfl, rfl, h⟩
        exact h
  | cons span rest ih =>
      constructor
      · rintro ⟨text, behind, rfl, rfl, h⟩
        obtain ⟨middle, last, rfl, hrest, hright⟩ := ih.mp h
        refine ⟨text ++ middle, last, by simp, ⟨text, middle, rfl, rfl, hrest⟩, ?_⟩
        rw [byteLength_append, ← Nat.add_assoc]
        exact hright
      · rintro ⟨_, last, rfl, ⟨text, middle, rfl, rfl, hrest⟩, hright⟩
        rw [byteLength_append, ← Nat.add_assoc] at hright
        refine ⟨text, middle ++ last, by simp, rfl, ?_⟩
        exact ih.mpr ⟨middle, last, rfl, hrest, hright⟩

theorem Cut.last_stop {spans : List Span} {offset : Nat} {cs : List Char}
    (h : Cut spans offset cs) :
    (spans.getLast?.map (·.stop)).getD offset = offset + byteLength cs := by
  rcases List.eq_nil_or_concat spans with rfl | ⟨init, last, rfl⟩
  · rw [show cs = [] from h]
    rfl
  · rw [List.concat_eq_append] at h ⊢
    obtain ⟨text, behind, rfl, -, final, rest, rfl, rfl, rfl⟩ := cut_append.mp h
    simp [byteLength_append, Nat.add_assoc]

theorem Cut.place {spans : List Span} {offset : Nat} {cs : List Char}
    (h : Cut spans offset cs) {span : Span} (hmem : span ∈ spans) :
    ∃ before own behind, cs = before ++ own ++ behind ∧
      span = ⟨offset + byteLength before, offset + byteLength before + byteLength own⟩ := by
  obtain ⟨left, right, rfl⟩ := List.append_of_mem hmem
  obtain ⟨before, _, rfl, -, own, behind, rfl, rfl, -⟩ := cut_append.mp h
  exact ⟨before, own, behind, by simp, rfl⟩

theorem Cut.ordered {spans : List Span} {offset : Nat} {cs : List Char}
    (h : Cut spans offset cs) : spans.Pairwise (·.stop ≤ ·.start) := by
  induction spans generalizing offset cs with
  | nil => exact .nil
  | cons span rest ih =>
      obtain ⟨text, behind, rfl, rfl, hrest⟩ := h
      refine List.pairwise_cons.mpr ⟨fun later hlater => ?_, ih hrest⟩
      obtain ⟨before, own, after, -, rfl⟩ := hrest.place hlater
      exact Nat.le_add_right _ _

structure Within (span : Span) (text : String) : Prop where
  forward : span.start ≤ span.stop
  start : (String.Pos.Raw.mk span.start).IsValid text
  stop : (String.Pos.Raw.mk span.stop).IsValid text

theorem Within.behind {span : Span} {text : String} (h : span.Within text) :
    (point span.stop).Within text := ⟨Nat.le_refl _, h.stop, h.stop⟩

theorem isValid_of_append (before behind : List Char) :
    (String.Pos.Raw.mk (byteLength before)).IsValid (String.ofList (before ++ behind)) := by
  rw [String.Pos.Raw.isValid_iff_exists_append]
  refine ⟨String.ofList before, String.ofList behind, String.ofList_append, ?_⟩
  rw [String.rawEndPos_ofList, byteLength_eq_utf8Len]

theorem Cut.within {spans : List Span} {source : String} (h : Cut spans 0 source.toList)
    {span : Span} (hmem : span ∈ spans) : span.Within source := by
  obtain ⟨before, own, behind, heq, rfl⟩ := h.place hmem
  have hsource : source = String.ofList (before ++ (own ++ behind)) := by
    rw [← List.append_assoc, ← heq, String.ofList_toList]
  simp only [Nat.zero_add]
  refine ⟨Nat.le_add_right _ _, ?_, ?_⟩
  · rw [hsource]
    exact isValid_of_append _ _
  · rw [hsource, ← List.append_assoc, ← byteLength_append]
    exact isValid_of_append _ _

theorem slice_of_append (before text behind : List Char) :
    slice ⟨byteLength before, byteLength before + byteLength text⟩
      (String.ofList (before ++ text ++ behind)) = String.ofList text := by
  have hstart := isValid_of_append before (text ++ behind)
  have hstop := isValid_of_append (before ++ text) behind
  rw [← List.append_assoc, ← String.Pos.Raw.isValid_eq_true_iff] at hstart
  rw [byteLength_append, ← String.Pos.Raw.isValid_eq_true_iff] at hstop
  simp only [slice, hstart, hstop, Nat.le_add_right, decide_true, Bool.and_true, if_true]
  rw [byteLength_eq_utf8Len, byteLength_eq_utf8Len, String.extract_of_valid]

theorem Cut.slices {spans : List Span} {cs : List Char} (before : List Char)
    (h : Cut spans (byteLength before) cs) :
    String.join (spans.map (·.slice (String.ofList (before ++ cs)))) = String.ofList cs := by
  induction spans generalizing before cs with
  | nil =>
      rw [show cs = [] from h]
      rfl
  | cons span rest ih =>
      obtain ⟨text, behind, rfl, rfl, hrest⟩ := h
      have hrest' : Cut rest (byteLength (before ++ text)) behind := by
        rw [byteLength_append]
        exact hrest
      have hjoin := ih _ hrest'
      rw [List.append_assoc] at hjoin
      rw [List.map_cons, ← List.append_assoc, slice_of_append, List.append_assoc]
      rw [String.join_eq] at hjoin ⊢
      rw [List.map_cons, List.flatten_cons, String.ofList_append, hjoin,
        String.toList_ofList, ← String.ofList_append]

theorem Cut.join_slices {spans : List Span} {source : String} (h : Cut spans 0 source.toList) :
    String.join (spans.map (·.slice source)) = source := by
  have hslices := Cut.slices [] h
  rwa [List.nil_append, String.ofList_toList] at hslices

end Span
end TolerantSyntax
