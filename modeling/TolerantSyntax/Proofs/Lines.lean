import Mathlib.Data.List.DropRight
import TolerantSyntax.Proofs.Lexer.Cut
import TolerantSyntax.Text.Lines

/-!
# Positions are counted

A line table holds the offset behind every line feed, so that the entries up to an offset are as
many as the line feeds in front of it, and one for the first line.  Bisection finds them.  The
position of an offset is then the one that counting gives, whatever the width of the characters.
-/

namespace TolerantSyntax

open Lexeme (byteLength byteLength_append byteLength_toList)

def fullLines (text : List Char) : List Char := text.rdropWhile (· != '\n')

def lastLine (text : List Char) : List Char := text.rtakeWhile (· != '\n')

theorem fullLines_append_lastLine (text : List Char) : fullLines text ++ lastLine text = text :=
  List.rdropWhile_append_rtakeWhile

theorem fullLines_concat (text : List Char) (c : Char) :
    fullLines (text ++ [c]) = if c = '\n' then text ++ [c] else fullLines text := by
  simp [fullLines, List.rdropWhile_concat]

theorem lastLine_append {before middle : List Char} (h : '\n' ∉ middle) :
    lastLine (before ++ middle) = lastLine before ++ middle := by
  have hall : ∀ c ∈ middle.reverse, (c != '\n') = true := by
    intro c hmem
    rw [List.mem_reverse] at hmem
    simpa using ne_of_mem_of_not_mem hmem h
  rw [lastLine, lastLine, List.rtakeWhile, List.reverse_append, List.takeWhile_append_of_pos hall,
    List.reverse_append, List.reverse_reverse, List.rtakeWhile]

namespace Position

/-- The position behind a text, by counting its line feeds and the characters behind the last
of them. -/
def count (text : List Char) : Position := ⟨text.count '\n' + 1, (lastLine text).length + 1⟩

/-- Earlier in the order of reading. -/
def Before (first second : Position) : Prop :=
  first.line < second.line ∨ first.line = second.line ∧ first.column < second.column

theorem count_before (text : List Char) {middle : List Char} (h : middle ≠ []) :
    (count text).Before (count (text ++ middle)) := by
  by_cases hfeed : '\n' ∈ middle
  · left
    have hpos : 0 < middle.count '\n' := List.count_pos_iff.mpr hfeed
    simp only [count, List.count_append]
    omega
  · right
    have hlength := List.length_pos_iff.mpr h
    simp only [count, List.count_append, List.count_eq_zero.mpr hfeed, lastLine_append hfeed,
      List.length_append, Nat.add_zero, true_and]
    omega

end Position

namespace LineTable

theorem startsAfter_cons (offset : Nat) (c : Char) (cs : List Char) :
    startsAfter offset (c :: cs) =
      (if c = '\n' then [offset + c.utf8Size] else []) ++ startsAfter (offset + c.utf8Size) cs := by
  simp only [startsAfter]
  split <;> rfl

theorem startsAfter_append (offset : Nat) (left right : List Char) :
    startsAfter offset (left ++ right) =
      startsAfter offset left ++ startsAfter (offset + byteLength left) right := by
  induction left generalizing offset with
  | nil => rfl
  | cons c left ih =>
      have hlength : offset + byteLength (c :: left) = offset + c.utf8Size + byteLength left :=
        (Nat.add_assoc ..).symm
      rw [List.cons_append, startsAfter_cons, startsAfter_cons, ih, hlength, List.append_assoc]

theorem length_startsAfter (offset : Nat) (cs : List Char) :
    (startsAfter offset cs).length = cs.count '\n' := by
  induction cs generalizing offset with
  | nil => rfl
  | cons c cs ih =>
      rw [startsAfter_cons, List.length_append, ih, List.count_cons]
      by_cases hc : c = '\n' <;> simp [hc, Nat.add_comm]

theorem mem_startsAfter {offset start : Nat} {cs : List Char} (h : start ∈ startsAfter offset cs) :
    offset < start ∧ start ≤ offset + byteLength cs := by
  induction cs generalizing offset with
  | nil => cases h
  | cons c cs ih =>
      have hlength : offset + byteLength (c :: cs) = offset + c.utf8Size + byteLength cs :=
        (Nat.add_assoc ..).symm
      have hpos := c.utf8Size_pos
      rw [startsAfter_cons, List.mem_append] at h
      rcases h with h | h
      · have hstart : start = offset + c.utf8Size := by
          split at h
          · exact List.mem_singleton.mp h
          · cases h
        omega
      · obtain ⟨hlt, hle⟩ := ih h
        omega

theorem getLast_startsAfter (offset : Nat) (cs : List Char) :
    (startsAfter offset cs).getLast?.getD offset = offset + byteLength (fullLines cs) := by
  induction cs using List.reverseRecOn with
  | nil => rfl
  | append_singleton cs c ih =>
      have hone : byteLength [c] = c.utf8Size := rfl
      rw [startsAfter_append, startsAfter_cons, fullLines_concat]
      split
      · simp [startsAfter, byteLength_append, hone, Nat.add_assoc]
      · simpa [startsAfter] using ih

theorem countUpTo_eq {starts : Array Nat} {offset low high count : Nat} (hlow : low ≤ count)
    (hhigh : count ≤ high) (hbelow : ∀ index < count, starts.getD index 0 ≤ offset)
    (habove : ∀ index, count ≤ index → index < high → offset < starts.getD index 0) :
    countUpTo starts offset low high = count := by
  fun_induction countUpTo starts offset low high with
  | case1 low high hlt middle hle ih =>
      refine ih ?_ hhigh habove
      by_contra hmiddle
      have hgt := habove middle (by omega) (by omega)
      omega
  | case2 low high hlt middle hgt ih =>
      refine ih hlow ?_ fun index hcount hmiddle => habove index hcount (by omega)
      by_contra hmiddle
      have hle := hbelow middle (by omega)
      omega
  | case3 low high hge => omega

/-- Bisection counts the entries in front of those that lie behind the offset. -/
theorem countUpTo_append {left right : List Nat} {offset : Nat}
    (hleft : ∀ start ∈ left, start ≤ offset) (hright : ∀ start ∈ right, offset < start) :
    countUpTo (left ++ right).toArray offset 0 (left ++ right).toArray.size = left.length := by
  refine countUpTo_eq (Nat.zero_le _) (by simp) ?_ ?_
  · intro index hindex
    simp only [Array.getD_eq_getD_getElem?, List.getElem?_toArray, List.getElem?_append_left hindex,
      List.getElem?_eq_getElem hindex, Option.getD_some]
    exact hleft _ (List.getElem_mem hindex)
  · intro index hcount hindex
    have hbehind : index - left.length < right.length := by
      simp only [List.size_toArray, List.length_append] at hindex
      omega
    simp only [Array.getD_eq_getD_getElem?, List.getElem?_toArray,
      List.getElem?_append_right hcount, List.getElem?_eq_getElem hbehind, Option.getD_some]
    exact hright _ (List.getElem_mem hbehind)

theorem lineCount_ofText (source : String) :
    (ofText source).lineCount = source.toList.count '\n' + 1 := by
  simp [lineCount, ofText, length_startsAfter]

theorem isSome_lineStart? (table : LineTable) (line : Nat) :
    (table.lineStart? line).isSome ↔ 1 ≤ line ∧ line ≤ table.lineCount := by
  unfold lineStart? lineCount
  split
  · simp_all
  · rw [isSome_getElem?]
    omega

section Place

variable {source : String} {before behind : List Char} (hsource : source.toList = before ++ behind)
include hsource

theorem starts_of_append :
    (ofText source).starts =
      ((0 :: startsAfter 0 before) ++ startsAfter (byteLength before) behind).toArray := by
  rw [ofText, hsource, startsAfter_append, Nat.zero_add, List.cons_append]

theorem lineAt_of_append {offset : Nat} (hoffset : byteLength before ≤ offset)
    (hbehind : ∀ start ∈ startsAfter (byteLength before) behind, offset < start) :
    (ofText source).lineAt offset = before.count '\n' + 1 := by
  have hbefore : ∀ start ∈ 0 :: startsAfter 0 before, start ≤ offset := by
    intro start hmem
    rcases List.mem_cons.mp hmem with rfl | hmem
    · exact Nat.zero_le _
    · obtain ⟨-, hle⟩ := mem_startsAfter hmem
      omega
  rw [lineAt, starts_of_append hsource, countUpTo_append hbefore hbehind, List.length_cons,
    length_startsAfter]
  exact Nat.max_eq_left (Nat.le_add_left 1 _)

theorem lineStart?_of_append :
    (ofText source).lineStart? (before.count '\n' + 1) = some (byteLength (fullLines before)) := by
  have hlength : before.count '\n' = (0 :: startsAfter 0 before).length - 1 := by
    rw [List.length_cons, length_startsAfter, Nat.add_sub_cancel]
  have hlast : (0 :: startsAfter 0 before)[before.count '\n']? =
      some (byteLength (fullLines before)) := by
    rw [hlength, ← List.getLast?_eq_getElem?, List.getLast?_cons, getLast_startsAfter,
      Nat.zero_add]
  have hindex : before.count '\n' < (0 :: startsAfter 0 before).length := by
    rw [List.length_cons, length_startsAfter]
    exact Nat.lt_succ_self _
  rw [lineStart?, if_neg (Nat.succ_ne_zero _), Nat.add_sub_cancel, starts_of_append hsource,
    List.getElem?_toArray, List.getElem?_append_left hindex, hlast]

theorem slice_lastLine :
    Span.slice ⟨byteLength (fullLines before), byteLength before⟩ source =
      String.ofList (lastLine before) := by
  have hbefore := fullLines_append_lastLine before
  have hlength := congrArg byteLength hbefore
  rw [byteLength_append] at hlength
  have hslice := Span.slice_of_append (fullLines before) (lastLine before) behind
  rwa [hbefore, ← hsource, String.ofList_toList, hlength] at hslice

theorem position_of_append {offset : Nat} (hoffset : byteLength before ≤ offset)
    (hbehind : ∀ start ∈ startsAfter (byteLength before) behind, offset < start)
    (hstop : min offset source.utf8ByteSize = byteLength before) :
    positionIn source offset = .count before := by
  simp only [positionIn, position, lineAt_of_append hsource hoffset hbehind,
    lineStart?_of_append hsource, Option.getD_some, hstop, slice_lastLine hsource,
    String.length_ofList, Position.count]

theorem position_boundary : positionIn source (byteLength before) = .count before := by
  refine position_of_append hsource (Nat.le_refl _) (fun start hmem => (mem_startsAfter hmem).1) ?_
  rw [← byteLength_toList, hsource, byteLength_append]
  exact Nat.min_eq_left (Nat.le_add_right _ _)

end Place

theorem position_beyond {source : String} {offset : Nat} (h : source.utf8ByteSize ≤ offset) :
    positionIn source offset = .count source.toList := by
  have hsource : source.toList = source.toList ++ [] := (List.append_nil _).symm
  rw [← byteLength_toList] at h
  refine position_of_append hsource h nofun ?_
  rw [← byteLength_toList]
  exact Nat.min_eq_right h

end LineTable

def textBefore (source : String) (offset : Nat) : List Char :=
  (Span.slice ⟨0, offset⟩ source).toList

theorem textBefore_of_append {source : String} {before behind : List Char}
    (hsource : source.toList = before ++ behind) :
    textBefore source (byteLength before) = before := by
  have hslice := Span.slice_of_append [] before behind
  rw [List.nil_append, ← hsource, String.ofList_toList] at hslice
  have hzero : byteLength [] + byteLength before = byteLength before := Nat.zero_add _
  rw [hzero] at hslice
  exact (congrArg String.toList hslice).trans String.toList_ofList

theorem exists_before {source : String} {offset : Nat}
    (h : (String.Pos.Raw.mk offset).IsValid source) :
    ∃ before behind, source.toList = before ++ behind ∧ offset = byteLength before := by
  obtain ⟨before, behind, rfl, hoffset⟩ := String.Pos.Raw.isValid_iff_exists_append.mp h
  refine ⟨before.toList, behind.toList, String.toList_append, ?_⟩
  rw [byteLength_toList]
  exact congrArg String.Pos.Raw.byteIdx hoffset

theorem exists_between {source : String} {first second : List Char} {rest rest' : List Char}
    (hfirst : source.toList = first ++ rest) (hsecond : source.toList = second ++ rest')
    (hlt : byteLength first < byteLength second) :
    ∃ middle, middle ≠ [] ∧ second = first ++ middle := by
  rcases List.append_eq_append_iff.mp (hfirst.symm.trans hsecond) with
    ⟨middle, rfl, -⟩ | ⟨middle, rfl, -⟩
  · refine ⟨middle, ?_, rfl⟩
    rintro rfl
    rw [List.append_nil] at hlt
    exact Nat.lt_irrefl _ hlt
  · rw [byteLength_append] at hlt
    omega

/-- At a boundary between characters the position is the one that counting gives: the line is one
more than the line feeds in front, it starts right behind the last of them, and the column is one
more than the characters from there on.  A later boundary has a later position, and what is beyond
the text stands at its end.  Exactly the lines from the first to the one behind the last line feed
have a start. -/
theorem LineTable.position_counts (source : String) :
    (∀ offset, (String.Pos.Raw.mk offset).IsValid source →
      positionIn source offset = .count (textBefore source offset) ∧
        (ofText source).lineStart? (positionIn source offset).line =
          some (byteLength (fullLines (textBefore source offset))) ∧
        (Span.slice ⟨byteLength (fullLines (textBefore source offset)), offset⟩ source).length + 1 =
          (positionIn source offset).column) ∧
      (∀ first second, (String.Pos.Raw.mk first).IsValid source →
        (String.Pos.Raw.mk second).IsValid source → first < second →
          (positionIn source first).Before (positionIn source second)) ∧
      (∀ offset, source.utf8ByteSize ≤ offset →
        positionIn source offset = positionIn source source.utf8ByteSize) ∧
      (ofText source).lineCount = source.toList.count '\n' + 1 ∧
      ∀ line, ((ofText source).lineStart? line).isSome ↔
        1 ≤ line ∧ line ≤ (ofText source).lineCount := by
  refine ⟨fun offset hvalid => ?_, fun first second hfirst hsecond hlt => ?_,
    fun offset hbeyond => ?_, lineCount_ofText source, isSome_lineStart? _⟩
  · obtain ⟨before, behind, hsource, rfl⟩ := exists_before hvalid
    rw [textBefore_of_append hsource, position_boundary hsource]
    refine ⟨rfl, lineStart?_of_append hsource, ?_⟩
    rw [slice_lastLine hsource, String.length_ofList]
    rfl
  · obtain ⟨before, rest, hbefore, rfl⟩ := exists_before hfirst
    obtain ⟨before', rest', hbefore', rfl⟩ := exists_before hsecond
    rw [position_boundary hbefore, position_boundary hbefore']
    obtain ⟨middle, hmiddle, rfl⟩ := exists_between hbefore hbefore' hlt
    exact Position.count_before before hmiddle
  · rw [position_beyond hbeyond, position_beyond (Nat.le_refl _)]

end TolerantSyntax
