import TolerantSyntax.Proofs.Json.Written

/-!
# Strings without control characters

A scan that knows only quotes and backslashes says which characters of a text stand inside its
strings.  What is quoted has no control character there, and what holds no quote adds none.
-/

namespace TolerantSyntax

/-- Where a scan of a text stands. -/
inductive StringScan where
  | outside
  | inside
  | escaped
deriving DecidableEq, Repr

/-- The characters of a text that stand inside its strings. -/
def StringScan.inner : StringScan → List Char → List Char
  | _, [] => []
  | .outside, c :: rest => inner (if c = '"' then .inside else .outside) rest
  | .inside, c :: rest =>
      if c = '"' then inner .outside rest
      else c :: inner (if c = '\\' then .escaped else .inside) rest
  | .escaped, c :: rest => c :: inner .inside rest

/-- No control character stands inside a string. -/
def Sealed (text : List Char) : Prop :=
  ∀ c ∈ StringScan.inner .outside text, JsonText.isControl c = false

namespace Sealed

/-- What is written leaves a text sealed that it is put in front of. -/
def Written (written : List Char) : Prop := ∀ rest, Sealed rest → Sealed (written ++ rest)

theorem Written.sealed {written : List Char} (h : Written written) : Sealed written := by
  simpa using h [] (by simp [Sealed, StringScan.inner])

theorem Written.append {left right : List Char} (hleft : Written left) (hright : Written right) :
    Written (left ++ right) := by
  intro rest hrest
  rw [List.append_assoc]
  exact hleft _ (hright rest hrest)

theorem Written.plain {written : List Char} (h : '"' ∉ written) : Written written := by
  intro rest hrest
  induction written with
  | nil => exact hrest
  | cons c written ih =>
      have hc : c ≠ '"' := fun heq => h (heq ▸ List.mem_cons_self)
      have hmore := ih fun hmem => h (.tail _ hmem)
      simpa [Sealed, StringScan.inner, hc] using hmore

theorem Written.separated {texts : List (List Char)} (h : ∀ text ∈ texts, Written text) :
    Written (Json.Reader.separated texts) := by
  induction texts with
  | nil => exact .plain (by simp)
  | cons first texts ih =>
      have hfirst := h first List.mem_cons_self
      have hmore := ih fun text hmem => h text (.tail _ hmem)
      cases texts with
      | nil => simpa using hfirst
      | cons second texts =>
          have hcomma : Written [','] := .plain (by decide)
          rw [Json.Reader.separated_cons_cons]
          exact hfirst.append (hcomma.append hmore)

theorem digitChar_plain : ∀ digit < 16,
    Nat.digitChar digit ≠ '"' ∧ Nat.digitChar digit ≠ '\\' ∧
      JsonText.isControl (Nat.digitChar digit) = false := by
  decide

/-- What stands for a character is inside the string as a whole, and free of control
characters. -/
theorem inner_escape (c : Char) (rest : List Char) :
    StringScan.inner .inside (JsonText.escape c ++ rest) =
        JsonText.escape c ++ StringScan.inner .inside rest ∧
      ∀ d ∈ JsonText.escape c, JsonText.isControl d = false := by
  have hpair : ∀ d, JsonText.isControl d = false →
      ∀ e ∈ ['\\', d], JsonText.isControl e = false := fun d hd =>
    List.forall_mem_cons.mpr ⟨by decide, List.forall_mem_singleton.mpr hd⟩
  unfold JsonText.escape
  split
  · exact ⟨rfl, hpair _ (by decide)⟩
  · exact ⟨rfl, hpair _ (by decide)⟩
  · exact ⟨rfl, hpair _ (by decide)⟩
  · exact ⟨rfl, hpair _ (by decide)⟩
  · exact ⟨rfl, hpair _ (by decide)⟩
  · rename_i hquote hbackslash _ _ _
    split
    · rename_i hcontrol
      have hbyte : c.toNat < 256 := by
        simp [JsonText.isControl] at hcontrol
        omega
      obtain ⟨hq, hb, hplain⟩ := digitChar_plain (c.toNat / 16) (by omega)
      obtain ⟨hq', hb', hplain'⟩ := digitChar_plain (c.toNat % 16) (by omega)
      rw [Json.Reader.hex_byte hbyte]
      refine ⟨by simp [StringScan.inner, hq, hb, hq', hb'], ?_⟩
      simp only [List.mem_cons, List.not_mem_nil, or_false]
      rintro d (rfl | rfl | rfl | rfl | rfl | rfl)
      all_goals first
        | assumption
        | decide
    · rename_i hcontrol
      have hne : c ≠ '"' ∧ c ≠ '\\' := ⟨fun h => hquote h, fun h => hbackslash h⟩
      refine ⟨by simp [StringScan.inner, hne.1, hne.2], ?_⟩
      simpa using hcontrol

theorem inner_escapes (chars rest : List Char) :
    StringScan.inner .inside (chars.flatMap JsonText.escape ++ rest) =
      chars.flatMap JsonText.escape ++ StringScan.inner .inside rest := by
  induction chars with
  | nil => rfl
  | cons c chars ih =>
      rw [List.flatMap_cons, List.append_assoc, (inner_escape c _).1, ih, List.append_assoc]

theorem Written.quote (text : String) : Written (JsonText.quote text).toList := by
  intro rest hrest
  have hinner : StringScan.inner .outside ((JsonText.quote text).toList ++ rest) =
      text.toList.flatMap JsonText.escape ++ StringScan.inner .outside rest := by
    rw [Json.Reader.toList_quote, List.cons_append, List.append_assoc]
    simp [StringScan.inner, inner_escapes]
  intro c hc
  rw [hinner, List.mem_append] at hc
  rcases hc with hc | hc
  · obtain ⟨d, -, hd⟩ := List.mem_flatMap.mp hc
    exact (inner_escape d []).2 c hd
  · exact hrest c hc

end Sealed
end TolerantSyntax
