import Theming.Proofs.Text.Lowercase
import Theming.Token.Themes

set_option autoImplicit false

/-! # Canonical theme names

The canonical spelling of a theme name is its own canonical spelling: making a name canonical again
finds no further theme.

Main statements: `themeName_themeName` and `Themes.find?_isSome_iff`. -/

namespace Theming

open Text (IsTrimmed IsLower)

/-! ## Hyphens -/

/-- A hyphen for an underscore or a space; every other character as it is. -/
def hyphened (c : Char) : Char := if c = '_' ∨ c = ' ' then '-' else c

theorem toList_swapChar (old new : Char) (s : String) :
    (Text.swapChar old new s).toList = s.toList.map (fun c => if c = old then new else c) := by
  rw [Text.swapChar, String.toList_ofList, Text.replaceChar]
  induction s.toList with
  | nil => rfl
  | cons c rest ih =>
    rw [List.flatMap_cons, ih, List.map_cons]
    split <;> rfl

theorem toList_hyphened (s : String) :
    (Text.swapChar ' ' '-' (Text.swapChar '_' '-' s)).toList = s.toList.map hyphened := by
  rw [toList_swapChar, toList_swapChar, List.map_map]
  apply List.map_congr_left
  intro c _
  by_cases hc : c = '_' <;> simp [hyphened, hc]

theorem isLower_hyphened {c : Char} (h : IsLower c) :
    IsLower (hyphened c) ∧ hyphened (hyphened c) = hyphened c := by
  by_cases hc : c = '_' ∨ c = ' '
  · rw [hyphened, if_pos hc]
    exact ⟨by unfold IsLower; decide +kernel, rfl⟩
  · have hself : hyphened c = c := if_neg hc
    rw [hself, hself]
    exact ⟨h, rfl⟩

theorem isBlank_hyphened {c : Char} (h : Text.isBlank c = false) :
    Text.isBlank (hyphened c) = false := by
  unfold hyphened
  split
  · decide
  · exact h

theorem isTrimmed_hyphened {s : List Char} (h : IsTrimmed s) : IsTrimmed (s.map hyphened) := by
  constructor
  · intro c hc
    rw [List.head?_map, Option.map_eq_some_iff] at hc
    obtain ⟨d, hd, rfl⟩ := hc
    exact isBlank_hyphened (h.1 d hd)
  · intro c hc
    rw [List.getLast?_map, Option.map_eq_some_iff] at hc
    obtain ⟨d, hd, rfl⟩ := hc
    exact isBlank_hyphened (h.2 d hd)

/-! ## Canonical names -/

/-- A name that is its own canonical spelling, seen in its characters. -/
structure IsCanonical (name : String) : Prop where
  trimmed : IsTrimmed name.toList
  lower : ∀ c ∈ name.toList, IsLower c
  hyphened : ∀ c ∈ name.toList, hyphened c = c
  separated : name ≠ "highcontrast"

theorem themeName_of_isCanonical {name : String} (h : IsCanonical name) : themeName name = name := by
  have hlowered : Text.lowercase (Text.trimmed name) = name := by
    rw [Text.lowercase, Text.trimmed, Text.trim_of_isTrimmed h.trimmed, String.ofList_toList,
      Text.lowerAfter_of_isLower h.lower, String.ofList_toList]
  have hsame : Text.swapChar ' ' '-' (Text.swapChar '_' '-' name) = name := by
    rw [← String.toList_inj, toList_hyphened, List.map_congr_left h.hyphened, List.map_id']
  simp only [themeName, hlowered, hsame, if_neg h.separated]

theorem isCanonical_highContrast : IsCanonical "high-contrast" := by
  refine ⟨⟨?_, ?_⟩, ?_, ?_, by decide⟩
  · intro c hc
    obtain rfl : 'h' = c := Option.some.inj hc
    decide
  · intro c hc
    obtain rfl : 't' = c := Option.some.inj hc
    decide
  · have hall : "high-contrast".toList.all (fun c => Text.lowerChar c == [c]) = true := by
      decide +kernel
    exact fun c hc => eq_of_beq (List.all_eq_true.1 hall c hc)
  · have hall : "high-contrast".toList.all (fun c => hyphened c == c) = true := by decide
    exact fun c hc => eq_of_beq (List.all_eq_true.1 hall c hc)

theorem isCanonical_themeName (name : String) : IsCanonical (themeName name) := by
  simp only [themeName]
  split
  · exact isCanonical_highContrast
  · next hne =>
    have hchars : (Text.swapChar ' ' '-'
        (Text.swapChar '_' '-' (Text.lowercase (Text.trimmed name)))).toList =
          (Text.lowerAfter [] (Text.trim name.toList)).map hyphened := by
      rw [toList_hyphened, Text.lowercase, Text.trimmed, String.toList_ofList, String.toList_ofList]
    have hmem : ∀ c ∈ (Text.lowerAfter [] (Text.trim name.toList)).map hyphened,
        IsLower c ∧ hyphened c = c := by
      intro c hc
      obtain ⟨d, hd, rfl⟩ := List.mem_map.1 hc
      exact isLower_hyphened (Text.isLower_lowerAfter hd)
    refine ⟨?_, ?_, ?_, hne⟩
    · rw [hchars]
      exact isTrimmed_hyphened (Text.isTrimmed_lowerAfter (Text.isTrimmed_trim name.toList))
    · rw [hchars]
      exact fun c hc => (hmem c hc).1
    · rw [hchars]
      exact fun c hc => (hmem c hc).2

/-- **A canonical spelling is its own.** -/
theorem themeName_themeName (name : String) : themeName (themeName name) = themeName name :=
  themeName_of_isCanonical (isCanonical_themeName name)

/-! ## Finding themes -/

namespace Themes

theorem find?_isSome_iff (themes : Themes) (name : String) :
    (themes.find? name).isSome ↔ name ∈ themes.names ∨ themeName name ∈ themes.names := by
  unfold find? names
  rw [← Table.find?_isSome_iff, ← Table.find?_isSome_iff]
  cases hfind : Table.find? name themes.sets <;> simp

/-- A theme is found by the canonical spelling of a name exactly if there is one of that spelling. -/
theorem find?_themeName_isSome_iff (themes : Themes) (name : String) :
    (themes.find? (themeName name)).isSome ↔ themeName name ∈ themes.names := by
  rw [find?_isSome_iff, themeName_themeName, or_self]

end Themes

end Theming
