namespace Lineage.Text

/-- The text before the first separator and the text after it. -/
def cutFirst (sep : Char) : List Char → Option (List Char × List Char)
  | [] => none
  | c :: rest =>
    if c = sep then some ([], rest)
    else (cutFirst sep rest).map fun (before, after) => (c :: before, after)

/-- The text before the last separator and the text after it. -/
def cutLast (sep : Char) (cs : List Char) : Option (List Char × List Char) :=
  (cutFirst sep cs.reverse).map fun (after, before) => (before.reverse, after.reverse)

/-- The pieces of a text between the separators, one more than there are separators. -/
def pieces (sep : Char) : List Char → List (List Char)
  | [] => [[]]
  | c :: rest =>
    if c = sep then [] :: pieces sep rest
    else match pieces sep rest with
      | piece :: more => (c :: piece) :: more
      | [] => [[c]]

/-- The rest of a text that starts with `start`. -/
def dropPrefix? : List Char → List Char → Option (List Char)
  | [], cs => some cs
  | _ :: _, [] => none
  | p :: start, c :: cs => if p = c then dropPrefix? start cs else none

/-- The beginning of a text that ends with `ending`. -/
def dropSuffix? (ending cs : List Char) : Option (List Char) :=
  (dropPrefix? ending.reverse cs.reverse).map List.reverse

/-- A text is cut at the first separator: none is before the cut. -/
theorem cutFirst_eq_some {sep : Char} {cs before after : List Char}
    (h : cutFirst sep cs = some (before, after)) : cs = before ++ sep :: after ∧ sep ∉ before := by
  induction cs generalizing before with
  | nil => simp [cutFirst] at h
  | cons c rest ih =>
    by_cases same : c = sep
    · simp [cutFirst, same] at h
      simp [h, same]
    · simp only [cutFirst, if_neg same, Option.map_eq_some_iff] at h
      obtain ⟨⟨b, a⟩, found, eq⟩ := h
      cases eq
      have ⟨split, free⟩ := ih found
      exact ⟨by simp [split], by simp [free, Ne.symm same]⟩

theorem cutFirst_append {sep : Char} {before : List Char} (free : sep ∉ before) (after : List Char) :
    cutFirst sep (before ++ sep :: after) = some (before, after) := by
  induction before with
  | nil => simp [cutFirst]
  | cons c rest ih =>
    obtain ⟨other, later⟩ := List.ne_and_not_mem_of_not_mem_cons free
    simp [cutFirst, Ne.symm other, ih later]

/-- A text is cut at the last separator: none is after the cut. -/
theorem cutLast_eq_some_iff {sep : Char} {cs before after : List Char} :
    cutLast sep cs = some (before, after) ↔ cs = before ++ sep :: after ∧ sep ∉ after := by
  constructor
  · intro cut
    obtain ⟨⟨back, front⟩, found, same⟩ := Option.map_eq_some_iff.mp cut
    cases same
    obtain ⟨split, free⟩ := cutFirst_eq_some found
    have whole := congrArg List.reverse split
    exact ⟨by simpa using whole, by simpa using free⟩
  · rintro ⟨rfl, free⟩
    have reversed : (before ++ sep :: after).reverse = after.reverse ++ sep :: before.reverse := by simp
    rw [cutLast, reversed, cutFirst_append (by simpa using free)]
    simp

theorem dropPrefix?_eq_some_iff {start cs rest : List Char} :
    dropPrefix? start cs = some rest ↔ cs = start ++ rest := by
  induction start generalizing cs with
  | nil => simp [dropPrefix?]
  | cons p start ih =>
    cases cs with
    | nil => simp [dropPrefix?]
    | cons c cs =>
      by_cases same : p = c
      · simp [dropPrefix?, same, ih]
      · simp [dropPrefix?, same, Ne.symm same]

theorem dropSuffix?_eq_some_iff {ending cs rest : List Char} :
    dropSuffix? ending cs = some rest ↔ cs = rest ++ ending := by
  simp only [dropSuffix?, Option.map_eq_some_iff, dropPrefix?_eq_some_iff]
  constructor
  · rintro ⟨r, split, rfl⟩
    simpa using congrArg List.reverse split
  · rintro rfl
    exact ⟨rest.reverse, by simp, by simp⟩

end Lineage.Text
