import Lineage.Text.Blank
import Lineage.Text.Cut
import Lineage.Text.Word

namespace Lineage

theorem Text.length_trim_le (cs : List Char) : (Text.trim cs).length ≤ cs.length := by
  have start : (Text.trimStart cs).length ≤ cs.length := (List.dropWhile_sublist _).length_le
  have stop (ds : List Char) : (Text.trimEnd ds).length ≤ ds.length := by
    simpa [Text.trimEnd] using (List.dropWhile_sublist Text.isBlank (l := ds.reverse)).length_le
  exact Nat.le_trans (stop _) start

namespace TypeName

/-- A type in which null is allowed besides another type, without the part that allows it. -/
def withoutNone? (cs : List Char) : Option (List Char) :=
  Text.dropSuffix? ['|', ' ', 'N', 'o', 'n', 'e'] cs

theorem length_lt_of_withoutNone? {cs inner : List Char} (h : withoutNone? cs = some inner) :
    inner.length < cs.length := by
  have := congrArg List.length (Text.dropSuffix?_eq_some_iff.1 h)
  simp only [List.length_append, List.length_cons] at this
  omega

/-- A type without the module at its start. -/
def unqualified (cs : List Char) : List Char :=
  (Text.dropPrefix? ['t', 'y', 'p', 'i', 'n', 'g', '.'] cs).getD cs

/-- The text between the square brackets that a text starts and ends with, on one line. -/
def bracketed? : List Char → Option (List Char)
  | '[' :: rest =>
    (Text.dropSuffix? [']'] rest).filter fun inner => !inner.isEmpty && !inner.contains '\n'
  | _ => none

/-- The name and the arguments of a generic type, which may be qualified. -/
def generic? (cs : List Char) : Option (List Char × List Char) :=
  let head := (unqualified cs).takeWhile Text.isWord
  if head.isEmpty then none
  else (bracketed? ((unqualified cs).dropWhile Text.isWord)).map fun inner => (head, inner)

theorem length_unqualified_le (cs : List Char) : (unqualified cs).length ≤ cs.length := by
  unfold unqualified
  cases found : Text.dropPrefix? ['t', 'y', 'p', 'i', 'n', 'g', '.'] cs with
  | none => simp
  | some rest =>
    have := congrArg List.length (Text.dropPrefix?_eq_some_iff.1 found)
    simp only [Option.getD_some, List.length_append, List.length_cons] at this ⊢
    omega

theorem length_lt_of_bracketed? {cs inner : List Char} (h : bracketed? cs = some inner) :
    inner.length < cs.length := by
  unfold bracketed? at h
  split at h
  · have := congrArg List.length (Text.dropSuffix?_eq_some_iff.1 (Option.filter_eq_some_iff.1 h).1)
    simp only [List.length_append, List.length_cons] at this ⊢
    omega
  · contradiction

theorem length_lt_of_generic? {cs head inner : List Char} (h : generic? cs = some (head, inner)) :
    inner.length < cs.length := by
  simp only [generic?] at h
  split at h
  · contradiction
  · obtain ⟨_, found, same⟩ := Option.map_eq_some_iff.1 h
    cases same
    exact Nat.lt_of_lt_of_le (length_lt_of_bracketed? found)
      (Nat.le_trans (List.dropWhile_sublist _).length_le (length_unqualified_le cs))

/-- The names of the types that hold values of their argument: optional ones, lists and sets. -/
def wrappers : List String :=
  ["Optional", "List", "list", "Sequence", "Set", "set", "Tuple", "tuple"]

/-- The inside of a type that is wrapped. -/
def unwrap? (cs : List Char) : Option (List Char) :=
  match generic? cs with
  | some (head, inner) =>
    if wrappers.contains (String.ofList head) then some (Text.trim inner) else none
  | none => none

theorem length_lt_of_unwrap? {cs inner : List Char} (h : unwrap? cs = some inner) :
    inner.length < cs.length := by
  unfold unwrap? at h
  split at h
  · next found =>
    split at h
    · injection h with h
      subst h
      exact Nat.lt_of_le_of_lt (Text.length_trim_le _) (length_lt_of_generic? found)
    · contradiction
  · contradiction

/-- A type without all that it is wrapped in. -/
def peel (cs : List Char) : List Char :=
  match _ : unwrap? cs with
  | some inner => peel inner
  | none => cs
termination_by cs.length
decreasing_by exact length_lt_of_unwrap? ‹_›

/-- The name of the innermost type of a type. -/
def base (type : String) : String :=
  let cs := Text.trim type.toList
  String.ofList (peel (((withoutNone? cs).map Text.trim).getD cs))

/-- The arguments of a generic type, between the commas that stand outside of all brackets.
`depth` counts the open brackets and `current` is the reversed start of the first argument; a blank
argument at the end is none. -/
def argumentsFrom (depth : Int) (current : List Char) : List Char → List (List Char)
  | [] =>
    let last := Text.trim current.reverse
    if last.isEmpty then [] else [last]
  | c :: rest =>
    let depth := if c = '[' then depth + 1 else if c = ']' then depth - 1 else depth
    if c = ',' ∧ depth = 0 then Text.trim current.reverse :: argumentsFrom depth [] rest
    else argumentsFrom depth (c :: current) rest

/-- The arguments of a generic type. -/
def arguments (cs : List Char) : List (List Char) :=
  argumentsFrom 0 [] cs

/-- An argument is no longer than the text that it is read from. -/
theorem length_le_of_mem_argumentsFrom {depth : Int} {current cs arg : List Char}
    (member : arg ∈ argumentsFrom depth current cs) : arg.length ≤ current.length + cs.length := by
  induction cs generalizing depth current with
  | nil =>
    simp only [argumentsFrom] at member
    split at member
    · simp at member
    · simp only [List.mem_singleton] at member
      subst member
      simpa using Text.length_trim_le current.reverse
  | cons c rest ih =>
    simp only [argumentsFrom] at member
    generalize (if c = '[' then depth + 1 else if c = ']' then depth - 1 else depth) = d at member
    split at member
    · rcases List.mem_cons.1 member with rfl | later
      · have := Text.length_trim_le current.reverse
        simp only [List.length_reverse] at this
        omega
      · have := ih later
        simp only [List.length_nil, List.length_cons] at this ⊢
        omega
    · have := ih member
      simp only [List.length_cons] at this ⊢
      omega

theorem length_le_of_mem_arguments {cs arg : List Char} (member : arg ∈ arguments cs) :
    arg.length ≤ cs.length := by
  simpa using length_le_of_mem_argumentsFrom member

end TypeName

end Lineage
