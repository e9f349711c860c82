namespace Lineage.Description

/-- A step from a value to a part of it. -/
inductive Place where
  | name (s : String)
  | index (n : Int)
  deriving DecidableEq, Repr

/-- What is wrong with a part of a description. -/
inductive IssueKind where
  | missing
  | surplus
  | badKey
  | text
  | encoding
  | truthText
  | truth
  | list
  | record
  | mapping
  | choice
  | kindName
  deriving DecidableEq, Repr

/-- A part of a description that is not as it must be. -/
structure Issue where
  kind : IssueKind
  place : List Place
  deriving DecidableEq, Repr

/-- The code of a kind of issue. -/
def IssueKind.code : IssueKind → String
  | .missing => "missing"
  | .surplus => "extra_forbidden"
  | .badKey => "invalid_key"
  | .text => "string_type"
  | .encoding => "string_unicode"
  | .truthText => "bool_parsing"
  | .truth => "bool_type"
  | .list => "list_type"
  | .record => "model_type"
  | .mapping => "dict_type"
  | .choice => "literal_error"
  | .kindName => "enum"

/-- What was read from a description, or all issues that were met in it. -/
inductive Checked (α : Type) where
  | good (a : α)
  | bad (issues : List Issue)
  deriving Repr

namespace Checked

/-- What was read, changed by a function. -/
def map {α β : Type} (f : α → β) : Checked α → Checked β
  | good a => good (f a)
  | bad issues => bad issues

/-- Two parts of a description, with the issues of both. -/
def both {α β : Type} (f : Checked (α → β)) (x : Checked α) : Checked β :=
  match f, x with
  | good f, good a => good (f a)
  | good _, bad issues => bad issues
  | bad issues, good _ => bad issues
  | bad issues, bad more => bad (issues ++ more)

instance : Functor Checked := { map := Checked.map }

instance : Applicative Checked where
  pure := good
  seq f x := both f (x ())

/-- A single issue. -/
def issue {α : Type} (kind : IssueKind) : Checked α :=
  bad [⟨kind, []⟩]

/-- What was read at a place of a larger description. -/
def inside {α : Type} (place : Place) : Checked α → Checked α
  | good a => good a
  | bad issues => bad (issues.map fun i => { i with place := place :: i.place })

/-- The issues that were met. -/
def issues {α : Type} : Checked α → List Issue
  | good _ => []
  | bad issues => issues

end Checked

end Lineage.Description
