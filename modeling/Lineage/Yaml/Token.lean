import Lineage.Fault

namespace Lineage.Yaml

/-- Why a document is not read: it is malformed, or one of its values cannot be made. -/
inductive Refusal where
  | malformed
  | fault (cause : Fault)
  deriving DecidableEq, Repr

/-- The parts that a document is written in. Blocks have no brackets of their own: their beginnings
and ends follow from the indentation. -/
inductive Token where
  | version (major : Int)
  | shorthand (handle uri : String)
  | reserved
  | documentStart
  | documentEnd
  | streamEnd
  | sequenceStart
  | mappingStart
  | blockEnd
  | listOpen
  | listClose
  | mapOpen
  | mapClose
  | comma
  | item
  | key
  | value
  | reference (anchor : String)
  | anchor (name : String)
  | tag (handle : Option String) (suffix : String)
  | scalar (plain : Bool) (content : String)
  deriving DecidableEq, Repr

end Lineage.Yaml
