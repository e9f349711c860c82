import Lineage.Yaml.Node.Composition
import Lineage.Yaml.Node.Value
import Lineage.Yaml.Token.Stream

namespace Lineage.Yaml

/-- Reads the value of the only document in a text; an empty text stands for null. -/
def read (s : String) : Except Refusal Value := do
  let (tokens, ending) := tokens s.toList
  match ← Graph.ofTokens tokens ending with
  | none => return .null
  | some graph => graph.toValue

end Lineage.Yaml
