import Lineage.Proofs.Conversion.Frame

namespace Lineage

namespace Runtime

open Conversion

variable {ι : Type} {rt : Runtime ι} {room : Nat} {a b path : String} {v : Value} {p q : Progress}
  {failure : Failure}

/-- What a conversion down drops of it. -/
def noted : Tracker :=
  Tracker.empty.record (.text ".note") (.text "paid")

end Runtime

end Lineage
