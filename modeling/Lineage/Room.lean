import Lineage.Fault
import Lineage.Value.Coerce
import Lineage.Value.Depth

namespace Lineage

/-- How deeply values may be nested that are copied or written as texts before the stack is full, if there is
a bound. -/
structure Depths where
  copied : Option Nat
  written : Option Nat
  deriving DecidableEq, Repr

namespace Depths

/-- Values may be nested as deeply as they are. -/
def free : Depths :=
  ⟨none, none⟩

/-- Whether a value is not too deep to be copied. -/
def Copies (depths : Depths) (v : Value) : Prop :=
  ∀ n ∈ depths.copied, v.depth ≤ n

/-- Whether a value is not too deep to be written. -/
def Writes (depths : Depths) (v : Value) : Prop :=
  ∀ n ∈ depths.written, v.depth ≤ n

instance (depths : Depths) (v : Value) : Decidable (depths.Copies v) :=
  inferInstanceAs (Decidable (∀ n ∈ depths.copied, v.depth ≤ n))

instance (depths : Depths) (v : Value) : Decidable (depths.Writes v) :=
  inferInstanceAs (Decidable (∀ n ∈ depths.written, v.depth ≤ n))

/-- A copy of a value. -/
def copy (depths : Depths) (v : Value) : Except Fault Value :=
  if depths.Copies v then .ok v else .error (.tooDeep "")

/-- A value as a text. -/
def write (depths : Depths) (v : Value) : Except Fault Value :=
  if depths.Writes v then v.toText else .error (.tooDeep " while getting the repr of an object")

theorem copies_free (v : Value) : free.Copies v :=
  nofun

/-- Values that are no deeper can be copied too. -/
theorem Copies.of_depth_le {depths : Depths} {v w : Value} (copies : depths.Copies v) (bound : w.depth ≤ v.depth) :
    depths.Copies w :=
  fun n among => Nat.le_trans bound (copies n among)

end Depths

/-- How deeply things may stand in each other before the stack is full: values in a JSON text, collections
in a YAML text, values that are copied or written, and containers whose values are converted. -/
structure Room extends Depths where
  json : Nat
  yaml : Nat
  conversions : Nat
  deriving DecidableEq, Repr

/-- The room of a stack of a thousand calls, which are as many as one to four for each level. -/
def Room.standard : Room where
  copied := some 490
  written := some 980
  json := 988
  yaml := 488
  conversions := 240

end Lineage
