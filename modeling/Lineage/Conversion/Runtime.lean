import Lineage.Conversion.Run

namespace Lineage

/-- A container that is converted: what was generated from it, the functions that its conversions call,
and the containers that were registered for the values of nested types, one after the other. -/
structure Node (ι : Type) where
  generation : Generation
  functions : Functions
  registered : List ι

/-- A container among others in a table. Any of them may be registered with any, also with itself. -/
structure Runtime (ι : Type) where
  table : ι → Node ι
  here : ι

/-- Converts an instance from one version to another; the path tells where it stands. -/
abbrev Converter := (source target : String) → Value → (path : String) → Run Value

namespace Runtime

/-- A container in whose values no others are nested. -/
def single (g : Generation) (functions : Functions) : Runtime Unit :=
  ⟨fun _ => ⟨g, functions, []⟩, ()⟩

/-- A container in whose values others are nested, in which there are none. All call the same functions. -/
def star (functions : Functions) (g : Generation) (nested : List Generation) :
    Runtime (Option Generation) where
  table
    | none => ⟨g, functions, nested.map some⟩
    | some inner => ⟨inner, functions, []⟩
  here := none

variable {ι : Type}

/-- The container itself. -/
def node (rt : Runtime ι) : Node ι :=
  rt.table rt.here

/-- Another container of the table. -/
def move (rt : Runtime ι) (other : ι) : Runtime ι :=
  { rt with here := other }

/-- What was generated from the container. -/
def generation (rt : Runtime ι) : Generation :=
  rt.node.generation

/-- The functions that the conversions of the container call. -/
def functions (rt : Runtime ι) : Functions :=
  rt.node.functions

/-- The name of the container. -/
def name (rt : Runtime ι) : String :=
  rt.generation.name

/-- The containers that were registered, by their names. One of the same name replaces another. -/
def nested (rt : Runtime ι) : Entries String (Runtime ι) :=
  Entries.ofList (rt.node.registered.map fun i => ((rt.move i).name, rt.move i))

/-- The container that converts the values of a nested type. -/
def nested? (rt : Runtime ι) (type : String) : Option (Runtime ι) :=
  Entries.get? rt.nested type

/-- How values of nested types follow an edge, if `convert` tells how their containers are converted. -/
def follow (rt : Runtime ι) (convert : Runtime ι → Converter) (source target : String) : Nesting := fun type =>
  (rt.nested? type).map fun inner => convert inner source target

/-- Applies edges one after the other. -/
def alongEdges (apply : Edge → Value → (path : String) → Run Value) (edges : List Edge)
    (v : Value) (path : String) : Run Value :=
  edges.foldlM (fun v edge => apply edge v path) v

/-- Applies an edge to an instance, if `convert` tells how nested containers are converted. -/
def applyBy (rt : Runtime ι) (depths : Depths) (convert : Runtime ι → Converter) (edge : Edge) :
    Value → (path : String) → Run Value :=
  Conversion.applyEdge depths rt.functions (rt.follow convert edge.source.name edge.target.name) edge

/-- Converts an instance from one version to another, if `convert` tells how nested containers are
converted. -/
def between (rt : Runtime ι) (depths : Depths) (convert : Runtime ι → Converter) : Converter :=
  fun source target v path => do
    let edges ← Run.ofExcept (rt.generation.edgesBetween source target)
    alongEdges (rt.applyBy depths convert) edges v path

/-- Converts an instance that is nested in another, if there is room for one more conversion inside of
those that are not done. -/
def inside (depths : Depths) : (room : Nat) → Runtime ι → Converter
  | 0, _ => fun _ _ _ _ => Run.ofExcept (.error (.fault (.tooDeep "")))
  | room + 1, rt => rt.between depths (inside depths room)

/-- Converts an instance from one version to another on a stack on which values may be only so deep. There is
room for so many conversions of nested instances inside of each other. -/
def convertOn (rt : Runtime ι) (depths : Depths) (room : Nat) : Converter :=
  rt.between depths (inside depths room)

/-- Converts an instance from one version to another, however deep its values are. -/
def convert (rt : Runtime ι) (room : Nat) : Converter :=
  rt.convertOn .free room

/-- Applies an edge to an instance, however deep its values are. -/
def apply (rt : Runtime ι) (room : Nat) (edge : Edge) : Value → (path : String) → Run Value :=
  rt.applyBy .free (inside .free room) edge

/-- The container and those that were registered with it. -/
def checked (rt : Runtime ι) : List (Runtime ι) :=
  rt :: rt.nested.map (·.2)

/-- Checks that all functions can be resolved that a container and those registered with it call. -/
def checkFunctions (rt : Runtime ι) : Except Failure Unit := do
  let unresolved ← rt.checked.mapM fun inner =>
    inner.functions.unresolved (Edge.functions inner.generation.edges)
  match unresolved.flatten with
  | [] => return ()
  | messages => .error (.conversion (.several messages))

end Runtime

end Lineage
