import Lineage.Container
import Lineage.Description.Field

namespace Lineage.Description

/-- Reads the mark of a deprecated version: a text is a note, and all else a flag if it can be one. -/
def versionMark (v : Value) : Checked VersionMark :=
  match v, truth v with
  | .text s, _ => .good (.note s)
  | _, .good on => .good (.flag on)
  | v, .bad issues =>
    match text v with
    | .good note => .good (.note note)
    | .bad _ =>
      .both ((Checked.bad issues).inside (.name "bool"))
        (((text v).map fun _ => ()).inside (.name "str"))

/-- Reads the declaration of a version. A text declares a version by its name alone, and unknown
fields are passed over. -/
def declaration : Value → Checked Declaration
  | .text name => .good (.named name)
  | .map fields =>
    Declaration.mk <$> required fields "name" text
      <*> optional fields "deprecated" none (nullable versionMark)
      <*> flag fields "skip_from"
      <*> optionalText fields "doc"
  | _ => .issue .record

/-- Reads how an item was added. -/
def addition : Value → Checked Addition :=
  record (fun _ => ["since", "default", "default_value", "downgrade_fallback"]) fun fields =>
    Addition.mk <$> required fields "since" text
      <*> optionalText fields "default"
      <*> .good (Value.member? fields "default_value")
      <*> optionalText fields "downgrade_fallback"

/-- Reads how an item was changed. -/
def change : Value → Checked Change :=
  record (fun _ => ["since", "from_name", "from_type", "upgrade_with", "downgrade_with"]) fun fields =>
    Change.mk <$> required fields "since" text
      <*> optionalText fields "from_name"
      <*> optionalText fields "from_type"
      <*> optionalText fields "upgrade_with"
      <*> optionalText fields "downgrade_with"

/-- Reads how an item was deprecated. -/
def deprecation : Value → Checked Deprecation :=
  record (fun _ => ["since", "note"]) fun fields =>
    Deprecation.mk <$> required fields "since" text <*> optionalText fields "note"

/-- The hint of a name. -/
def hint? (name : String) : Option Hint :=
  if name == "option" then some .option else if name == "list" then some .list else none

/-- Reads a hint. -/
def hint : Value → Checked Hint
  | .text s => word .choice hint? s
  | _ => .issue .choice

/-- The field that holds the changes of an item: the first of its three names that is there. -/
def changesField (fields : Fields) : String :=
  (["changes", "changed", "renamed"].find? fun name => (Value.member? fields name).isSome).getD
    "changes"

/-- Reads an item. -/
def item : Value → Checked Item :=
  record (fun fields => ["name", "type", "doc", "hint", "nested", "added", changesField fields,
      "deprecated"]) fun fields =>
    Item.mk <$> required fields "name" text
      <*> optionalText fields "type"
      <*> optionalText fields "doc"
      <*> optional fields "hint" none (nullable hint)
      <*> flag fields "nested"
      <*> optional fields "added" none (nullable addition)
      <*> optional fields (changesField fields) [] (list change)
      <*> optional fields "deprecated" none (nullable deprecation)

/-- Reads options. -/
def options : Value → Checked Options :=
  record (fun _ => ["allow_unsorted", "skip_from"]) fun fields =>
    Options.mk <$> flag fields "allow_unsorted" <*> flag fields "skip_from"

/-- Reads how a container is served as a custom resource. -/
def resourceOptions : Value → Checked ResourceOptions :=
  record (fun _ => ["group", "kind", "plural", "singular", "namespaced", "storage_version",
      "shortnames"]) fun fields =>
    ResourceOptions.mk <$> required fields "group" text
      <*> optionalText fields "kind"
      <*> optionalText fields "plural"
      <*> optionalText fields "singular"
      <*> flag fields "namespaced"
      <*> optionalText fields "storage_version"
      <*> optional fields "shortnames" [] (list text)

/-- Reads the kind of a container. -/
def kind : Value → Checked Kind
  | .text s => word .kindName Kind.ofName? s
  | .bytes data => ((Text.decodeUtf8 data).toOption.bind Kind.ofName?).elim (.issue .kindName) .good
  | _ => .issue .kindName

/-- Reads a container. -/
def container : Value → Checked Container :=
  record (fun _ => ["name", "kind", "doc", "versions", "items", "options", "k8s"]) fun fields =>
    Container.mk <$> required fields "name" text
      <*> optional fields "kind" .struct kind
      <*> optionalText fields "doc"
      <*> optional fields "versions" [] (list declaration)
      <*> optional fields "items" [] (list item)
      <*> optional fields "options" .standard options
      <*> optional fields "k8s" none (nullable resourceOptions)

/-- Reads containers that share their versions. -/
def bundle : Value → Checked Bundle :=
  record (fun _ => ["name", "versions", "containers", "options"]) fun fields =>
    Bundle.mk <$> optional fields "name" "module" text
      <*> required fields "versions" (list declaration)
      <*> optional fields "containers" [] (list container)
      <*> optional fields "options" .standard options

end Lineage.Description
