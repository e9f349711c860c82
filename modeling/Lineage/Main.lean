import Lineage.Command

namespace Lineage.Command

/-- The names of the variables that settings are taken from. -/
def settingNames : List String :=
  ["SCHEMAEVO_HOST", "SCHEMAEVO_PORT", "SCHEMAEVO_LOG_LEVEL", "SCHEMAEVO_RENDER_FORMAT",
    "SCHEMAEVO_TRACK_CONVERSIONS", "SCHEMAEVO_FUNCTION_MODULES"]

/-- The settings of the environment. -/
def readSettings : IO Settings := do
  let environment ← settingNames.filterMapM fun name => do
    return (← IO.getEnv name).map fun s => (name, s)
  return .ofEnvironment environment

/-- What is found at a path: whether there is something, as also where nothing can be read, and what it
holds. -/
def readContent (p : FilePath) : IO (Bool × Except Fault (List UInt8)) := do
  try
    return (true, .ok (← IO.FS.readBinFile p.text).toList)
  catch
    | .noFileOrDirectory _ _ _ => return (false, .error (p.fault .missing))
    | .inappropriateType (some _) _ _ => return (false, .error (p.fault .notFolder))
    | _ => return (true, .error (p.fault .folder))

/-- Writes files into the folders that their paths name. -/
def writeFiles (files : List (FilePath × String)) : IO Unit := do
  for (path, content) in files do
    IO.FS.createDirAll path.parent.text
    IO.FS.writeFile path.text content

/-- Prints a report and writes its files. -/
def finish (r : Report) : IO UInt32 := do
  writeFiles r.written
  IO.print r.output
  IO.eprint r.errors
  return r.code.toUInt32

/-- Runs the command in the folder that it is called in. -/
def execute (arguments : List String) : IO UInt32 := do
  let settings ← readSettings
  match Arguments.read settings.renderFormat arguments with
  | .error usage => finish (usageReport usage)
  | .ok a =>
    let (found, content) ← readContent (.ofText a.file)
    match reportOn settings a (.ok found) content with
    | .ok r => finish r
    | .error failure =>
      IO.eprintln failure.message
      return 1

end Lineage.Command

/-- The command renders the description of a container or of a bundle. -/
def main (arguments : List String) : IO UInt32 :=
  Lineage.Command.execute arguments
