import Flowchart.Command.Run

/-!
# The program

Loads the files that a command names, runs it, and prints and writes what it leaves. A command that
fails prints its reports on the error stream.
-/

namespace Flowchart

/-- The steps from the root to the end of a path that starts at the current directory. -/
def placeOnDisk (current path : String) : List String :=
  if path.startsWith "/" then Path.steps path else Path.steps current ++ Path.steps path

/-- The path of a place on the disk. -/
def pathOnDisk (place : List String) : String := "/" ++ "/".intercalate place

/-- The files, one more of which must not be read. -/
def Files.refusing (fs : Files) (place : List String) (reason : String) : Files :=
  { fs.put place .empty with
    refusal? := fun access asked =>
      if access = .read && asked = place then some reason else fs.refusal? access asked }

/-- Adds the file at a path, if there is one. -/
def load (current : String) (fs : Files) (path : String) : IO Files := do
  let place := placeOnDisk current path
  try
    return fs.put place (← IO.FS.readBinFile path)
  catch error =>
    match error with
    | .inappropriateType .. => return { fs with directories := place :: fs.directories }
    | .permissionDenied _ code details => return fs.refusing place s!"{details} (os error {code})"
    | _ => return fs

/-- The settings file of the user, by the conventions of free desktops. -/
def userSettingsPath? : IO (Option String) := do
  let named := (← IO.getEnv "XDG_CONFIG_HOME").filter fun path => path.startsWith "/"
  let home := (← IO.getEnv "HOME").filter fun path => path ≠ ""
  return home.map fun home => named.getD (home ++ "/.config") ++ "/junction/config.toml"

/-- The host of a command, with the files that it reads. Whether the directory of its output exists is
found out by writing. -/
def hostOnDisk (i : Invocation) : IO Host := do
  let current := (← IO.currentDir).toString
  let directories := i.command.outputPath?.toList.map fun path =>
    (placeOnDisk current path).dropLast
  let nothing : Files := { contents := [], directories, current := Path.steps current }
  let host : Host :=
    { files := nothing, toml := Toml.reader, userSettingsPath? := ← userSettingsPath? }
  let paths := i.settingsPath.toList ++ host.settingsPaths ++ i.command.inputs.map Input.path
  return { host with files := ← paths.foldlM (load current) nothing }

/-- A report in a few lines. -/
def Report.lines (r : Report) : List String :=
  let kind := if r.isWarning then "warning" else "error"
  let code := match r.code with
    | some code => s!"[{code}]"
    | none => ""
  [kind ++ code ++ ": " ++ r.message] ++
    (r.labels.map fun l => s!"  {l.offset}..{l.offset + l.length}: {l.message}") ++
    r.help.toList.map fun help => s!"  help: {help}"

/-- Runs a command on the disk. -/
def runOnDisk (i : Invocation) : IO UInt32 := do
  let host ← hostOnDisk i
  let result := i.run host
  IO.print result.printed
  for (place, content) in result.files.contents do
    if !host.files.contents.contains (place, content) then
      IO.FS.writeBinFile (pathOnDisk place) content
  match result.ending with
  | .ok .success => return 0
  | .ok .checksFailed => return 1
  | .error failure =>
    for report in failure.reports do
      report.lines.forM IO.eprintln
    return 1

end Flowchart

/-- Runs the command line. -/
def main (arguments : List String) : IO UInt32 := do
  match Flowchart.Invocation.ofArguments arguments with
  | .ok i => Flowchart.runOnDisk i
  | .error error =>
    IO.eprintln error.message
    return 2
