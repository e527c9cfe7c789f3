import Flowchart.Command.Files
import Flowchart.Stored.Toml

/-!
# Hosts

What a command finds where it runs: the files, a reader for the language of settings files, and the
place where the platform keeps the settings of its users.
-/

namespace Flowchart

/-- Where a command runs. A platform may have no place for the settings of its users. -/
structure Host where
  files : Files
  toml : TomlReader
  userSettingsPath? : Option String := none

namespace Host

/-- A host of text files in a directory, with a reader of simple settings. -/
def ofList (current : List String) (files : List (String × String)) : Host where
  files := .ofList current files
  toml := Toml.reader

/-- The settings file that is looked for where a command runs. -/
def localSettingsPath : String := "junction/config.toml"

/-- Where settings are looked for if no file is named, in this order. -/
def settingsPaths (host : Host) : List String := localSettingsPath :: host.userSettingsPath?.toList

end Host

end Flowchart
