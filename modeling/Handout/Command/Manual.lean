/-
# Manuals

Every command has a usage, which is shown with each misuse, and a manual, which
begins with the usage.

Key definitions: `Manual`, `Manual.usage`, `Manual.text`, `Manual.refusal`.
-/
import Handout.Command.Misuse

namespace Handout

/-- The pages on a command: its name, how it is used, and what its arguments
mean. -/
structure Manual where
  command : String
  usageLines : List String
  detailLines : List String
deriving Repr, DecidableEq

/-- Lines, each with its end. -/
def page (lines : List String) : Text :=
  lines.flatMap fun l => l.toList ++ ['\n']

namespace Manual

/-- How a command is used. -/
def usage (m : Manual) : Text :=
  page m.usageLines

/-- The whole manual. -/
def text (m : Manual) : Text :=
  m.usage ++ ['\n'] ++ page m.detailLines

/-- The answer to a misuse. -/
def refusal (m : Manual) (misuse : Misuse) : Text :=
  m.usage ++ m.command.toList ++ ": error: ".toList ++ misuse.message ++ ['\n']

/-- The manual of the program. -/
def program : Manual where
  command := "snippet"
  usageLines :=
    ["usage: snippet [-h] [--settings SETTINGS] [-v]",
     "               \x7btransform,render,inspect,settings\x7d ..."]
  detailLines :=
    ["Maintain student and solution variants in one source file",
     "",
     "positional arguments:",
     "  \x7btransform,render,inspect,settings\x7d",
     "    transform           Transform every matching file in a folder",
     "    render              Render a single file",
     "    inspect             Summarize the snippets in a file",
     "    settings            Persisted settings",
     "",
     "options:",
     "  -h, --help            show this help message and exit",
     "  --settings SETTINGS   Path to settings.yaml",
     "  -v, --verbose         Enable debug logging"]

/-- The manual of the command for a folder. -/
def transform : Manual where
  command := "snippet transform"
  usageLines :=
    ["usage: snippet transform [-h] --mode",
     "                         \x7bsolution,student,full-solution,full-student\x7d",
     "                         [--task TASK] [--special] [--target TARGET]",
     "                         [--only-transformed] [--extensions EXTENSIONS]",
     "                         [--backup-dir BACKUP_DIR] [--dry-run]",
     "                         folder"]
  detailLines :=
    ["positional arguments:",
     "  folder                Source folder",
     "",
     "options:",
     "  -h, --help            show this help message and exit",
     "  --mode \x7bsolution,student,full-solution,full-student\x7d",
     "                        Output mode",
     "  --task TASK           Reveal solutions up to this task (e.g. 2 or 2.3.1)",
     "  --special             Prefer specialsolution blocks where present",
     "  --target TARGET       Output folder (required for solution and student",
     "                        modes)",
     "  --only-transformed    Do not copy files without relevant snippets to the",
     "                        target",
     "  --extensions EXTENSIONS",
     "                        Space-separated extension filter, e.g. \".cs .java\"",
     "  --backup-dir BACKUP_DIR",
     "                        Directory receiving the source snapshot",
     "  --dry-run             Report without writing"]

/-- The manual of the command for a file. -/
def render : Manual where
  command := "snippet render"
  usageLines :=
    ["usage: snippet render [-h] --mode",
     "                      \x7bsolution,student,full-solution,full-student\x7d",
     "                      [--task TASK] [--special] [--output OUTPUT]",
     "                      file"]
  detailLines :=
    ["positional arguments:",
     "  file                  Source file",
     "",
     "options:",
     "  -h, --help            show this help message and exit",
     "  --mode \x7bsolution,student,full-solution,full-student\x7d",
     "                        Output mode",
     "  --task TASK           Reveal solutions up to this task (e.g. 2 or 2.3.1)",
     "  --special             Prefer specialsolution blocks where present",
     "  --output OUTPUT       Write to this file instead of stdout"]

/-- The manual of the command for a summary. -/
def inspect : Manual where
  command := "snippet inspect"
  usageLines :=
    ["usage: snippet inspect [-h] [--task TASK] [--tree] file"]
  detailLines :=
    ["positional arguments:",
     "  file         Source file",
     "",
     "options:",
     "  -h, --help   show this help message and exit",
     "  --task TASK  Also count snippets belonging to this task",
     "  --tree       Print the syntax tree"]

/-- The manual of the command for settings. -/
def settings : Manual where
  command := "snippet settings"
  usageLines :=
    ["usage: snippet settings [-h] \x7bshow,set-extensions,set-backup-dir\x7d ..."]
  detailLines :=
    ["positional arguments:",
     "  \x7bshow,set-extensions,set-backup-dir\x7d",
     "    show                Show current settings",
     "    set-extensions      Set the extension filter",
     "    set-backup-dir      Set the backup directory",
     "",
     "options:",
     "  -h, --help            show this help message and exit"]

/-- The manual of the command that shows settings. -/
def showSettings : Manual where
  command := "snippet settings show"
  usageLines :=
    ["usage: snippet settings show [-h]"]
  detailLines :=
    ["options:",
     "  -h, --help  show this help message and exit"]

/-- The manual of the command that sets the filter. -/
def setExtensions : Manual where
  command := "snippet settings set-extensions"
  usageLines :=
    ["usage: snippet settings set-extensions [-h] extensions"]
  detailLines :=
    ["positional arguments:",
     "  extensions  Space-separated extensions, e.g. \".cs .java\"",
     "",
     "options:",
     "  -h, --help  show this help message and exit"]

/-- The manual of the command that sets the backup folder. -/
def setBackup : Manual where
  command := "snippet settings set-backup-dir"
  usageLines :=
    ["usage: snippet settings set-backup-dir [-h] directory"]
  detailLines :=
    ["positional arguments:",
     "  directory",
     "",
     "options:",
     "  -h, --help  show this help message and exit"]

end Manual
end Handout
