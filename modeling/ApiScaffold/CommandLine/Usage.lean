import ApiScaffold.CommandLine.Arguments

/-!
# Usage

The texts that explain the command line, laid out for eighty columns.
-/
namespace ApiScaffold.CommandLine

open Text

def programName : Text := "blueprintgen"

def versionText : Text := "blueprintgen v0.1.0\n"

def usageLines : List Text :=
  ["usage: blueprintgen [-h] [--version] [-d PATH] [-o DIR] [--validate-only]",
   "                    [--dry-run] [--delete NAME] [--manifest FILE]",
   "                    [--stubs DIR] [--namespace NS]",
   "                    [--enum-strategy \x7bsuffix,qualified\x7d] [--all-models]",
   "                    [--no-strict] [-v] [-q]"]

def generalLines : List Text :=
  ["",
   "Generate Laravel API controllers and Spatie Data objects from a Blueprint draft.",
   "",
   "options:",
   "  -h, --help            show this help message and exit",
   "  --version             show program's version number and exit",
   "  -d PATH, --draft PATH",
   "                        Path to the Blueprint draft file (YAML). Required",
   "                        unless --delete is set.",
   "  -o DIR, --output DIR  Laravel project root to write into. Required unless",
   "                        --validate-only is set."]

def modeLines : List Text :=
  ["",
   "operation modes:",
   "  --validate-only       Only validate the draft without generating code.",
   "  --dry-run             Render everything and report the files, but write",
   "                        nothing.",
   "  --delete NAME         Delete the generated API controller and Data object of",
   "                        resource NAME.",
   "  --manifest FILE       Also write the JSON manifest of generated files to",
   "                        FILE."]

def overrideLines : List Text :=
  ["",
   "configuration overrides:",
   "  --stubs DIR           Directory searched for stubs before the packaged ones",
   "                        (repeatable).",
   "  --namespace NS        Root PHP namespace (default: App).",
   "  --enum-strategy \x7bsuffix,qualified\x7d",
   "                        How enum class names are guessed when not declared.",
   "  --all-models          Also scaffold API controllers for models without one",
   "                        in the draft."]

def behaviourLines : List Text :=
  ["",
   "behaviour flags:",
   "  --no-strict           Generate even if validation reports errors.",
   "",
   "verbosity:",
   "  -v, --verbose         Increase verbosity (-v for INFO, -vv for DEBUG).",
   "  -q, --quiet           Suppress all output except errors."]

def exampleLines : List Text :=
  ["",
   "Examples:",
   "  blueprintgen -d draft.yaml -o ./app",
   "  blueprintgen -d draft.yaml --validate-only",
   "  blueprintgen -d draft.yaml -o ./app --dry-run -v",
   "  blueprintgen --delete Post -o ./app"]

/-- Lines as a text that ends its last line too. -/
def printed (lines : List Text) : Text := lines.flatMap fun line => line ++ ['\n']

def usage : Text := printed usageLines

def helpText : Text :=
  printed (usageLines ++ generalLines ++ modeLines ++ overrideLines ++ behaviourLines ++
    exampleLines)

/-- What is printed about a complaint. -/
def Complaint.notice (c : Complaint) : Text :=
  usage ++ programName ++ ": error: " ++ c.message ++ "\n"

end ApiScaffold.CommandLine
