import SiteConf.Command.Help
import SiteConf.Command.Options
import SiteConf.Compiler.Source
import SiteConf.Files
import SiteConf.Placeholder.Argument
import SiteConf.Text.Quoted

set_option autoImplicit false

/-! # Running the program

A run collects the conditions and placeholders, compiles, and delivers the text to a file or to
the standard output. Reading and compiling come first; nothing is written unless both succeed. -/

namespace SiteConf.Command

open SiteConf.Placeholder

/-! ## Preparing -/

/-- The conditions that are switched on: white space around a name does not count, nor do empty
names and repetitions. -/
def Options.conditionNames (o : Options) : Conditions :=
  let names := o.conditions.map fun c => String.ofList (Text.trim c.toList)
  distinct (names.filter fun c => !c.isEmpty)

/-- The placeholders: those of the file, then those of the command line. -/
def collectPlaceholders (read : FileReader) (o : Options) : Except Error Placeholders := do
  let table ← match o.placeholdersFile with
    | some file => load read (Path.ofText file)
    | none => pure []
  addArguments table o.placeholders

/-- How chatty the log is. -/
def Options.level (o : Options) : Level :=
  match o.verbose with
  | 0 => .error
  | 1 => .info
  | 2 => .debug
  | _ => .trace

/-- The log line about what a run works with. -/
def settingsLine (conditions : Conditions) (placeholders : Placeholders) : String :=
  let quotedList (names : List String) := String.intercalate ", " (names.map Text.quoted)
  "Conditions: \x7b" ++ quotedList conditions ++ "\x7d; placeholders: ["
    ++ quotedList (Ordered.keys placeholders) ++ "]"

/-- Everything up to the text that is to be delivered. -/
def build (read : FileReader) (o : Options) : Outcome String := do
  let placeholders ← Outcome.ofResult (collectPlaceholders read o)
  let conditions := o.conditionNames
  Outcome.note .debug (settingsLine conditions placeholders)
  Compiler.compileFiles ⟨conditions, placeholders⟩ read (Path.ofText o.config)
    (Path.ofText o.template)

/-! ## Delivering -/

def standardOutput : Path := Path.ofText "-"

/-- The file that a text goes to; none is the standard output. -/
def target? (output : Option Path) : Option Path :=
  match output with
  | some path => if path.same standardOutput then none else some path
  | none => none

def writingLine (path : Path) : LogEntry :=
  ⟨.debug, "Writing output to " ++ path.display⟩

/-- Delivers a text: what goes to the standard output, and the files afterwards. -/
def deliver (output : Option Path) (text : String) (files : Files) : Outcome String × Files :=
  match target? output with
  | none => (pure text, files)
  | some path =>
      match (Files.write path (Text.bytes text)).run files with
      | (.ok (), after) => (⟨.ok "", [writingLine path]⟩, after)
      | (.error e, after) => (⟨.error (.file e), [writingLine path]⟩, after)

def doneLine (o : Options) : LogEntry :=
  ⟨.info, "Compiled " ++ (Path.ofText o.config).display⟩

/-- Runs the program on files: what goes to the standard output, and the files afterwards. -/
def run (o : Options) (files : Files) : Outcome String × Files :=
  let built := build files.read o
  match built.result with
  | .error e => (⟨.error e, built.log⟩, files)
  | .ok text =>
      let (delivered, after) := deliver (o.output.map Path.ofText) text files
      let log := built.log ++ delivered.log
      match delivered.result with
      | .ok out => (⟨.ok out, log ++ [doneLine o]⟩, after)
      | .error e => (⟨.error e, log⟩, after)

/-! ## The process -/

/-- What a process leaves: its exit code, what it printed, and its log. -/
structure Report where
  exit : Nat
  stdout : String
  stderr : String
  log : Log := []
  deriving Repr, Inhabited

/-- The report on a command line that is not run. A command line that lacks something required gets
the help text, and counts as a failure. -/
def Usage.report : Usage → Report
  | .help => ⟨0, helpText, "", []⟩
  | .version => ⟨0, versionText, "", []⟩
  | .missingRequired => ⟨1, helpText ++ "\n", "", []⟩
  | _ => ⟨2, "", "error: see --help\n", []⟩

def reportOf (o : Outcome String) : Report :=
  match o.result with
  | .ok out => ⟨0, out, "", o.log⟩
  | .error e => ⟨1, "", e.message ++ "\n", o.log ++ [⟨.error, e.message⟩]⟩

def process (words : List String) (files : Files) : Report × Files :=
  match Options.parse words with
  | .error u => (u.report, files)
  | .ok o =>
      let (outcome, after) := run o files
      (reportOf outcome, after)

end SiteConf.Command
