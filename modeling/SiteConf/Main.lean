import SiteConf.Command.Run

set_option autoImplicit false

/-! # The command line

The outer layer: it reads the files that a run needs, prints, and writes the output file. All
decisions are made elsewhere. -/

namespace SiteConf

/-- The fault of a file operation that went wrong. A path through a file has code 20. -/
def faultOf : IO.Error → FileFault
  | .noFileOrDirectory _ _ _ => .notFound
  | .alreadyExists _ _ _ => .alreadyExists
  | .inappropriateType _ code _ => if code = 20 then .notADirectory else .isADirectory
  | e => .other (toString e)

def readFile (name : String) : IO (Except FileFault (List UInt8)) := do
  try
    return .ok (← IO.FS.readBinFile name).toList
  catch e =>
    return .error (faultOf e)

def directoryOf (name : String) : String :=
  String.ofList ((name.toList.reverse.dropWhile (· ≠ '/')).reverse)

def writeOutput (path : Path) (content : String) : IO (Except FileFault Unit) := do
  try
    let name := path.display
    let above := directoryOf name
    if !above.isEmpty then
      IO.FS.createDirAll above
    IO.FS.writeFile name content
    return .ok ()
  catch e =>
    return .error (faultOf e)

def printLog (level : Level) (log : Log) : IO Unit :=
  (log.upTo level).forM fun e => IO.eprintln ("[" ++ e.level.name ++ "] " ++ e.message)

def printReport (level : Level) (r : Command.Report) : IO UInt32 := do
  printLog level r.log
  IO.print r.stdout
  IO.eprint r.stderr
  return r.exit.toUInt32

def runWith (o : Command.Options) : IO UInt32 := do
  let names := o.placeholdersFile.toList ++ [o.config, o.template]
  let contents ← names.mapM fun name => do return (Path.ofText name, ← readFile name)
  let read : Placeholder.FileReader := fun path =>
    match contents.find? fun c => c.1 == path with
    | some (_, content) => content
    | none => .error .notFound
  let built := Command.build read o
  match built.result, Command.target? (o.output.map Path.ofText) with
  | .error e, _ => printReport o.level (Command.reportOf ⟨.error e, built.log⟩)
  | .ok text, none =>
      printReport o.level (Command.reportOf ⟨.ok text, built.log ++ [Command.doneLine o]⟩)
  | .ok text, some path =>
      let log := built.log ++ [Command.writingLine path]
      match ← writeOutput path text with
      | .ok () => printReport o.level (Command.reportOf ⟨.ok "", log ++ [Command.doneLine o]⟩)
      | .error e => printReport o.level (Command.reportOf ⟨.error (.file e), log⟩)

end SiteConf

def main (words : List String) : IO UInt32 :=
  match SiteConf.Command.Options.parse words with
  | .error u => SiteConf.printReport .error u.report
  | .ok o => SiteConf.runWith o
