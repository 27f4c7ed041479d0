import SiteConf.Path
import SiteConf.Step

set_option autoImplicit false

/-! # Files

A directory tree as a value. Paths are followed step by step from the working directory, which is
the root of the tree: every step needs a directory, so a path through a file goes nowhere even if
it comes back. Nothing is known about what lies outside. -/

namespace SiteConf

/-- What is at a place: a directory, or a file with its content. -/
inductive FileNode where
  | directory
  | file (content : List UInt8)
  deriving DecidableEq, Repr, Inhabited

/-- Why a path leads nowhere, or what is at its end. -/
abbrev FileResult (α : Type) := Except FileFault α

/-- The files and directories below the working directory, by the names that lead to them. -/
structure Files where
  entries : List (List (List UInt8) × FileNode) := []
  deriving DecidableEq, Repr, Inhabited

namespace Files

/-! ## Looking up -/

/-- What is at a place; the working directory itself is always there. -/
def node? (files : Files) (names : List (List UInt8)) : Option FileNode :=
  if names.isEmpty then some .directory
  else (files.entries.find? fun e => e.1 == names).map (·.2)

/-- A place in the tree, or some directory outside of it. -/
inductive Place where
  | inside (names : List (List UInt8))
  | outside
  deriving DecidableEq, Repr, Inhabited

def at? (files : Files) : Place → Option FileNode
  | .inside names => files.node? names
  | .outside => some .directory

def step (files : Files) (place : Place) (c : Path.Component) : FileResult Place :=
  match files.at? place with
  | some .directory =>
      match c, place with
      | .root, _ => .ok .outside
      | .here, _ => .ok place
      | .up, .inside (n :: ns) => .ok (.inside (n :: ns).dropLast)
      | .up, _ => .ok .outside
      | .name n, .inside names =>
          if (files.node? (names ++ [n])).isSome then .ok (.inside (names ++ [n]))
          else .error .notFound
      | .name _, .outside => .error .notFound
  | some (.file _) => .error .notADirectory
  | none => .error .notFound

def follow (files : Files) : Place → List Path.Component → FileResult Place
  | place, [] => .ok place
  | place, c :: cs =>
      match files.step place c with
      | .ok next => files.follow next cs
      | .error e => .error e

/-- The steps that a path spells: every segment counts, and so does the root. -/
def stepsOf (p : Path) : List Path.Component :=
  let names := p.segments.map Path.componentOf
  if p.isAbsolute then .root :: names else names

/-- The place that a path leads to. A final slash asks for a directory, and the empty path leads
nowhere. -/
def locate (files : Files) (p : Path) : FileResult Place :=
  if p.bytes.isEmpty then .error .notFound
  else
    match files.follow (.inside []) (stepsOf p) with
    | .error e => .error e
    | .ok place =>
        match p.endsInSlash, files.at? place with
        | true, some (.file _) => .error .notADirectory
        | _, _ => .ok place

def read (files : Files) (p : Path) : FileResult (List UInt8) :=
  match files.locate p with
  | .error e => .error e
  | .ok place =>
      match files.at? place with
      | some (.file content) => .ok content
      | some .directory => .error .isADirectory
      | none => .error .notFound

/-! ## Changing -/

def put (names : List (List UInt8)) (node : FileNode) (files : Files) : Files :=
  if (files.node? names).isSome then
    ⟨files.entries.map fun e => if e.1 == names then (names, node) else e⟩
  else ⟨files.entries ++ [(names, node)]⟩

/-- Puts a node at a place and makes the directories above it that are missing. -/
def putAll (names : List (List UInt8)) (node : FileNode) (files : Files) : Files :=
  let above := (List.range names.length).map fun k => names.take k
  let files := above.foldl
    (fun fs dir => if (fs.node? dir).isSome then fs else fs.put dir .directory) files
  files.put names node

def makeDirectory (steps : List Path.Component) : Step Files FileFault Unit :=
  Step.of fun files =>
    match files.follow (.inside []) steps.dropLast with
    | .error e => (.error e, files)
    | .ok above =>
        match files.at? above, above, steps.getLast? with
        | some (.file _), _, _ => (.error .notADirectory, files)
        | _, .inside names, some (.name n) =>
            if (files.node? (names ++ [n])).isSome then (.error .alreadyExists, files)
            else (.ok (), files.put (names ++ [n]) .directory)
        | _, .outside, some (.name _) => (.ok (), files)
        | _, _, _ => (.error .alreadyExists, files)

def isDirectory (files : Files) (steps : List Path.Component) : Bool :=
  match files.follow (.inside []) steps with
  | .ok place => files.at? place == some .directory
  | .error _ => false

/-- A fault does not matter if the directory is there. -/
def unlessThere (steps : List Path.Component) (e : FileFault) : Step Files FileFault Unit := do
  if (← get).isDirectory steps then pure () else throw e

/-- Makes a directory and those above it that are missing. The steps are given from the last to
the first. -/
def makeDirectories : List Path.Component → Step Files FileFault Unit
  | [] => pure ()
  | c :: above => do
      let steps := (c :: above).reverse
      tryCatch (makeDirectory steps) fun
        | .notFound => do
            makeDirectories above
            tryCatch (makeDirectory steps) (unlessThere steps)
        | e => unlessThere steps e

/-- Writes a file that is there or whose directory is there. -/
def writeFile (p : Path) (content : List UInt8) : Step Files FileFault Unit :=
  Step.of fun files =>
    let steps := stepsOf p
    match files.follow (.inside []) steps.dropLast with
    | .error e => (.error e, files)
    | .ok above =>
        match files.at? above, above, steps.getLast? with
        | some (.file _), _, _ => (.error .notADirectory, files)
        | _, .inside names, some (.name n) =>
            if p.endsInSlash || files.node? (names ++ [n]) == some .directory then
              (.error .isADirectory, files)
            else (.ok (), files.put (names ++ [n]) (.file content))
        | _, .outside, some (.name _) =>
            if p.endsInSlash then (.error .isADirectory, files) else (.ok (), files)
        | _, _, _ => (.error .isADirectory, files)

/-- Writes a file, after the directories above it have been made. -/
def write (p : Path) (content : List UInt8) : Step Files FileFault Unit := do
  let above := (p.components.filter (· ≠ .here)).dropLast
  makeDirectories above.reverse
  writeFile p content

/-- The entries that are new or different, compared with an earlier state. -/
def changes (before after : Files) : List (List (List UInt8) × FileNode) :=
  after.entries.filter fun e => before.node? e.1 != some e.2

end Files

end SiteConf
