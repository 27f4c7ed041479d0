import SiteConf.Error
import SiteConf.Text.Lines
import SiteConf.Text.Utf8

set_option autoImplicit false

/-! # File paths

A path is a sequence of bytes, since file names need not be text. Slashes separate its segments;
empty segments do not count, nor do single dots after the first segment. -/

namespace SiteConf

structure Path where
  bytes : List UInt8
  deriving DecidableEq, Repr, Inhabited

namespace Path

def ofText (text : String) : Path :=
  ⟨Text.bytes text⟩

def slash : UInt8 := 47

def dot : UInt8 := 46

/-! ## Segments and components -/

/-- The segments that are not empty. -/
def segments (p : Path) : List (List UInt8) :=
  (Text.cutAt slash p.bytes).filter fun s => !s.isEmpty

/-- Does the path start at the root of the file system? -/
def isAbsolute (p : Path) : Bool :=
  p.bytes.head? == some slash

def endsInSlash (p : Path) : Bool :=
  p.bytes.getLast? == some slash

inductive Component where
  | root
  | here
  | up
  | name (bytes : List UInt8)
  deriving DecidableEq, Repr, Inhabited

def componentOf (segment : List UInt8) : Component :=
  if segment = [dot] then .here
  else if segment = [dot, dot] then .up
  else .name segment

/-- The components of a path; a single dot counts at the start of a relative path only. -/
def components (p : Path) : List Component :=
  let all := p.segments.map componentOf
  if p.isAbsolute then .root :: all.filter (· ≠ .here)
  else match all with
    | [] => []
    | first :: rest => first :: rest.filter (· ≠ .here)

/-- Two paths are the same if their components are. -/
def same (p q : Path) : Bool :=
  p.components == q.components

/-! ## Names -/

/-- The name of the file: the last component, if it is a name. -/
def fileName? (p : Path) : Option (List UInt8) :=
  match p.components.getLast? with
  | some (.name bytes) => some bytes
  | _ => none

/-- What follows the last dot of a file name. A name whose only dot is its first byte has no
extension. -/
def extensionOf? (name : List UInt8) : Option (List UInt8) :=
  let after := (name.reverse.takeWhile (· ≠ dot)).reverse
  if after.length + 1 < name.length then some after else none

def extension? (p : Path) : Option (List UInt8) :=
  p.fileName?.bind extensionOf?

/-- The extension as text, with ASCII letters in lower case. -/
def extensionText? (p : Path) : Option String :=
  (p.extension?.bind Text.ofBytes?).map fun s => String.ofList (s.toList.map Char.toLower)

def display (p : Path) : String :=
  Text.ofBytesLossy p.bytes

/-- The path as text; an error if it is none. -/
def text (p : Path) : Except Error String :=
  match Text.ofBytes? p.bytes with
  | some s => .ok s
  | none => .error (.other ("Path '" ++ p.display ++ "' contains invalid Unicode characters"))

end Path

end SiteConf
