import SiteConf.Line
import SiteConf.Tree

set_option autoImplicit false

/-! # Emitted text

An emitter collects the text of the generated configuration, line by line and indented, or
verbatim. A visit describes the node that a writer is called for. -/

namespace SiteConf.Writer

/-- The text emitted so far, and the text of one indentation level. -/
structure Emitter where
  text : String := ""
  unit : String := "  "
  deriving DecidableEq, Repr, Inhabited

def Emitter.indent (e : Emitter) (level : Nat) : String :=
  String.join (List.replicate level e.unit)

def Emitter.line (level : Nat) (content : String) (e : Emitter) : Emitter :=
  { e with text := e.text ++ e.indent level ++ content ++ "\n" }

def Emitter.write (content : String) (e : Emitter) : Emitter :=
  { e with text := e.text ++ content }

/-- The node that a writer is called for: the name of the field the writer belongs to, the node
itself, its path and line, and the level it is written at. -/
structure Visit where
  key : String
  value : Tree
  path : String
  level : Nat
  line : LineRef
  deriving Repr, Inhabited

end SiteConf.Writer
