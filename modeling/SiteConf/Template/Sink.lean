import SiteConf.Writer.Emitter

set_option autoImplicit false

/-! # Sinks

A writer of a template does not write to the output itself: it is given a sink, which collects
what it writes for one visit. The sink is replayed onto the emitter once the writer is done, so a
writer that fails leaves no output. -/

namespace SiteConf.Template

open SiteConf.Writer

/-- One thing written into a sink: a line of its own, or text as it is. -/
inductive Emission where
  | line (content : String)
  | raw (content : String)
  deriving DecidableEq, Repr, Inhabited

/-- The sink of one visit: where it is, what has been written into it, and whether the writer has
said that everything below the node is handled. -/
structure Sink where
  path : String
  line : LineRef
  level : Nat
  emitted : List Emission := []
  handled : Bool := false
  deriving DecidableEq, Repr, Inhabited

namespace Sink

def ofVisit (v : Visit) : Sink :=
  ⟨v.path, v.line, v.level, [], false⟩

def emit (e : Emission) (s : Sink) : Sink :=
  { s with emitted := s.emitted ++ [e] }

/-- Puts one emission on an emitter; lines are indented to a level. -/
def play (level : Nat) (emitter : Emitter) : Emission → Emitter
  | .line content => emitter.line level content
  | .raw content => emitter.write content

/-- Replays everything that was written, in order, at the level of the visit. -/
def replay (s : Sink) (emitter : Emitter) : Emitter :=
  s.emitted.foldl (play s.level) emitter

end Sink

end SiteConf.Template
