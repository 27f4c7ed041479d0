import SiteConf.Source.Conditions
import SiteConf.Text.Blank
import SiteConf.Text.Lines
import SiteConf.Text.Word

set_option autoImplicit false

/-! # Inline conditionals

A line `#name,!other rest` stands for `rest` when all its tests hold: the conditions it names
bare hold, and those with `!` do not. Otherwise the line stays as it is, and its `#` makes it
a comment. Indentation is kept. -/

namespace SiteConf.Source

/-- A test of one condition, and whether the condition has to fail for it. -/
structure Test where
  negated : Bool
  name : String
  deriving DecidableEq, Repr, Inhabited

def Test.holds (conditions : Conditions) (t : Test) : Bool :=
  conditions.contains t.name != t.negated

/-- May a condition start with this character? -/
def startsName (c : Char) : Bool :=
  c.isAlphanum || c == '_'

/-- May a condition go on with this character? -/
def continuesName (c : Char) : Bool :=
  Text.isWordChar c || c == '.' || c == '-'

def test? (cs : List Char) : Option Test :=
  let split : Bool × List Char :=
    match cs with
    | '!' :: rest => (true, rest)
    | _ => (false, cs)
  match split.2 with
  | c :: rest =>
      if startsName c && rest.all continuesName then some ⟨split.1, String.ofList split.2⟩
      else none
  | [] => none

def endsTests (c : Char) : Bool :=
  c == ' ' || c == '\t'

/-- An inline conditional: its indentation, its tests and the rest of the line. -/
structure InlineConditional where
  indent : List Char
  tests : List Test
  rest : List Char
  deriving DecidableEq, Repr, Inhabited

/-- Reads an inline conditional; one space or tab divides the tests from the rest. -/
def inlineConditional? (line : List Char) : Option InlineConditional :=
  match line.dropWhile Text.isBlank with
  | '#' :: body =>
      match body.dropWhile (fun c => !endsTests c) with
      | _ :: rest =>
          let tests := (Text.cutAt ',' (body.takeWhile fun c => !endsTests c)).mapM test?
          tests.map fun ts => ⟨line.takeWhile Text.isBlank, ts, rest⟩
      | [] => none
  | _ => none

/-- The line with its inline conditional carried out. -/
def applyInlineToLine (conditions : Conditions) (line : List Char) : List Char :=
  match inlineConditional? line with
  | some c => if c.tests.all (·.holds conditions) then c.indent ++ c.rest else line
  | none => line

/-- Carries out the inline conditionals of a text. -/
def applyInline (conditions : Conditions) (text : String) : String :=
  String.ofList (Text.unlines ((Text.lines text.toList).map (applyInlineToLine conditions)))

end SiteConf.Source
