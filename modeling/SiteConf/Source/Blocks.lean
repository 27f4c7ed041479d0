import SiteConf.Error
import SiteConf.Log
import SiteConf.Source.Conditions
import SiteConf.Text.Blank
import SiteConf.Text.Lines

set_option autoImplicit false

/-! # Conditional blocks

A line `#ifdef NAME` or `#ifndef NAME` opens a block and a line `#endif` closes the innermost one.
Directives, and lines inside a block whose condition does not hold, become empty lines, so that
every line that stays keeps its number. -/

namespace SiteConf.Source

/-! ## Directives -/

/-- A line that opens or closes a block; an opener says whether its condition is wanted to
hold. -/
inductive Directive where
  | opener (wanted : Bool) (name : String)
  | closer
  | malformed
  deriving DecidableEq, Repr

/-- What follows the keyword on a line, when the keyword stands there as a word. -/
def afterKeyword? (keyword line : List Char) : Option (List Char) :=
  match Text.dropHead? keyword line with
  | some [] => some []
  | some (c :: rest) => if Text.isBlank c then some (c :: rest) else none
  | none => none

/-- An opener takes exactly one name. -/
def openerOf (wanted : Bool) (arguments : List Char) : Directive :=
  match Text.words arguments with
  | [name] => .opener wanted (String.ofList name)
  | _ => .malformed

/-- The directive on a line. White space around it does not matter. -/
def directive? (line : List Char) : Option Directive :=
  let line := Text.trim line
  match afterKeyword? "#ifdef".toList line with
  | some rest => some (openerOf true rest)
  | none =>
      match afterKeyword? "#ifndef".toList line with
      | some rest => some (openerOf false rest)
      | none =>
          match afterKeyword? "#endif".toList line with
          | some _ => some .closer
          | none => none

/-! ## Blocks -/

/-- An open block: does its condition hold, and on which line does it start? -/
structure Block where
  active : Bool
  line : Nat
  deriving DecidableEq, Repr, Inhabited

/-- Does the wanted state of a condition agree with its actual state? -/
def Conditions.agree (conditions : Conditions) (wanted : Bool) (name : String) : Bool :=
  conditions.contains name == wanted

/-- Resolves the lines from number `line` on, inside the open blocks, the innermost first. -/
def resolveLines (conditions : Conditions) (line : Nat) (blocks : List Block) :
    List (List Char) → Except Error (List (List Char))
  | [] =>
      match blocks.getLast? with
      | some first => .error (.unbalanced (some first.line) (.neverClosed blocks.length))
      | none => .ok []
  | l :: ls =>
      match directive? l with
      | some (.opener wanted name) =>
          let block := ⟨Conditions.agree conditions wanted name, line⟩
          (resolveLines conditions (line + 1) (block :: blocks) ls).map ([] :: ·)
      | some .closer =>
          match blocks with
          | _ :: outer => (resolveLines conditions (line + 1) outer ls).map ([] :: ·)
          | [] => .error (.unbalanced (some line) .strayEnd)
      | some .malformed => .error (.badSyntax (some line) .conditionName)
      | none =>
          let kept := if blocks.all (·.active) then l else []
          (resolveLines conditions (line + 1) blocks ls).map (kept :: ·)

def resolveBlocks (conditions : Conditions) (text : String) : Except Error String :=
  (resolveLines conditions 1 [] (Text.lines text.toList)).map
    fun ls => String.ofList (Text.unlines ls)

/-! ## The log -/

/-- The log of `resolveLines`, with `depth` open blocks. -/
def blockLines (line depth : Nat) : List (List Char) → Log
  | [] => []
  | l :: ls =>
      match directive? l with
      | some (.opener wanted name) =>
          let keyword := if wanted then "#ifdef " else "#ifndef "
          ⟨.trace, "line " ++ Number.showNat line ++ ": " ++ keyword ++ name⟩
            :: blockLines (line + 1) (depth + 1) ls
      | some .closer =>
          match depth with
          | outer + 1 => blockLines (line + 1) outer ls
          | 0 => []
      | some .malformed => []
      | none => blockLines (line + 1) depth ls

def blockLog (text : String) : Log :=
  blockLines 1 0 (Text.lines text.toList)

end SiteConf.Source
