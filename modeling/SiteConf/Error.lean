import SiteConf.Line
import SiteConf.Template.Fault
import SiteConf.Token
import SiteConf.Tree

set_option autoImplicit false

/-! # What goes wrong

Every way in which the program can fail, as a cause; the wording of all messages is in this one
module. -/

namespace SiteConf

/-! ## Causes -/

/-- Why a text is not a configuration literal, or a conditional directive is malformed. -/
inductive SyntaxIssue where
  | unexpectedCharacter (c : Char)
  | unterminatedString
  | malformedNumber (digits : String)
  | numberRange (digits : String)
  | tooDeep (limit : Nat)
  | expectedValue (found : TokenKind)
  | badKey (found : TokenKind)
  | keyForm (key : String)
  | expectedColon (key : String) (found : TokenKind)
  | unclosedMapping (found : TokenKind)
  | unclosedSequence (found : TokenKind)
  | expectedName (found : TokenKind)
  | trailing (found : TokenKind)
  | cannotNegate (value : Int)
  | negatedScalar (value : Scalar)
  | negatedOther
  | conditionName
  | custom (message : String)
  deriving DecidableEq, Repr, Inhabited

def SyntaxIssue.text : SyntaxIssue → String
  | .unexpectedCharacter c => "unexpected character " ++ Text.quotedChar c
  | .unterminatedString => "unterminated string"
  | .malformedNumber digits => "malformed number starting with '" ++ digits ++ "'"
  | .numberRange digits =>
      "number '" ++ digits ++ "' out of range: number too large to fit in target type"
  | .tooDeep limit => "values nest deeper than " ++ Number.showNat limit ++ " levels"
  | .expectedValue found => "expected a value, found " ++ found.describe
  | .badKey found => "mapping keys must be identifiers, found " ++ found.describe
  | .keyForm key => "mapping key '" ++ key ++ "' must be non-empty and must not contain '.'"
  | .expectedColon key found =>
      "expected ':' after key '" ++ key ++ "', found " ++ found.describe
  | .unclosedMapping found => "expected '\x7d' to close mapping, found " ++ found.describe
  | .unclosedSequence found => "expected ']' to close sequence, found " ++ found.describe
  | .expectedName found => "expected a name after '.', found " ++ found.describe
  | .trailing found => "unexpected " ++ found.describe ++ " after the top-level value"
  | .cannotNegate value => "cannot negate " ++ Number.showInt value
  | .negatedScalar value => "only numbers can be negated, found '" ++ value.text ++ "'"
  | .negatedOther => "only numeric constants can be negated"
  | .conditionName => "conditional directive takes exactly one condition name"
  | .custom message => message

/-- Why conditional blocks do not match. -/
inductive BlockIssue where
  | strayEnd
  | neverClosed (count : Nat)
  deriving DecidableEq, Repr, Inhabited

def BlockIssue.text : BlockIssue → String
  | .strayEnd => "#endif without a matching #ifdef or #ifndef"
  | .neverClosed count => Number.showNat count ++ " conditional block(s) never closed"

inductive Pass where
  | conditionals
  | inline
  | placeholders
  deriving DecidableEq, Repr, Inhabited

def Pass.name : Pass → String
  | .conditionals => "ifdef"
  | .inline => "inline"
  | .placeholders => "placeholders"

/-- Why a file could not be read or written. -/
inductive FileFault where
  | notFound
  | alreadyExists
  | notADirectory
  | isADirectory
  | invalidText
  | other (text : String)
  deriving DecidableEq, Repr, Inhabited

def FileFault.text : FileFault → String
  | .notFound => "No such file or directory (os error 2)"
  | .alreadyExists => "File exists (os error 17)"
  | .notADirectory => "Not a directory (os error 20)"
  | .isADirectory => "Is a directory (os error 21)"
  | .invalidText => "stream did not contain valid UTF-8"
  | .other text => text

/-! ## Errors -/

/-- Everything that can go wrong. -/
inductive Error where
  | file (cause : FileFault)
  | template (fault : Template.Fault)
  | jsonFile
  | yamlFile
  | sourceMissing (path : String)
  | templateMissing (path : String)
  | lineCount (source : String) (stage : Pass) (before after : Nat)
  | unbalanced (line : LineRef) (issue : BlockIssue)
  | undefinedPlaceholder (name : String) (line : LineRef)
  | badSyntax (line : LineRef) (issue : SyntaxIssue)
  | duplicate (path : String) (line firstLine : LineRef)
  | unresolved (reference : String) (line : LineRef)
  | noWriter (path : String) (line : LineRef)
  | writerFailed (path : String) (line : LineRef) (message : String)
  | placeholderForm (text : String)
  | other (message : String)
  deriving DecidableEq, Repr, Inhabited

def Error.message : Error → String
  | .file cause => "IO error: " ++ cause.text ++ "."
  | .template fault => "Failed to render template. Original error: " ++ fault.text
  | .jsonFile => "Failed to parse JSON. Original error: invalid placeholder file"
  | .yamlFile => "Failed to parse YAML. Original error: invalid placeholder file"
  | .sourceMissing path =>
      "Cannot proceed: configuration source '" ++ path ++ "' does not exist."
  | .templateMissing path => "Cannot proceed: template '" ++ path ++ "' does not exist."
  | .lineCount source stage before after =>
      "Preprocessing '" ++ source ++ "' (" ++ stage.name ++ ") changed its line count from "
        ++ Number.showNat before ++ " to " ++ Number.showNat after ++ "."
  | .unbalanced line issue =>
      "Unbalanced conditional at line " ++ line.text ++ ": " ++ issue.text ++ "."
  | .undefinedPlaceholder name line =>
      "Undefined placeholder '@@" ++ name ++ "@@' at line " ++ line.text ++ "."
  | .badSyntax line issue => "Syntax error at line " ++ line.text ++ ": " ++ issue.text ++ "."
  | .duplicate path line firstLine =>
      "Duplicate definition of '" ++ path ++ "' at line " ++ line.text
        ++ ", first defined at line " ++ firstLine.text ++ "."
  | .unresolved reference line =>
      "Cannot resolve reference '" ++ reference ++ "' at line " ++ line.text ++ "."
  | .noWriter path line =>
      "No writer registered for '" ++ path ++ "' (line " ++ line.text ++ ")."
  | .writerFailed path line message =>
      "Writer failed while visiting '" ++ path ++ "' (line " ++ line.text ++ "): " ++ message
  | .placeholderForm text =>
      "Invalid placeholder definition '" ++ text ++ "'. Expected KEY=VALUE."
  | .other message => message

end SiteConf
