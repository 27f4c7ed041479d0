import SiteConf.Log
import SiteConf.Template.Operator
import SiteConf.Text.Casing
import SiteConf.Text.Pattern.Reader
import SiteConf.Text.Spelling

set_option autoImplicit false

/-! # Filters and tests

A filter or test gets a value and further arguments. Arguments are converted from left to right;
the first that is missing or of the wrong kind is the fault, and only then those that are too
many. -/

namespace SiteConf.Template

/-! ## Arguments -/

def missingArgument : Fault := ⟨.missingArgument, none⟩

/-- The first argument and the others. -/
def required : List Value → Except Fault (Value × List Value)
  | [] => .error missingArgument
  | v :: rest => .ok (v, rest)

/-- The first argument, if it is given and not absent, and the others. -/
def optional : List Value → Option Value × List Value
  | [] => (none, [])
  | v :: rest => (if v.isAbsent then none else some v, rest)

/-- The printed form of any argument but those by name. -/
def printed : Value → Except Fault String
  | .arguments _ => .error invalidOperation
  | v => .ok v.text

/-- An argument that has to be a text. -/
def textual : Value → Except Fault String
  | .str s => .ok s
  | _ => .error invalidOperation

/-- An argument that has to be a truth value. -/
def truth : Value → Except Fault Bool
  | .bool b => .ok b
  | _ => .error invalidOperation

/-- The printed form of an optional argument. -/
def printed? (v : Option Value) : Except Fault (Option String) :=
  match v with
  | none => .ok none
  | some v => (printed v).map some

/-! ## Filters -/

def onPrinted (f : List Char → List Char) (v : Value) (args : List Value) :
    Except Fault Value := do
  let s ← printed v
  noMore args
  return .str (String.ofList (f s.toList))

def onText (f : String → String) (v : Value) (args : List Value) : Except Fault Value := do
  let s ← textual v
  noMore args
  return .str (f s)

/-- A filter that takes no further arguments. -/
def onValue (f : Value → Except Fault Value) (v : Value) (args : List Value) :
    Except Fault Value := do
  noMore args
  f v

/-- The number of characters, items or pairs. -/
def lengthOf : Value → Except Fault Value
  | .str s => .ok (.int s.toList.length)
  | .seq items => .ok (.int items.length)
  | .map pairs => .ok (.int pairs.length)
  | .arguments named => .ok (.int named.length)
  | _ => .error invalidOperation

/-- The first character, item or key. -/
def firstOf : Value → Except Fault Value
  | .str s => .ok (s.toList.head?.elim .undefined fun c => .str (String.ofList [c]))
  | .seq items => .ok (items.head?.getD .undefined)
  | .map pairs => .ok ((pairs.map (·.1)).head?.getD .undefined)
  | _ => .error invalidOperation

/-- The last character or item. -/
def lastOf : Value → Except Fault Value
  | .str s => .ok (s.toList.getLast?.elim .undefined fun c => .str (String.ofList [c]))
  | .seq items => .ok (items.getLast?.getD .undefined)
  | _ => .error invalidOperation

/-- The characters, items or keys in reverse. -/
def reverseOf : Value → Except Fault Value
  | .undefined => .ok .undefined
  | .none => .ok .none
  | .str s => .ok (.str (String.ofList s.toList.reverse))
  | .seq items => .ok (.seq items.reverse)
  | .map pairs => .ok (.seq (pairs.map (·.1)).reverse)
  | _ => .error invalidOperation

/-- The pairs of a mapping as lists. -/
def pairsOf : Value → Except Fault Value
  | .map pairs => .ok (.seq (pairs.map fun p => .seq [p.1, p.2]))
  | .arguments named => .ok (.seq (named.map fun p => .seq [.str p.1, p.2]))
  | _ => .error invalidOperation

/-- The printed forms one after the other; the separator stands before each one that does not
start the text. -/
def joinValues (separator : String) (items : List Value) : String :=
  items.foldl
    (fun s v => if s.toList.isEmpty then v.text else s ++ separator ++ v.text) ""

def join (v : Value) (args : List Value) : Except Fault Value := do
  let (separator, rest) := optional args
  let separator ← printed? separator
  noMore rest
  if v.isAbsent then
    return .str ""
  match v.items? with
  | some items => return .str (joinValues (separator.getD "") items)
  | none => .error invalidOperation

/-- The default for an undefined value, or, when asked for, for any value that counts as false. -/
def default (v : Value) (args : List Value) : Except Fault Value := do
  let (other, rest) := optional args
  let (lax, rest) := optional rest
  let lax ← match lax with
    | some b => truth b
    | none => pure false
  noMore rest
  if v.isUndefined || (lax && !v.isTrue) then
    return other.getD (.str "")
  return v

/-- Drops characters at both ends: white space, or those of the argument. -/
def trim (v : Value) (args : List Value) : Except Fault Value := do
  let s ← printed v
  let (chars, rest) := optional args
  let chars ← printed? chars
  noMore rest
  let drops : Char → Bool := fun c =>
    match chars with
    | none => Text.isBlank c
    | some set => set.toList.contains c
  return .str (String.ofList (((s.toList.dropWhile drops).reverse.dropWhile drops).reverse))

def replace (v : Value) (args : List Value) : Except Fault Value := do
  let s ← printed v
  let (a, rest) ← required args
  let part ← printed a
  let (b, rest) ← required rest
  let image ← printed b
  noMore rest
  return .str (String.ofList (Text.replace part.toList image.toList s.toList))

/-- Does one value come before another when sorted? Texts are compared without their case in
ASCII, unless it matters. -/
def sortsBefore (caseMatters : Bool) (a b : Value) : Bool :=
  match a, b with
  | .str s, .str t =>
      if caseMatters then Value.compareText s t != .gt
      else
        let small (x : String) := String.ofList (x.toList.map Char.toLower)
        Value.compareText (small s) (small t) != .gt
  | _, _ => Value.order a b != .gt

/-- An optional truth value among arguments by name. -/
def namedTruth (name : String) (named : List (String × Value)) : Except Fault Bool :=
  match named.find? fun a => a.1 == name with
  | some (_, v) => if v.isAbsent then .ok false else truth v
  | none => .ok false

/-- Sorts items; equal ones keep their order. -/
def sort (v : Value) (args : List Value) : Except Fault Value := do
  let named : List (String × Value) := match args with
    | [.arguments named] => named
    | _ => []
  match args with
  | [] | [.arguments _] => pure ()
  | _ => .error tooManyArguments
  let items ← match v.items? with
    | some items => pure items
    | none => .error invalidOperation
  let caseMatters ← namedTruth "case_sensitive" named
  let reversed ← namedTruth "reverse" named
  if named.any fun a => a.1 != "case_sensitive" && a.1 != "reverse" then
    .error tooManyArguments
  else
    let sorted := items.mergeSort (sortsBefore caseMatters)
    return .seq (if reversed then sorted.reverse else sorted)

/-- Does a pattern occur in a text? -/
def matchesPattern (v : Value) (args : List Value) : Except Fault Value := do
  let s ← textual v
  let (p, rest) ← required args
  let pattern ← textual p
  noMore rest
  return .bool (Text.Pattern.searches pattern s)

/-- A spelling of names as a filter. -/
def spelled (f : List Char → List Char) : Value → List Value → Except Fault Value :=
  onText fun s => String.ofList (f s.toList)

def filter? : String → Option (Value → List Value → Except Fault Value)
  | "upper" => some (onPrinted Text.uppercase)
  | "lower" => some (onPrinted Text.lowercase)
  | "capitalize" => some (onPrinted Text.capitalize)
  | "trim" => some trim
  | "replace" => some replace
  | "length" | "count" => some (onValue lengthOf)
  | "join" => some join
  | "first" => some (onValue firstOf)
  | "last" => some (onValue lastOf)
  | "reverse" => some (onValue reverseOf)
  | "sort" => some sort
  | "default" | "d" => some default
  | "string" => some (onValue fun v => .ok (.str v.text))
  | "items" => some (onValue pairsOf)
  | "quote" => some (onText Text.doubleQuoted)
  | "regex" => some matchesPattern
  | "camel_case" => some (spelled Text.camelCase)
  | "kebab_case" => some (spelled Text.kebabCase)
  | "pascal_case" => some (spelled Text.pascalCase)
  | "screaming_snake_case" => some (spelled Text.screamingSnakeCase)
  | "snake_case" => some (spelled Text.snakeCase)
  | _ => none

def applyFilter (name : String) (v : Value) (args : List Value) : Except Fault Value :=
  match filter? name with
  | some f => f v args
  | none => .error ⟨.unknownFilter, none⟩

/-- The log of `applyFilter`: a pattern that is none is reported. -/
def filterLog (name : String) (v : Value) (args : List Value) : Log :=
  match name, v, args with
  | "regex", .str _, [.str pattern] =>
      if (Text.Pattern.parse? pattern).isSome then []
      else [⟨.warn, "Invalid regex '" ++ pattern ++ "': regex parse error"⟩]
  | _, _, _ => []

/-! ## Tests -/

/-- A test without arguments. -/
def plainTest (f : Value → Bool) (v : Value) (args : List Value) : Except Fault Bool := do
  noMore args
  return f v

/-- Is the integer of a value odd or even? -/
def hasParity (parity : Int) (v : Value) : Bool :=
  match v.int? with
  | some n => n % 2 == parity
  | none => false

/-- Does the printed form start with that of the argument? -/
def startingWith (v : Value) (args : List Value) : Except Fault Bool := do
  let s ← printed v
  let (a, rest) ← required args
  let head ← printed a
  noMore rest
  return (Text.dropHead? head.toList s.toList).isSome

def test? : String → Option (Value → List Value → Except Fault Bool)
  | "defined" => some (plainTest fun v => !v.isUndefined)
  | "undefined" => some (plainTest Value.isUndefined)
  | "none" => some (plainTest fun v => v.kind == .none)
  | "number" => some (plainTest fun v => v.kind == .number)
  | "string" => some (plainTest fun v => v.kind == .string)
  | "sequence" => some (plainTest fun v => v.kind == .sequence)
  | "mapping" => some (plainTest fun v => v.kind == .mapping)
  | "boolean" => some (plainTest fun v => v.kind == .bool)
  | "iterable" => some (plainTest fun v => v.items?.isSome)
  | "odd" => some (plainTest (hasParity 1))
  | "even" => some (plainTest (hasParity 0))
  | "true" => some (plainTest fun v => v.kind == .bool && v.isTrue)
  | "false" => some (plainTest fun v => v.kind == .bool && !v.isTrue)
  | "startingwith" => some startingWith
  | _ => none

def applyTest (name : String) (v : Value) (args : List Value) : Except Fault Bool :=
  match test? name with
  | some f => f v args
  | none => .error ⟨.unknownTest, none⟩

end SiteConf.Template
