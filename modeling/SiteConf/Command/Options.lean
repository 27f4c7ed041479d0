import SiteConf.Text.Lines

set_option autoImplicit false

/-! # Command-line options

One argument by place, the configuration; options with a value; and flags. Words are taken from
left to right. An option that waits for its value is settled by what comes next, so a missing or
bad value is reported before anything that follows is acted on, unless that is unknown. -/

namespace SiteConf.Command

/-- What is wrong with a command line, or what it asks for instead of a run. -/
inductive Usage where
  | missingRequired
  | invalidValue
  | conflict
  | unknownArgument
  | tooManyValues
  | help
  | version
  deriving DecidableEq, Repr, Inhabited

structure Options where
  config : String
  template : String
  conditions : List String := []
  placeholders : List String := []
  placeholdersFile : Option String := none
  output : Option String := none
  verbose : Nat := 0
  deriving DecidableEq, Repr, Inhabited

/-! ## Names -/

/-- What takes a value. -/
inductive Setting where
  | config
  | template
  | define
  | set
  | placeholdersFile
  | output
  deriving DecidableEq, Repr

/-- What takes none. -/
inductive Flag where
  | verbose
  | help
  | version
  deriving DecidableEq, Repr

def longName? : String → Option (Setting ⊕ Flag)
  | "template" => some (.inl .template)
  | "define" => some (.inl .define)
  | "set" => some (.inl .set)
  | "placeholders" => some (.inl .placeholdersFile)
  | "output" => some (.inl .output)
  | "verbose" => some (.inr .verbose)
  | "help" => some (.inr .help)
  | "version" => some (.inr .version)
  | _ => none

def shortName? : Char → Option (Setting ⊕ Flag)
  | 't' => some (.inl .template)
  | 'D' => some (.inl .define)
  | 's' => some (.inl .set)
  | 'p' => some (.inl .placeholdersFile)
  | 'o' => some (.inl .output)
  | 'v' => some (.inr .verbose)
  | 'h' => some (.inr .help)
  | 'V' => some (.inr .version)
  | _ => none

/-! ## Reading the words -/

/-- What has been read: the values so far, the setting that is not settled yet with its value, if
it has one, and whether only arguments by place can follow. -/
structure Draft where
  config : Option String := none
  template : Option String := none
  conditions : List String := []
  placeholders : List String := []
  placeholdersFile : Option String := none
  output : Option String := none
  verbose : Nat := 0
  pending : Option (Setting × Option String) := none
  placed : Bool := false
  onlyPlaces : Bool := false
  deriving Repr, Inhabited

/-- A path that is given once and is not empty. -/
def once (before : Option String) (value : String) : Except Usage (Option String) :=
  if before.isSome then .error .conflict
  else if value.isEmpty then .error .invalidValue
  else .ok (some value)

/-- Gives a setting a value. Names of conditions are separated by commas. -/
def Draft.give (d : Draft) (s : Setting) (value : String) : Except Usage Draft :=
  match s with
  | .config => (once d.config value).map fun v => { d with config := v }
  | .template => (once d.template value).map fun v => { d with template := v }
  | .placeholdersFile =>
      (once d.placeholdersFile value).map fun v => { d with placeholdersFile := v }
  | .output => (once d.output value).map fun v => { d with output := v }
  | .define =>
      .ok { d with conditions := d.conditions
        ++ (Text.cutAt ',' value.toList).map String.ofList }
  | .set => .ok { d with placeholders := d.placeholders ++ [value] }

/-- Settles the setting that waits. -/
def Draft.settle (d : Draft) : Except Usage Draft :=
  match d.pending with
  | none => .ok d
  | some (_, none) => .error .invalidValue
  | some (s, some value) => { d with pending := none }.give s value

/-- A setting, with a value attached to it or without. -/
def Draft.setting (d : Draft) (s : Setting) (attached : Option String) : Except Usage Draft := do
  let d ← d.settle
  match attached with
  | some value => d.give s value
  | none => return { d with pending := some (s, none) }

/-- The largest number of times that a flag counts. -/
def maxVerbose : Nat := 255

def Draft.flag (d : Draft) (f : Flag) : Except Usage Draft := do
  let d ← d.settle
  match f with
  | .verbose => return { d with verbose := min (d.verbose + 1) maxVerbose }
  | .help => .error .help
  | .version => .error .version

/-- A word that starts with two dashes, after them. -/
def Draft.long (d : Draft) (word : List Char) : Except Usage Draft :=
  let name := word.takeWhile (· ≠ '=')
  let attached : Option String :=
    match word.drop name.length with
    | _ :: value => some (String.ofList value)
    | [] => none
  match longName? (String.ofList name), attached with
  | some (.inl s), _ => d.setting s attached
  | some (.inr f), none => d.flag f
  | some (.inr _), some _ => .error .tooManyValues
  | none, _ => .error .unknownArgument

/-- A word that starts with one dash, after it: flags, and at the end perhaps a setting with its
value. -/
def Draft.short : List Char → Draft → Except Usage Draft
  | [], d => .ok d
  | c :: cs, d =>
      match shortName? c with
      | some (.inl s) =>
          d.setting s
            (match cs with
            | [] => none
            | '=' :: value => some (String.ofList value)
            | value => some (String.ofList value))
      | some (.inr f) => do
          let d ← d.flag f
          short cs d
      | none => .error .unknownArgument

/-- An argument by place; there is one place. -/
def Draft.place (d : Draft) (word : String) : Except Usage Draft :=
  if d.placed then .error .unknownArgument
  else do
    let d ← d.settle
    return { d with pending := some (.config, some word), placed := true }

/-- A word that is no option: the value that is waited for, or an argument by place. -/
def Draft.value (d : Draft) (word : String) : Except Usage Draft :=
  match d.pending with
  | some (s, none) => .ok { d with pending := some (s, some word) }
  | _ => d.place word

def Draft.take (d : Draft) (word : String) : Except Usage Draft :=
  if d.onlyPlaces then d.place word
  else
    match word.toList with
    | ['-', '-'] => .ok { d with onlyPlaces := true }
    | '-' :: '-' :: rest => d.long rest
    | ['-'] => d.value word
    | '-' :: rest => Draft.short rest d
    | _ => d.value word

def Draft.finish (d : Draft) : Except Usage Options := do
  let d ← d.settle
  match d.config, d.template with
  | some config, some template =>
      return ⟨config, template, d.conditions, d.placeholders, d.placeholdersFile, d.output,
        d.verbose⟩
  | _, _ => .error .missingRequired

def Options.parse (words : List String) : Except Usage Options := do
  let d ← words.foldlM Draft.take {}
  d.finish

end SiteConf.Command
