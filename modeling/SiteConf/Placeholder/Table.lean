import SiteConf.Json.Reader
import SiteConf.Path
import SiteConf.Placeholder
import SiteConf.Yaml.Reader

set_option autoImplicit false

/-! # Placeholder files

A file with placeholder values is an object in JSON or a flat mapping in YAML, by its extension.
Values are integers, fractions and texts; integers beyond 64 bits become fractions. -/

namespace SiteConf.Placeholder

abbrev FileReader := Path → Except FileFault (List UInt8)

def readText (read : FileReader) (path : Path) : Except Error String :=
  match read path with
  | .error e => .error (.file e)
  | .ok bytes =>
      match Text.ofBytes? bytes with
      | some text => .ok text
      | none => .error (.file .invalidText)

/-- An integer, or the fraction nearest to it. -/
def Value.ofInt (n : Int) : Value :=
  if Number.fits n then .int n else .float (.ofInt n)

def Value.ofJson? : Json → Option Value
  | .int n => some (.ofInt n)
  | .float x => some (.float x)
  | .str s => some (.str s)
  | _ => none

def Value.ofYaml? (s : Yaml.Scalar) : Option Value :=
  match s.atom with
  | .int n => some (.ofInt n)
  | .float x => some (.float x)
  | .str s => some (.str s)
  | _ => none

/-- A table from entries that all have a value; a repeated name keeps its place and takes the last
value. -/
def tableOf {α : Type} (value? : α → Option Value) (entries : List (String × α)) :
    Option Placeholders :=
  (entries.mapM fun e => (value? e.2).map fun v => (e.1, v)).map (Ordered.insertAll · [])

def ofJson (text : String) : Except Error Placeholders :=
  match Json.parse? text with
  | some (.object members) =>
      match tableOf Value.ofJson? members with
      | some table => .ok table
      | none => .error .jsonFile
  | _ => .error .jsonFile

def ofYaml (text : String) : Except Error Placeholders :=
  match (Yaml.parse? text).bind (tableOf Value.ofYaml?) with
  | some table => .ok table
  | none => .error .yamlFile

inductive Format where
  | json
  | yaml
  deriving DecidableEq, Repr

def Format.ofExtension? : String → Option Format
  | "json" => some .json
  | "yaml" => some .yaml
  | "yml" => some .yaml
  | _ => none

def load (read : FileReader) (path : Path) : Except Error Placeholders := do
  let content ← readText read path
  match path.extensionText?.bind Format.ofExtension? with
  | some .json => ofJson content
  | some .yaml => ofYaml content
  | none =>
      let name ← path.text
      .error (.placeholderForm (name ++ ": unsupported placeholder file type"))

end SiteConf.Placeholder
