/-
# Library values as JSON

Reading settings, positions, tags, kinds, signs and degrees of rawness from JSON, and writing
those that are not part of a tree.
-/
import SyntaxTree.Json.Record
import SyntaxTree.Literal.Escape
import SyntaxTree.Settings
import SyntaxTree.Tree.JsonDump

namespace SyntaxTree

/-! ## 1. Settings -/

/-- The fields of settings, all optional. -/
def Settings.shape : Json.RecordShape where
  label := "struct BuilderConfig"
  fields :=
    [("tab_width", .whole UInt32.size "u32"), ("file_table_capacity", .whole UInt64.size "usize"),
      ("document_name", .text)]
  complete := false

/-- Settings from a record; fields that are missing have their standard values. -/
def Settings.ofRecord (record : Json.Record) : Settings where
  tabWidth :=
    match record.lookup "tab_width" with
    | some value => UInt32.ofNat value.toNat
    | none => standard.tabWidth
  fileCapacity :=
    match record.lookup "file_table_capacity" with
    | some value => UInt64.ofNat value.toNat
    | none => standard.fileCapacity
  documentName :=
    match record.lookup "document_name" with
    | some value => value.toText
    | none => standard.documentName

/-- Settings from JSON text. -/
def Settings.ofJson (text : List UInt8) : Except Json.Fault Settings :=
  (Json.Reader.run (Json.Reader.ofRecord shape) text).map ofRecord

/-- All settings. -/
def Settings.toJson (settings : Settings) : Json :=
  .object [("tab_width", .nat settings.tabWidth.toNat),
    ("file_table_capacity", .nat settings.fileCapacity.toNat),
    ("document_name", .string settings.documentName)]

/-! ## 2. Positions and tags -/

/-- The fields of a position, all required. -/
def Position.shape : Json.RecordShape where
  label := "struct Position"
  fields :=
    [("file", .whole UInt32.size "u32"), ("line", .whole UInt32.size "u32"),
      ("column", .whole UInt32.size "u32")]
  complete := true

/-- A position from a record of numbers. -/
def Position.ofRecord (record : Json.Record) : Position :=
  let number (name : String) : UInt32 :=
    UInt32.ofNat (((record.lookup name).map Json.FieldValue.toNat).getD 0)
  ⟨number "file", number "line", number "column"⟩

/-- A position from JSON text. -/
def Position.ofJson (text : List UInt8) : Except Json.Fault Position :=
  (Json.Reader.run (Json.Reader.ofRecord shape) text).map ofRecord

/-- A tag from the JSON text of its name. -/
def Tag.ofJson (text : List UInt8) : Except Json.Fault Tag :=
  (Json.Reader.run (Json.Reader.text "a string") text).map ofName

/-! ## 3. Choices -/

/-- The value of a choice whose name is read from JSON text. -/
def Json.choose {α : Type} (choices : List (String × α)) (text : List UInt8) :
    Except Fault (Option α) :=
  (Reader.run (Reader.variant (choices.map Prod.fst)) text).map fun name => choices.lookup name

/-- A kind from JSON text. -/
def Kind.ofJson (text : List UInt8) : Except Json.Fault Kind :=
  (Json.choose (all.map fun kind => (kind.key, kind)) text).map (·.getD .null)

/-- The name of a sign. -/
def Literal.Sign.key : Literal.Sign → String
  | positive => "Positive"
  | negative => "Negative"

/-- The sign as a string. -/
def Literal.Sign.toJson (sign : Literal.Sign) : Json := .string sign.key

/-- A sign from JSON text. -/
def Literal.Sign.ofJson (text : List UInt8) : Except Json.Fault Literal.Sign :=
  (Json.choose ([Sign.positive, .negative].map fun sign => (sign.key, sign)) text).map
    (·.getD .positive)

/-- The name of a degree of rawness. -/
def Rawness.key : Rawness → String
  | cooked => "Cooked"
  | raw => "Raw"
  | regex => "RegexRaw"

/-- The degree of rawness as a string. -/
def Rawness.toJson (rawness : Rawness) : Json := .string rawness.key

/-- A degree of rawness from JSON text. -/
def Rawness.ofJson (text : List UInt8) : Except Json.Fault Rawness :=
  (Json.choose ([cooked, raw, regex].map fun rawness => (rawness.key, rawness)) text).map
    (·.getD .cooked)

end SyntaxTree
