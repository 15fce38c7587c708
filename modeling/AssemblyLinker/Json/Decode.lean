import AssemblyLinker.Json.Basic
import AssemblyLinker.Text.Quoted

/-! # Reading typed data from JSON values

    A decoder turns a value into data of a type, or names the first thing that does not
    fit. A record is written as an object, or as a list of its fields in their order.

    Of several faults of an object the first badly typed member counts, in the order of
    the keys; only then a missing field, in the order of the fields. Members with other
    keys are ignored.
-/

namespace AssemblyLinker.Json

/-- What a record is called, and how many fields it has. -/
structure RecordShape where
  name : String
  size : Nat
  deriving DecidableEq, Repr

/-- What a decoder wants to see. -/
inductive Wanted where
  | text
  | flag
  | list
  | record (shape : RecordShape)
  deriving DecidableEq, Repr

/-- Why a value does not fit. -/
inductive Mismatch where
  | wrongType (found : Json) (wanted : Wanted)
  | missingField (key : String)
  /-- A list that ends before a required field. -/
  | tooShort (length : Nat) (shape : RecordShape)
  /-- A list that goes on after the last field. -/
  | tooLong (length : Nat)
  deriving DecidableEq, Repr

/-- The wording of what has been found. -/
def found : Json → String
  | .null => "null"
  | .bool b => s!"boolean `{b}`"
  | .num (.whole n) => s!"integer `{n}`"
  | .num (.float x) => s!"floating point `{String.ofList x.text}`"
  | .str s => "string " ++ Text.quoted s
  | .arr _ => "sequence"
  | .obj _ => "map"

/-- The wording of what is wanted. -/
def Wanted.message : Wanted → String
  | .text => "a string"
  | .flag => "a boolean"
  | .list => "a sequence"
  | .record shape => s!"struct {shape.name}"

/-- The wording of a mismatch. -/
def Mismatch.message : Mismatch → String
  | .wrongType j wanted => s!"invalid type: {found j}, expected {wanted.message}"
  | .missingField key => s!"missing field `{key}`"
  | .tooShort length shape =>
    s!"invalid length {length}, expected struct {shape.name} with {shape.size} elements"
  | .tooLong length => s!"invalid length {length}, expected fewer elements in array"

/-! ## Decoders -/

/-- Reads data of a type from a value. -/
abbrev Decoder (α : Type) := Json → Except Mismatch α

/-- A text. -/
def asText : Decoder String
  | .str s => .ok s
  | j => .error (.wrongType j .text)

/-- A flag. -/
def asFlag : Decoder Bool
  | .bool b => .ok b
  | j => .error (.wrongType j .flag)

/-- Any value. -/
def asValue : Decoder Json := .ok

/-- Every item of a list, up to the first that does not fit. -/
def eachItem {α : Type} (item : Decoder α) : List Json → Except Mismatch (List α)
  | [] => .ok []
  | j :: rest =>
    match item j with
    | .error e => .error e
    | .ok a => (eachItem item rest).map (a :: ·)

/-- A list. -/
def asList {α : Type} (item : Decoder α) : Decoder (List α)
  | .arr items => eachItem item items
  | j => .error (.wrongType j .list)

/-- Null, or what another decoder reads. -/
def asOption {α : Type} (some? : Decoder α) : Decoder (Option α)
  | .null => .ok none
  | j => (some? j).map some

/-- Whether a decoder reads a value; the data is of no interest. -/
def fits {α : Type} (decoder : Decoder α) (j : Json) : Except Mismatch Unit :=
  (decoder j).map fun _ => ()

/-! ## Members of an object -/

/-- The first mismatch of the members of an object, given the check on each of them. -/
def checkMembers (check : String → Json → Except Mismatch Unit) :
    Members → Except Mismatch Unit
  | [] => .ok ()
  | (key, j) :: rest =>
    match check key j with
    | .error e => .error e
    | .ok () => checkMembers check rest

/-- A field that has to be there. -/
def required {α : Type} (key : String) (decoder : Decoder α) (members : Members) :
    Except Mismatch α :=
  match members.get? key with
  | some j => decoder j
  | none => .error (.missingField key)

/-- A field that may be absent. -/
def defaulted {α : Type} (key : String) (default : α) (decoder : Decoder α)
    (members : Members) : Except Mismatch α :=
  match members.get? key with
  | some j => decoder j
  | none => .ok default

/-! ## Items of a list of fields -/

/-- The next field of a list, which has to be there; `index` fields stand before it. -/
def nextRequired {α : Type} (shape : RecordShape) (index : Nat) (decoder : Decoder α) :
    List Json → Except Mismatch (α × List Json)
  | [] => .error (.tooShort index shape)
  | j :: rest => (decoder j).map fun a => (a, rest)

/-- The next field of a list, which may be absent. -/
def nextDefaulted {α : Type} (default : α) (decoder : Decoder α) :
    List Json → Except Mismatch (α × List Json)
  | [] => .ok (default, [])
  | j :: rest => (decoder j).map fun a => (a, rest)

/-- A record, written as an object or as a list of its fields. -/
def asRecord {α : Type} (shape : RecordShape) (ofMembers : Members → Except Mismatch α)
    (ofItems : List Json → Except Mismatch (α × List Json)) : Decoder α
  | .obj members => ofMembers members
  | .arr items =>
    match ofItems items with
    | .error e => .error e
    | .ok (a, []) => .ok a
    | .ok (_, _ :: _) => .error (.tooLong items.length)
  | j => .error (.wrongType j (.record shape))

end AssemblyLinker.Json
