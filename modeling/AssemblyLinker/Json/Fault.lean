import AssemblyLinker.Text.Utf8

/-! # Faults of a JSON text

    A fault has a cause and a place. The place is kept as the number of bytes behind it,
    which a reader knows from the text that it has left; line and column are counted once,
    when the fault is reported.

    Columns count bytes. A fault found at a character lies one byte into it, one found
    between characters lies there.
-/

namespace AssemblyLinker.Json

/-- Why a text is no JSON value. -/
inductive Cause where
  | endInValue
  | endInList
  | endInObject
  | endInText
  | valueExpected
  | wordExpected
  | colonExpected
  | listEndExpected
  | objectEndExpected
  | keyExpected
  | trailingComma
  | trailingCharacters
  | invalidNumber
  | numberOutOfRange
  | controlCharacter
  | invalidEscape
  | loneSurrogate
  | unpairedSurrogate
  | nestedTooDeep
  deriving DecidableEq, Repr

/-- The wording of a cause. -/
def Cause.message : Cause → String
  | .endInValue => "EOF while parsing a value"
  | .endInList => "EOF while parsing a list"
  | .endInObject => "EOF while parsing an object"
  | .endInText => "EOF while parsing a string"
  | .valueExpected => "expected value"
  | .wordExpected => "expected ident"
  | .colonExpected => "expected `:`"
  | .listEndExpected => "expected `,` or `]`"
  | .objectEndExpected => "expected `,` or `\x7d`"
  | .keyExpected => "key must be a string"
  | .trailingComma => "trailing comma"
  | .trailingCharacters => "trailing characters"
  | .invalidNumber => "invalid number"
  | .numberOutOfRange => "number out of range"
  | .controlCharacter => "control character (\\u0000-\\u001F) found while parsing a string"
  | .invalidEscape => "invalid escape"
  | .loneSurrogate => "lone leading surrogate in hex escape"
  | .unpairedSurrogate => "unexpected end of hex escape"
  | .nestedTooDeep => "recursion limit exceeded"

/-- A cause, and the number of bytes of the text behind its place. -/
structure Fault where
  cause : Cause
  left : Nat
  deriving DecidableEq, Repr

/-- A fault before the rest of the text. -/
def Fault.before (cause : Cause) (rest : List Char) : Fault := ⟨cause, Utf8.byteSize rest⟩

/-- A fault one byte into the rest of the text, or at its end. -/
def Fault.into (cause : Cause) (rest : List Char) : Fault := ⟨cause, Utf8.byteSize rest - 1⟩

/-! ## Places -/

/-- A line, counted from one, and the number of bytes before a place on it. -/
structure Position where
  line : Nat := 1
  column : Nat := 0
  deriving DecidableEq, Repr

/-- The position `offset` bytes behind a given one. -/
def Position.advance (p : Position) (offset : Nat) : List Char → Position
  | [] => p
  | c :: rest =>
    if offset = 0 then p
    else if c = '\n' then Position.advance ⟨p.line + 1, 0⟩ (offset - 1) rest
    else
      Position.advance ⟨p.line, p.column + min offset c.utf8Size⟩ (offset - c.utf8Size) rest

/-- The position of a fault in a text. -/
def Fault.position (text : List Char) (fault : Fault) : Position :=
  Position.advance ⟨1, 0⟩ (Utf8.byteSize text - fault.left) text

/-- The wording of a fault at a position. -/
def Fault.message (fault : Fault) (p : Position) : String :=
  s!"{fault.cause.message} at line {p.line} column {p.column}"

end AssemblyLinker.Json
