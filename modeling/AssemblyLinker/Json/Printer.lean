import AssemblyLinker.Json.Basic

/-! # Printing JSON

    A value is printed on one line, or indented by a fixed width per level with one item
    or member a line. Empty lists and objects stay on their line in both layouts. Inside
    texts only quotes, backslashes and the controls below the space are escaped.
-/

namespace AssemblyLinker.Json

/-- How the parts of a value are set apart. -/
inductive Layout where
  /-- Without any blanks. -/
  | compact
  /-- One item a line, indented by `width` blanks per level. -/
  | indented (width : Nat)
  deriving DecidableEq, Repr

/-- What stands before an item at a level, or before the bracket that closes the level
    below. -/
def Layout.lineBreak (level : Nat) : Layout → List Char
  | .compact => []
  | .indented width => '\n' :: List.replicate (width * level) ' '

/-- What stands between a key and its value. -/
def Layout.colon : Layout → List Char
  | .compact => [':']
  | .indented _ => [':', ' ']

/-- One character inside a text. -/
def escapedChar (c : Char) : List Char :=
  if c = '"' then ['\\', '"']
  else if c = '\\' then ['\\', '\\']
  else if c = '\x08' then ['\\', 'b']
  else if c = '\x0c' then ['\\', 'f']
  else if c = '\n' then ['\\', 'n']
  else if c = '\r' then ['\\', 'r']
  else if c = '\t' then ['\\', 't']
  else if c.toNat < 0x20 then
    ['\\', 'u', '0', '0', Nat.digitChar (c.toNat / 16), Nat.digitChar (c.toNat % 16)]
  else [c]

/-- A text between double quotes. -/
def printText (s : String) : List Char :=
  '"' :: s.toList.flatMap escapedChar ++ ['"']

mutual

/-- A value at a level. -/
def print (layout : Layout) (level : Nat) : Json → List Char
  | .null => ['n', 'u', 'l', 'l']
  | .bool true => ['t', 'r', 'u', 'e']
  | .bool false => ['f', 'a', 'l', 's', 'e']
  | .num n => n.text
  | .str s => printText s
  | .arr [] => ['[', ']']
  | .arr (j :: rest) =>
    '[' :: layout.lineBreak (level + 1) ++ print layout (level + 1) j ++
      printItems layout (level + 1) rest ++ layout.lineBreak level ++ [']']
  | .obj [] => ['\x7b', '\x7d']
  | .obj ((k, j) :: rest) =>
    '\x7b' :: layout.lineBreak (level + 1) ++ printText k ++ layout.colon ++
      print layout (level + 1) j ++ printMembers layout (level + 1) rest ++
      layout.lineBreak level ++ ['\x7d']

/-- The items after the first one, each after a comma. -/
def printItems (layout : Layout) (level : Nat) : List Json → List Char
  | [] => []
  | j :: rest =>
    ',' :: layout.lineBreak level ++ print layout level j ++ printItems layout level rest

/-- The members after the first one, each after a comma. -/
def printMembers (layout : Layout) (level : Nat) : List (String × Json) → List Char
  | [] => []
  | (k, j) :: rest =>
    ',' :: layout.lineBreak level ++ printText k ++ layout.colon ++ print layout level j ++
      printMembers layout level rest

end

/-- The text of a value in a layout. -/
def pretty (layout : Layout) (j : Json) : String := String.ofList (print layout 0 j)

/-- The text of a value on one line. -/
def compact (j : Json) : String := j.pretty .compact

end AssemblyLinker.Json
