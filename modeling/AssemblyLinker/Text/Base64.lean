/-! # Base64

    Bytes written with the standard alphabet of 64 symbols, three bytes to a quad of
    four symbols, the last quad padded with `=`.

    Reading is strict: padding is required, and the bits that the last symbol does not
    need have to be zero. So each sequence of bytes has one written form, and every
    other text is refused with the byte to blame.
-/

namespace AssemblyLinker.Base64

/-! ## Symbols -/

/-- The symbol of a number below 64. -/
def symbol (v : Nat) : Char :=
  if v < 26 then Char.ofNat (65 + v)
  else if v < 52 then Char.ofNat (97 + (v - 26))
  else if v < 62 then Char.ofNat (48 + (v - 52))
  else if v = 62 then '+'
  else '/'

/-- The number a byte stands for, if it is a symbol. -/
def value? (b : UInt8) : Option Nat :=
  if 65 ≤ b ∧ b ≤ 90 then some (b.toNat - 65)
  else if 97 ≤ b ∧ b ≤ 122 then some (b.toNat - 97 + 26)
  else if 48 ≤ b ∧ b ≤ 57 then some (b.toNat - 48 + 52)
  else if b = 43 then some 62
  else if b = 47 then some 63
  else none

/-- The padding byte, `=`. -/
def pad : UInt8 := 61

/-! ## Writing -/

/-- The written form of a sequence of bytes. -/
def encode : List UInt8 → List Char
  | [] => []
  | [a] => [symbol (a.toNat / 4), symbol (a.toNat % 4 * 16), '=', '=']
  | [a, b] =>
    [symbol (a.toNat / 4), symbol (a.toNat % 4 * 16 + b.toNat / 16),
      symbol (b.toNat % 16 * 4), '=']
  | a :: b :: c :: rest =>
    symbol (a.toNat / 4) :: symbol (a.toNat % 4 * 16 + b.toNat / 16) ::
      symbol (b.toNat % 16 * 4 + c.toNat / 64) :: symbol (c.toNat % 64) :: encode rest

/-! ## Reading -/

/-- Why a sequence of bytes is no written form. -/
inductive Fault where
  /-- A byte that cannot stand at its place. -/
  | invalidSymbol (byte : UInt8) (offset : Nat)
  /-- A last quad with a single symbol. -/
  | invalidLength (length : Nat)
  /-- A last quad that padding does not fill up. -/
  | invalidPadding
  /-- A last symbol with bits that no byte uses. -/
  | invalidLastSymbol (byte : UInt8) (offset : Nat)
  deriving DecidableEq, Repr

/-- The wording of a fault. -/
def Fault.message : Fault → String
  | .invalidSymbol byte offset => s!"Invalid symbol {byte}, offset {offset}."
  | .invalidLength length => s!"Invalid input length: {length}"
  | .invalidPadding => "Invalid padding"
  | .invalidLastSymbol byte offset => s!"Invalid last symbol {byte}, offset {offset}."

/-- The numbers of bytes that all have to be symbols, the first at the given offset. -/
def values (offset : Nat) : List UInt8 → Except Fault (List Nat)
  | [] => .ok []
  | b :: rest =>
    match value? b with
    | none => .error (.invalidSymbol b offset)
    | some v => (values (offset + 1) rest).map (v :: ·)

/-- The numbers of the last quad and the length of its padding. Padding follows at
    least two symbols and ends the quad; `index` counts the symbols so far. -/
def lastQuad (offset index : Nat) : List UInt8 → Except Fault (List Nat × Nat)
  | [] => .ok ([], 0)
  | b :: rest =>
    if b = pad then
      if index < 2 ∨ ¬ rest.all (· = pad) then .error (.invalidSymbol pad (offset + index))
      else .ok ([], rest.length + 1)
    else
      match value? b with
      | none => .error (.invalidSymbol b (offset + index))
      | some v => (lastQuad offset (index + 1) rest).map fun (vs, n) => (v :: vs, n)

/-- The bytes of the numbers of whole quads and of one that may lack its end. -/
def pack : List Nat → List UInt8
  | a :: b :: c :: d :: rest =>
    UInt8.ofNat (a * 4 + b / 16) :: UInt8.ofNat (b % 16 * 16 + c / 4) ::
      UInt8.ofNat (c % 4 * 64 + d) :: pack rest
  | [a, b, c] => [UInt8.ofNat (a * 4 + b / 16), UInt8.ofNat (b % 16 * 16 + c / 4)]
  | [a, b] => [UInt8.ofNat (a * 4 + b / 16)]
  | _ => []

/-- The bits of the last quad that belong to no byte. -/
def spareBits : List Nat → Nat
  | [_, b] => b % 16
  | [_, _, c] => c % 4
  | _ => 0

/-- Where the last quad begins. -/
def lastQuadStart (length : Nat) : Nat := (length - 1) / 4 * 4

/-- A single byte after the last whole quad that could stand nowhere. It is reported
    before any other fault. -/
def strayEnd? (bytes : List UInt8) : Option Fault :=
  match bytes.getLast? with
  | some b =>
    if bytes.length % 4 = 1 ∧ b ≠ pad ∧ value? b = none then
      some (.invalidSymbol b (bytes.length - 1))
    else none
  | none => none

/-- The checks on the last quad as a whole: at least two symbols, filled up by padding,
    no spare bits. -/
def checkLast (start : Nat) (last : List UInt8) (vs : List Nat) (padding : Nat) :
    Except Fault Unit :=
  if last ≠ [] ∧ vs.length < 2 then .error (.invalidLength (start + vs.length))
  else if (vs.length + padding) % 4 ≠ 0 then .error .invalidPadding
  else if spareBits vs ≠ 0 then
    .error (.invalidLastSymbol (last.getD (vs.length - 1) 0) (start + vs.length - 1))
  else .ok ()

/-- The bytes of a written form. -/
def decode (bytes : List UInt8) : Except Fault (List UInt8) := do
  if let some fault := strayEnd? bytes then throw fault
  let start := lastQuadStart bytes.length
  let first ← values 0 (bytes.take start)
  let (vs, padding) ← lastQuad start 0 (bytes.drop start)
  checkLast start (bytes.drop start) vs padding
  return pack (first ++ vs)

end AssemblyLinker.Base64
