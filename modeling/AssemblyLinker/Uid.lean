import AssemblyLinker.Text.Utf8

/-! # Uids

    A uid tells apart two assemblies of one name. The canonical form is that of a
    128-bit number in lower-case hexadecimal, in groups of 8, 4, 4, 4 and 12 digits
    joined by hyphens.

    Uids are drawn from a stream: the `n`-th draw of a session, counted from zero, takes
    the `n`-th uid of the stream.
-/

namespace AssemblyLinker

/-- The uids handed out, by number of the draw. -/
abbrev UidStream := Nat → String

namespace Uid

/-! ## The canonical form -/

/-- The number of bytes of a canonical uid. -/
def size : Nat := 36

/-- The places of the hyphens of a canonical uid. -/
def isHyphenPlace (i : Nat) : Bool := i = 8 || i = 13 || i = 18 || i = 23

/-- Is a byte a lower-case hexadecimal digit? -/
def isLowerHexByte (b : UInt8) : Bool := (48 ≤ b && b ≤ 57) || (97 ≤ b && b ≤ 102)

/-- Is a byte a hexadecimal digit of either case? -/
def isHexByte (b : UInt8) : Bool := isLowerHexByte b || (65 ≤ b && b ≤ 70)

/-- Do the items of a list, the first of them at place `i`, have hyphens at the hyphen places
    and digits elsewhere? -/
def wellPlaced {α : Type} (isHyphen isDigit : α → Bool) (i : Nat) : List α → Bool
  | [] => true
  | a :: rest =>
    (if isHyphenPlace i then isHyphen a else isDigit a) &&
      wellPlaced isHyphen isDigit (i + 1) rest

/-- Is a text with the number of bytes of a uid read as one? A reader of uids takes digits of
    either case. -/
def isReadable (s : String) : Bool := wellPlaced (· = 45) isHexByte 0 (Utf8.encode s)

/-- Is a text a canonical uid? It has the number of bytes, a reader of uids accepts it, and
    each byte is a hyphen or a lower-case digit. -/
def isCanonical (s : String) (reads : String → Bool := isReadable) : Bool :=
  let bytes := Utf8.encode s
  bytes.length = size && reads s && bytes.all fun b => b = 45 || isLowerHexByte b

/-! ## Writing a number as a uid -/

/-- The last `count` digits of a number in base `base`, most significant first. -/
def digits (base count n : Nat) : List Char :=
  match count with
  | 0 => []
  | count + 1 => digits base count (n / base) ++ [Nat.digitChar (n % base)]

/-- Digits in groups of 8, 4, 4, 4 and all others, joined by hyphens. -/
def hyphenate (ds : List Char) : List Char :=
  ds.take 8 ++ '-' :: (ds.drop 8).take 4 ++ '-' :: (ds.drop 12).take 4 ++
    '-' :: (ds.drop 16).take 4 ++ '-' :: ds.drop 20

/-- The canonical uid of a number below `2 ^ 128`. -/
def ofNat (n : Nat) : String := String.ofList (hyphenate (digits 16 32 n))

/-! ## Streams -/

/-- The `n`-th numbered uid: a fixed beginning, then the number in at least twelve decimal
    digits. -/
def numbered (n : Nat) : String :=
  let ds := Nat.toDigits 10 n
  String.ofList <| List.replicate 8 '0' ++ '-' :: List.replicate 4 '0' ++ ['-', '4', '0', '0', '0',
    '-', '8', '0', '0', '0', '-'] ++ List.replicate (12 - ds.length) '0' ++ ds

/-- The uids of a list, one per draw; after them, numbered uids by the number of the
    draw, counted from one. -/
def queued (uids : List String) : UidStream := fun draw =>
  match uids[draw]? with
  | some uid => uid
  | none => numbered (draw + 1)

/-- A stream of version 4 uids that counts up from a seed. -/
def seeded (seed : Nat) : UidStream := fun draw =>
  let n := (seed + draw) % (1 <<< 122)
  let low := n % (1 <<< 62)
  let middle := n >>> 62 % (1 <<< 12)
  let high := n >>> 74
  ofNat (high <<< 80 + 4 <<< 76 + middle <<< 64 + 2 <<< 62 + low)

end Uid

end AssemblyLinker
