import AssemblyLinker.Json.Basic
import AssemblyLinker.Json.Fault

/-! # Reading JSON

    A reader takes the characters it is given, and yields what it has read and the rest,
    or the first fault. Containers nest at most `maxDepth` deep; the reader of the items
    of a container is an argument of the reader of the container, so that the depth left
    is the only thing the recursion counts.
-/

namespace AssemblyLinker.Json

/-- What has been read, and the rest of the text. -/
abbrev Reading (α : Type) := Except Fault (α × List Char)

/-- The blanks between the parts of a value. -/
def isGap (c : Char) : Bool := c = ' ' || c = '\t' || c = '\n' || c = '\r'

/-- The text from its first character that is no blank. -/
def skipGaps (cs : List Char) : List Char := cs.dropWhile isGap

/-! ## Words -/

/-- A fixed word, for the value it stands for. -/
def word (value : Json) : List Char → List Char → Reading Json
  | [], cs => .ok (value, cs)
  | _ :: _, [] => .error (.before .endInValue [])
  | w :: ws, c :: cs => if c = w then word value ws cs else .error (.into .wordExpected (c :: cs))

/-! ## Texts -/

/-- The number that a hexadecimal digit of either case stands for. -/
def hexValue? (c : Char) : Option Nat :=
  if '0' ≤ c ∧ c ≤ '9' then some (c.toNat - '0'.toNat)
  else if 'a' ≤ c ∧ c ≤ 'f' then some (c.toNat - 'a'.toNat + 10)
  else if 'A' ≤ c ∧ c ≤ 'F' then some (c.toNat - 'A'.toNat + 10)
  else none

/-- The code unit written by the four hexadecimal digits at the start of a text. -/
def codeUnit (cs : List Char) : Except Fault Nat :=
  if Utf8.byteSize (cs.take 4) < 4 then .error ⟨.endInText, 0⟩
  else
    match cs.take 4 |>.mapM hexValue? with
    | some [a, b, c, d] => .ok (a * 4096 + b * 256 + c * 16 + d)
    | _ => .error ⟨.invalidEscape, Utf8.byteSize cs - 4⟩

/-- Is a code unit the first half of a pair? -/
def isLeadingUnit (n : Nat) : Bool := 0xD800 ≤ n && n ≤ 0xDBFF

/-- Is a code unit the second half of a pair? -/
def isTrailingUnit (n : Nat) : Bool := 0xDC00 ≤ n && n ≤ 0xDFFF

/-- The second half of a pair, which is written right behind the first. -/
def pairedUnit (cs : List Char) : Except Fault Nat :=
  match cs with
  | [] => .error (.before .endInText [])
  | c :: cs =>
    if c ≠ '\\' then .error (.into .unpairedSurrogate (c :: cs))
    else
      match cs with
      | [] => .error (.before .endInText [])
      | c :: cs =>
        if c ≠ 'u' then .error (.into .unpairedSurrogate (c :: cs))
        else do
          let n ← codeUnit cs
          if isTrailingUnit n then return n
          else throw (.before .loneSurrogate (cs.drop 4))

/-- The character written by the code units at the start of a text, and the number of
    characters that write it. -/
def codePoint (cs : List Char) : Except Fault (Char × Nat) := do
  let n ← codeUnit cs
  if isTrailingUnit n then throw (.before .loneSurrogate (cs.drop 4))
  else if isLeadingUnit n then
    let m ← pairedUnit (cs.drop 4)
    return (Char.ofNat ((n - 0xD800) * 0x400 + (m - 0xDC00) + 0x10000), 10)
  else return (Char.ofNat n, 4)

/-- The character that the text behind a backslash stands for, and the number of
    characters that write it. -/
def escape : List Char → Except Fault (Char × Nat)
  | [] => .error (.before .endInText [])
  | c :: cs =>
    if c = '"' then .ok ('"', 1)
    else if c = '\\' then .ok ('\\', 1)
    else if c = '/' then .ok ('/', 1)
    else if c = 'b' then .ok ('\x08', 1)
    else if c = 'f' then .ok ('\x0c', 1)
    else if c = 'n' then .ok ('\n', 1)
    else if c = 'r' then .ok ('\r', 1)
    else if c = 't' then .ok ('\t', 1)
    else if c = 'u' then (codePoint cs).map fun (ch, n) => (ch, n + 1)
    else .error (.into .invalidEscape (c :: cs))

/-- The characters up to the closing quote. `done` holds the ones before, the last one
    first; `skip` characters belong to an escape that has been read. -/
def textBody (done : List Char) : Nat → List Char → Reading String
  | _, [] => .error (.before .endInText [])
  | skip + 1, _ :: cs => textBody done skip cs
  | 0, c :: cs =>
    if c = '"' then .ok (String.ofList done.reverse, cs)
    else if c = '\\' then
      match escape cs with
      | .ok (ch, n) => textBody (ch :: done) n cs
      | .error fault => .error fault
    else if c.toNat < 0x20 then .error (.before .controlCharacter cs)
    else textBody (c :: done) 0 cs

/-- A text, from behind its opening quote. -/
def text (cs : List Char) : Reading String := textBody [] 0 cs

/-! ## Numbers -/

/-- Is a character a decimal digit? -/
def isDigit (c : Char) : Bool := '0' ≤ c && c ≤ '9'

/-- The number a decimal digit stands for. -/
def digitValue (c : Char) : Nat := c.toNat - '0'.toNat

/-- Appends digits to a number as long as it stays within a bound; yields the number and
    the digits left over. -/
def appendDigits (bound n : Nat) : List Char → Nat × List Char
  | [] => (n, [])
  | d :: ds =>
    if bound < n * 10 + digitValue d then (n, d :: ds)
    else appendDigits bound (n * 10 + digitValue d) ds

/-- The largest significand. -/
def maxSignificand : Nat := Nat.pow 2 64 - 1

/-- The largest exponent that is written out. -/
def maxExponent : Nat := Nat.pow 2 31 - 1

/-- The number `significand * 10 ^ exponent` with a sign. -/
def scaled (negative : Bool) (significand : Nat) (exponent : Int) (rest : List Char) :
    Reading Number :=
  match Binary64.ofDecimal? significand exponent with
  | some x => .ok (.float (x.signed negative), rest)
  | none => .error (.before .numberOutOfRange rest)

/-- The sign of an exponent and the text behind it. -/
def exponentSign : List Char → Bool × List Char
  | '+' :: cs => (false, cs)
  | '-' :: cs => (true, cs)
  | cs => (false, cs)

/-- A number from behind the mark of its exponent. An exponent beyond all bounds makes
    zero of the number, or is out of range. -/
def exponentPart (negative : Bool) (significand : Nat) (start : Int) (cs : List Char) :
    Reading Number :=
  let (down, cs) := exponentSign cs
  let ds := cs.takeWhile isDigit
  let rest := cs.dropWhile isDigit
  if ds.isEmpty then
    .error (if cs.isEmpty then .before .endInValue [] else .into .invalidNumber cs)
  else
    match appendDigits maxExponent 0 ds with
    | (_, _ :: left) =>
      if significand ≠ 0 ∧ ¬ down then
        .error (.before .numberOutOfRange (left ++ rest))
      else .ok (.float (Binary64.zero.signed negative), rest)
    | (n, []) => scaled negative significand (if down then start - n else start + n) rest

/-- A number behind its last digit, or behind the digits of its fraction. -/
def afterDigits (negative : Bool) (significand : Nat) (exponent : Int) (cs : List Char) :
    Reading Number :=
  match cs with
  | 'e' :: cs => exponentPart negative significand exponent cs
  | 'E' :: cs => exponentPart negative significand exponent cs
  | cs => scaled negative significand exponent cs

/-- A number from behind its point. Digits that the significand has no room for count
    for nothing. -/
def fractionPart (negative : Bool) (significand : Nat) (start : Int) (cs : List Char) :
    Reading Number :=
  let ds := cs.takeWhile isDigit
  if ds.isEmpty then
    .error (if cs.isEmpty then .before .endInValue [] else .into .invalidNumber cs)
  else
    let (significand, left) := appendDigits maxSignificand significand ds
    afterDigits negative significand (start - (ds.length - left.length : Nat))
      (cs.dropWhile isDigit)

/-- A whole number. Negative zero and what 64 bits cannot hold become floating-point
    numbers. -/
def wholeNumber (negative : Bool) (significand : Nat) (cs : List Char) : Reading Number :=
  if ¬ negative then .ok (.whole significand, cs)
  else if 0 < significand ∧ significand ≤ Nat.pow 2 63 then .ok (.whole (-significand), cs)
  else scaled negative significand 0 cs

/-- A number behind the digits before its point, of which `dropped` found no room in the
    significand. -/
def afterWhole (negative : Bool) (significand dropped : Nat) (cs : List Char) :
    Reading Number :=
  match cs with
  | '.' :: cs => fractionPart negative significand dropped cs
  | cs =>
    if dropped = 0 ∧ cs.head? ≠ some 'e' ∧ cs.head? ≠ some 'E' then
      wholeNumber negative significand cs
    else afterDigits negative significand dropped cs

/-- A number, from behind its sign. -/
def number (negative : Bool) (cs : List Char) : Reading Number :=
  match cs with
  | [] => .error (.before .endInValue [])
  | '0' :: rest =>
    if (rest.head?.map isDigit).getD false then .error (.into .invalidNumber rest)
    else afterWhole negative 0 0 rest
  | _ =>
    let ds := cs.takeWhile isDigit
    if ds.isEmpty then .error (.into .invalidNumber cs)
    else
      let (significand, left) := appendDigits maxSignificand 0 ds
      afterWhole negative significand left.length (cs.dropWhile isDigit)

/-! ## Containers -/

/-- The items of a list from its second bracket or comma on, and the list. `fuel` bounds
    the number of items. -/
def items (item : List Char → Reading Json) : Nat → List Json → List Char → Reading Json
  | 0, _, cs => .error (.before .endInList cs)
  | fuel + 1, done, cs =>
    match item cs with
    | .error fault => .error fault
    | .ok (j, cs) =>
      match skipGaps cs with
      | [] => .error (.into .endInList [])
      | ']' :: cs => .ok (.arr (j :: done).reverse, cs)
      | ',' :: cs =>
        match skipGaps cs with
        | [] => .error (.into .endInValue [])
        | ']' :: cs => .error (.into .trailingComma (']' :: cs))
        | cs => items item fuel (j :: done) cs
      | cs => .error (.into .listEndExpected cs)

/-- A list, from behind its opening bracket. -/
def list (item : List Char → Reading Json) (cs : List Char) : Reading Json :=
  match skipGaps cs with
  | [] => .error (.into .endInList [])
  | ']' :: cs => .ok (.arr [], cs)
  | cs => items item cs.length [] cs

/-- A key, the colon and the value behind it. -/
def member (item : List Char → Reading Json) (cs : List Char) : Reading (String × Json) :=
  match cs with
  | '"' :: cs =>
    match text cs with
    | .error fault => .error fault
    | .ok (key, cs) =>
      match skipGaps cs with
      | ':' :: cs => (item cs).map fun (j, cs) => ((key, j), cs)
      | [] => .error (.into .endInObject [])
      | cs => .error (.into .colonExpected cs)
  | cs => .error (.into .keyExpected cs)

/-- The members of an object from its first key or comma on, and the object. `fuel` bounds
    the number of members. -/
def members (item : List Char → Reading Json) : Nat → Members → List Char → Reading Json
  | 0, _, cs => .error (.before .endInObject cs)
  | fuel + 1, done, cs =>
    match member item cs with
    | .error fault => .error fault
    | .ok ((key, j), cs) =>
      match skipGaps cs with
      | [] => .error (.into .endInObject [])
      | '\x7d' :: cs => .ok (.obj (done.insert key j), cs)
      | ',' :: cs =>
        match skipGaps cs with
        | [] => .error (.into .endInValue [])
        | '\x7d' :: cs => .error (.into .trailingComma ('\x7d' :: cs))
        | cs => members item fuel (done.insert key j) cs
      | cs => .error (.into .objectEndExpected cs)

/-- An object, from behind its opening bracket. -/
def objectBody (item : List Char → Reading Json) (cs : List Char) : Reading Json :=
  match skipGaps cs with
  | [] => .error (.into .endInObject [])
  | '\x7d' :: cs => .ok (.obj [], cs)
  | cs => members item cs.length [] cs

/-! ## Values -/

/-- How deep containers may nest. -/
def maxDepth : Nat := 127

/-- A value, given the reader of the items of containers. Where containers may nest no
    deeper there is none. -/
def valueWith (item? : Option (List Char → Reading Json)) (cs : List Char) : Reading Json :=
  match skipGaps cs with
  | [] => .error (.into .endInValue [])
  | 'n' :: cs => word .null ['u', 'l', 'l'] cs
  | 't' :: cs => word (.bool true) ['r', 'u', 'e'] cs
  | 'f' :: cs => word (.bool false) ['a', 'l', 's', 'e'] cs
  | '"' :: cs => (text cs).map fun (s, cs) => (.str s, cs)
  | '-' :: cs => (number true cs).map fun (n, cs) => (.num n, cs)
  | '[' :: cs =>
    match item? with
    | some item => list item cs
    | none => .error (.into .nestedTooDeep ('[' :: cs))
  | '\x7b' :: cs =>
    match item? with
    | some item => objectBody item cs
    | none => .error (.into .nestedTooDeep ('\x7b' :: cs))
  | c :: cs =>
    if isDigit c then (number false (c :: cs)).map fun (n, cs) => (.num n, cs)
    else .error (.into .valueExpected (c :: cs))

/-- A value whose containers nest at most as deep as given. -/
def value : Nat → List Char → Reading Json
  | 0 => valueWith none
  | depth + 1 => valueWith (some (value depth))

/-- A text that is one value. -/
def document (cs : List Char) : Except Fault Json :=
  match value maxDepth cs with
  | .error fault => .error fault
  | .ok (j, cs) =>
    match skipGaps cs with
    | [] => .ok j
    | cs => .error (.into .trailingCharacters cs)

/-- The value that a text is. -/
def parse (s : String) : Except Fault Json := document s.toList

end AssemblyLinker.Json
