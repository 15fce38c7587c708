/-! # Blank characters

    The characters of Unicode's `White_Space` property, and trimming them from both
    ends of a text.
-/

namespace AssemblyLinker.Text

/-- The `White_Space` property: the ASCII blanks, next line, and the spaces and
    separators of the standard. Joiners and the byte order mark are not blank. -/
def isBlank (c : Char) : Bool :=
  let n := c.toNat
  (0x09 ≤ n && n ≤ 0x0D) || n = 0x20 || n = 0x85 || n = 0xA0 || n = 0x1680 ||
    (0x2000 ≤ n && n ≤ 0x200A) || n = 0x2028 || n = 0x2029 || n = 0x202F || n = 0x205F ||
    n = 0x3000

/-- A list of characters without the ones that satisfy `p` at its end. -/
def dropEndWhile (p : Char → Bool) (cs : List Char) : List Char :=
  (cs.reverse.dropWhile p).reverse

/-- A text without the blank characters at its two ends. -/
def trim (s : String) : String :=
  String.ofList (dropEndWhile isBlank (s.toList.dropWhile isBlank))

/-- A text without the characters `c` at its end. -/
def trimEnd (c : Char) (s : String) : String :=
  String.ofList (dropEndWhile (· == c) s.toList)

/-! ## Small facts -/

@[simp] theorem dropEndWhile_nil (p : Char → Bool) : dropEndWhile p [] = [] := rfl

/-- Nothing is dropped from a list that does not end in a character of the class. -/
theorem dropEndWhile_concat_of_not {p : Char → Bool} {c : Char} (cs : List Char)
    (h : p c = false) : dropEndWhile p (cs ++ [c]) = cs ++ [c] := by
  simp [dropEndWhile, h]

end AssemblyLinker.Text
