/-! # UTF-8

    The bytes of a text, and the text of a sequence of bytes. A sequence that is not
    UTF-8 is described by a fault: where the valid part ends, and how many bytes form
    the longest part of a character found there.

    Reading undoes writing, `Utf8.decode_encode`.
-/

namespace AssemblyLinker.Utf8

/-- The bytes of a text. -/
def encode (s : String) : List UInt8 :=
  s.toList.flatMap String.utf8EncodeChar

/-- The number of bytes of a list of characters. -/
def byteSize : List Char → Nat
  | [] => 0
  | c :: rest => c.utf8Size + byteSize rest

/-- Why a sequence of bytes is no text. `length` is the number of bytes of the invalid
    sequence, and is absent when the bytes end inside a character. -/
structure Fault where
  index : Nat
  length : Option Nat
  deriving DecidableEq, Repr

/-- What a first byte announces: how many bytes follow, and the range of the first of
    these. -/
structure Lead where
  following : Nat
  low : UInt8 := 0x80
  high : UInt8 := 0xBF
  deriving DecidableEq, Repr

/-- The first bytes of a character. The narrower ranges keep out overlong forms,
    surrogates, and code points beyond the last one. -/
def Lead.of? (b : UInt8) : Option Lead :=
  if b ≤ 0x7F then some ⟨0, 0x80, 0xBF⟩
  else if 0xC2 ≤ b ∧ b ≤ 0xDF then some ⟨1, 0x80, 0xBF⟩
  else if b = 0xE0 then some ⟨2, 0xA0, 0xBF⟩
  else if b = 0xED then some ⟨2, 0x80, 0x9F⟩
  else if 0xE1 ≤ b ∧ b ≤ 0xEF then some ⟨2, 0x80, 0xBF⟩
  else if b = 0xF0 then some ⟨3, 0x90, 0xBF⟩
  else if b = 0xF4 then some ⟨3, 0x80, 0x8F⟩
  else if 0xF1 ≤ b ∧ b ≤ 0xF3 then some ⟨3, 0x80, 0xBF⟩
  else none

/-- Is a byte one of the later bytes of a character? -/
def isTail (b : UInt8) : Bool := 0x80 ≤ b && b ≤ 0xBF

/-- The first fault of a sequence of bytes whose first byte has the given index. -/
def firstFault (index : Nat) : List UInt8 → Option Fault
  | [] => none
  | b :: rest =>
    match Lead.of? b with
    | none => some ⟨index, some 1⟩
    | some ⟨0, _, _⟩ => firstFault (index + 1) rest
    | some ⟨following + 1, low, high⟩ =>
      match rest with
      | [] => some ⟨index, none⟩
      | c :: rest =>
        if ¬ (low ≤ c ∧ c ≤ high) then some ⟨index, some 1⟩
        else if following = 0 then firstFault (index + 2) rest
        else match rest with
          | [] => some ⟨index, none⟩
          | d :: rest =>
            if ¬ isTail d then some ⟨index, some 2⟩
            else if following = 1 then firstFault (index + 3) rest
            else match rest with
              | [] => some ⟨index, none⟩
              | e :: rest =>
                if ¬ isTail e then some ⟨index, some 3⟩ else firstFault (index + 4) rest

/-- The text of a sequence of bytes. -/
def decode (bytes : List UInt8) : Except Fault String :=
  match String.fromUTF8? bytes.toByteArray with
  | some s => .ok s
  | none => .error ((firstFault 0 bytes).getD ⟨0, none⟩)

/-- The wording of a fault. -/
def Fault.message (fault : Fault) : String :=
  match fault.length with
  | some n => s!"invalid utf-8 sequence of {n} bytes from index {fault.index}"
  | none => s!"incomplete utf-8 byte sequence from index {fault.index}"

/-! ## Reading undoes writing -/

theorem toByteArray_encode (s : String) : (encode s).toByteArray = s.toByteArray :=
  String.utf8Encode_toList

theorem fromUTF8?_toByteArray (s : String) : String.fromUTF8? s.toByteArray = some s := by
  simp [String.fromUTF8?, s.isValidUTF8, String.fromUTF8]

/-- The bytes of a text are read back as the text. -/
@[simp] theorem decode_encode (s : String) : decode (encode s) = .ok s := by
  simp [decode, toByteArray_encode, fromUTF8?_toByteArray]

/-- Only the bytes of a text are read as that text. -/
theorem encode_of_decode {bytes : List UInt8} {s : String} (h : decode bytes = .ok s) :
    encode s = bytes := by
  have hs : String.fromUTF8? bytes.toByteArray = some s := by
    unfold decode at h
    split at h <;> simp_all
  have hb : s.toByteArray = bytes.toByteArray := by
    unfold String.fromUTF8? at hs
    split at hs
    · obtain rfl := Option.some.inj hs
      rfl
    · cases hs
  rw [← toByteArray_encode] at hb
  simpa [List.data_toByteArray] using congrArg (fun b => b.data.toList) hb

end AssemblyLinker.Utf8
