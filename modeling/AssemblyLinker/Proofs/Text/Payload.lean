import AssemblyLinker.Executable
import AssemblyLinker.Loader

/-! # Payloads read back

    The written form of bytes is a row of quads, of which only the last one may be padded.
    The reader looks at that one apart from the others, and so does the proof that it reads
    back what has been written (`Base64.decode_encode`).

    A text that is put into a payload comes out of it again, but for NUL characters at its
    end (`decodePayload_encodePayload`).  Whatever comes out of a payload is no longer than
    the payload itself.
-/

namespace AssemblyLinker

/-! ## Texts of ASCII characters -/

namespace Utf8

theorem encode_of_ascii {s : String} (h : ∀ c ∈ s.toList, c.utf8Size = 1) :
    encode s = s.toList.map fun c => UInt8.ofNat c.toNat := by
  unfold encode
  generalize s.toList = cs at h
  induction cs with
  | nil => rfl
  | cons c cs ih =>
    rw [List.flatMap_cons, String.utf8EncodeChar_eq_singleton (h c List.mem_cons_self),
      ih fun d hd => h d (List.mem_cons_of_mem c hd)]
    rfl

/-- The marks of the lengths are the highest bits of the first byte. -/
theorem le_marks : ∀ n < 256, 128 ≤ (UInt8.ofNat n &&& 0x1f ||| 0xc0).toNat ∧
    128 ≤ (UInt8.ofNat n &&& 0x0f ||| 0xe0).toNat ∧
    128 ≤ (UInt8.ofNat n &&& 0x07 ||| 0xf0).toNat := by
  decide +kernel

/-- The first byte of a character with several bytes is not ASCII. -/
theorem utf8Size_eq_one_of_ascii {c : Char}
    (h : ∀ b ∈ String.utf8EncodeChar c, b.toNat < 128) : c.utf8Size = 1 := by
  rcases Char.utf8Size_eq c with hsize | hsize | hsize | hsize
  · exact hsize
  · rw [String.utf8EncodeChar_eq_cons_cons hsize] at h
    have hmark := (le_marks _ (c.val >>> 6).toUInt8.toNat_lt).1
    rw [UInt8.ofNat_toNat] at hmark
    exact absurd (h _ List.mem_cons_self) (Nat.not_lt.2 hmark)
  · rw [String.utf8EncodeChar_eq_cons_cons_cons hsize] at h
    have hmark := (le_marks _ (c.val >>> 12).toUInt8.toNat_lt).2.1
    rw [UInt8.ofNat_toNat] at hmark
    exact absurd (h _ List.mem_cons_self) (Nat.not_lt.2 hmark)
  · rw [String.utf8EncodeChar_eq_cons_cons_cons_cons hsize] at h
    have hmark := (le_marks _ (c.val >>> 18).toUInt8.toNat_lt).2.2
    rw [UInt8.ofNat_toNat] at hmark
    exact absurd (h _ List.mem_cons_self) (Nat.not_lt.2 hmark)

/-- A text of ASCII bytes has ASCII characters. -/
theorem utf8Size_eq_one_of_encode {s : String} (h : ∀ b ∈ encode s, b.toNat < 128) :
    ∀ c ∈ s.toList, c.utf8Size = 1 := fun c hc =>
  utf8Size_eq_one_of_ascii fun b hb => h b (List.mem_flatMap.2 ⟨c, hc, hb⟩)

theorem encode_length_of_ascii {s : String} (h : ∀ b ∈ encode s, b.toNat < 128) :
    (encode s).length = s.length := by
  rw [encode_of_ascii (utf8Size_eq_one_of_encode h), List.length_map, String.length_toList]

end Utf8

/-! ## Base64 -/

namespace Base64

/-- The byte of a symbol. -/
def symbolByte (v : Nat) : UInt8 := UInt8.ofNat (symbol v).toNat

/-- The bytes of a written form. -/
def encodedBytes (bytes : List UInt8) : List UInt8 :=
  (encode bytes).map fun c => UInt8.ofNat c.toNat

theorem value?_symbolByte {v : Nat} (hv : v < 64) : value? (symbolByte v) = some v := by
  decide +revert

theorem symbolByte_ne_pad {v : Nat} (hv : v < 64) : symbolByte v ≠ pad := by
  decide +revert

/-- A symbol is an ASCII character that is no blank. -/
theorem symbol_plain {v : Nat} (hv : v < 64) :
    String.utf8EncodeChar (symbol v) = [symbolByte v] ∧ Text.isBlank (symbol v) = false := by
  decide +revert

section Quads

variable (a b c : UInt8)

theorem sextets_lt : a.toNat / 4 < 64 ∧ a.toNat % 4 * 16 + b.toNat / 16 < 64 ∧
    b.toNat % 16 * 4 + c.toNat / 64 < 64 ∧ c.toNat % 64 < 64 := by
  have ha := a.toNat_lt
  have hb := b.toNat_lt
  have hc := c.toNat_lt
  omega

/-- The bytes of a quad are those that it has been written for. -/
theorem pack_quad (rest : List Nat) :
    pack (a.toNat / 4 :: (a.toNat % 4 * 16 + b.toNat / 16) ::
      (b.toNat % 16 * 4 + c.toNat / 64) :: c.toNat % 64 :: rest) = a :: b :: c :: pack rest := by
  have hb := b.toNat_lt
  have hc := c.toNat_lt
  have h₁ : a.toNat / 4 * 4 + (a.toNat % 4 * 16 + b.toNat / 16) / 16 = a.toNat := by omega
  have h₂ : (a.toNat % 4 * 16 + b.toNat / 16) % 16 * 16 +
      (b.toNat % 16 * 4 + c.toNat / 64) / 4 = b.toNat := by omega
  have h₃ : (b.toNat % 16 * 4 + c.toNat / 64) % 4 * 64 + c.toNat % 64 = c.toNat := by omega
  rw [pack, h₁, h₂, h₃]
  simp only [UInt8.ofNat_toNat]

end Quads

/-- How a written form is read: symbols in whole quads, then the last quad, which is filled
    up and has no bits to spare. -/
def ReadAs (form bytes : List UInt8) : Prop :=
  ∃ first last vs ws padding, form = first ++ last ∧ first.length % 4 = 0 ∧ last.length = 4 ∧
    (∀ offset, values offset first = .ok vs) ∧
    (∀ offset, lastQuad offset 0 last = .ok (ws, padding)) ∧
    2 ≤ ws.length ∧ (ws.length + padding) % 4 = 0 ∧ spareBits ws = 0 ∧ pack (vs ++ ws) = bytes

theorem readAs_encodedBytes {bytes : List UInt8} (hne : bytes ≠ []) :
    ReadAs (encodedBytes bytes) bytes := by
  induction bytes using encode.induct with
  | case1 => exact absurd rfl hne
  | case2 a =>
    have ha := a.toNat_lt
    have h₁ : a.toNat / 4 < 64 := by omega
    have h₂ : a.toNat % 4 * 16 < 64 := by omega
    have hspare : a.toNat % 4 * 16 % 16 = 0 := by omega
    have hbyte : a.toNat / 4 * 4 + a.toNat % 4 * 16 / 16 = a.toNat := by omega
    refine ⟨[], [symbolByte (a.toNat / 4), symbolByte (a.toNat % 4 * 16), pad, pad], [],
      [a.toNat / 4, a.toNat % 4 * 16], 2, rfl, rfl, rfl, fun offset => rfl, fun offset => ?_,
      by simp, by simp, hspare, ?_⟩
    · simp [lastQuad, symbolByte_ne_pad h₁, symbolByte_ne_pad h₂, value?_symbolByte h₁,
        value?_symbolByte h₂, Except.map]
    · simp only [List.nil_append, pack, hbyte, UInt8.ofNat_toNat]
  | case3 a b =>
    obtain ⟨h₁, h₂, -⟩ := sextets_lt a b 0
    have hb := b.toNat_lt
    have h₃ : b.toNat % 16 * 4 < 64 := by omega
    have hspare : b.toNat % 16 * 4 % 4 = 0 := by omega
    have hfirst : a.toNat / 4 * 4 + (a.toNat % 4 * 16 + b.toNat / 16) / 16 = a.toNat := by omega
    have hsecond : (a.toNat % 4 * 16 + b.toNat / 16) % 16 * 16 + b.toNat % 16 * 4 / 4 =
        b.toNat := by omega
    refine ⟨[], [symbolByte (a.toNat / 4), symbolByte (a.toNat % 4 * 16 + b.toNat / 16),
      symbolByte (b.toNat % 16 * 4), pad], [],
      [a.toNat / 4, a.toNat % 4 * 16 + b.toNat / 16, b.toNat % 16 * 4], 1, rfl, rfl, rfl,
      fun offset => rfl, fun offset => ?_, by simp, by simp, hspare, ?_⟩
    · simp [lastQuad, symbolByte_ne_pad h₁, symbolByte_ne_pad h₂, symbolByte_ne_pad h₃,
        value?_symbolByte h₁, value?_symbolByte h₂, value?_symbolByte h₃, Except.map]
    · simp only [List.nil_append, pack, hfirst, hsecond, UInt8.ofNat_toNat]
  | case4 a b c rest ih =>
    obtain ⟨h₁, h₂, h₃, h₄⟩ := sextets_lt a b c
    have hquad := pack_quad a b c
    by_cases hrest : rest = []
    · subst hrest
      refine ⟨[], [symbolByte (a.toNat / 4), symbolByte (a.toNat % 4 * 16 + b.toNat / 16),
        symbolByte (b.toNat % 16 * 4 + c.toNat / 64), symbolByte (c.toNat % 64)], [],
        [a.toNat / 4, a.toNat % 4 * 16 + b.toNat / 16, b.toNat % 16 * 4 + c.toNat / 64,
          c.toNat % 64], 0, rfl, rfl, rfl, fun offset => rfl, fun offset => ?_, by simp, by simp,
        rfl, hquad []⟩
      simp [lastQuad, symbolByte_ne_pad h₁, symbolByte_ne_pad h₂, symbolByte_ne_pad h₃,
        symbolByte_ne_pad h₄, value?_symbolByte h₁, value?_symbolByte h₂, value?_symbolByte h₃,
        value?_symbolByte h₄, Except.map]
    -- one more quad before those of the rest
    · obtain ⟨first, last, vs, ws, padding, hform, hlength, hlast, hvalues, hquads, htwo,
        hfull, hspare, hpack⟩ := ih hrest
      refine ⟨symbolByte (a.toNat / 4) :: symbolByte (a.toNat % 4 * 16 + b.toNat / 16) ::
        symbolByte (b.toNat % 16 * 4 + c.toNat / 64) :: symbolByte (c.toNat % 64) :: first, last,
        a.toNat / 4 :: (a.toNat % 4 * 16 + b.toNat / 16) ::
          (b.toNat % 16 * 4 + c.toNat / 64) :: c.toNat % 64 :: vs, ws, padding, ?_, ?_, hlast,
        fun offset => ?_, hquads, htwo, hfull, hspare, ?_⟩
      · rw [List.cons_append, List.cons_append, List.cons_append, List.cons_append, ← hform]
        rfl
      · simp only [List.length_cons]
        omega
      · simp [values, value?_symbolByte h₁, value?_symbolByte h₂, value?_symbolByte h₃,
          value?_symbolByte h₄, hvalues, Except.map]
      · rw [List.cons_append, List.cons_append, List.cons_append, List.cons_append, hquad, hpack]

/-- The written form of bytes is read back. -/
theorem decode_encodedBytes (bytes : List UInt8) : decode (encodedBytes bytes) = .ok bytes := by
  by_cases hne : bytes = []
  · subst hne
    rfl
  obtain ⟨first, last, vs, ws, padding, hform, hlength, hlast, hvalues, hquads, htwo, hfull,
    hspare, hpack⟩ := readAs_encodedBytes hne
  have htotal : (first ++ last).length = first.length + 4 := by rw [List.length_append, hlast]
  have hstray : strayEnd? (first ++ last) = none := by
    unfold strayEnd?
    split
    · rw [if_neg]
      rintro ⟨hmod, -⟩
      rw [htotal] at hmod
      omega
    · rfl
  have hstart : lastQuadStart (first ++ last).length = first.length := by
    rw [htotal, lastQuadStart]
    omega
  have hcheck : checkLast first.length last ws padding = .ok () := by
    have hfew : ¬ (last ≠ [] ∧ ws.length < 2) := by omega
    rw [checkLast, if_neg hfew, if_neg (by omega), if_neg (by omega)]
  rw [hform, decode, hstray]
  simp only [hstart, List.take_left', List.drop_left', hvalues, hquads, hcheck, hpack,
    bind, Except.bind, pure, Except.pure]

/-- The written form consists of ASCII characters that are no blanks. -/
theorem encode_plain (bytes : List UInt8) : ∀ c ∈ encode bytes,
    String.utf8EncodeChar c = [UInt8.ofNat c.toNat] ∧ Text.isBlank c = false := by
  have hpad : String.utf8EncodeChar '=' = [UInt8.ofNat '='.toNat] ∧ Text.isBlank '=' = false := by
    decide
  induction bytes using encode.induct with
  | case1 =>
    intro c hc
    cases hc
  | case2 a =>
    have ha := a.toNat_lt
    intro c hc
    simp only [encode, List.mem_cons, List.not_mem_nil, or_false] at hc
    rcases hc with rfl | rfl | rfl | rfl
    · exact symbol_plain (by omega)
    · exact symbol_plain (by omega)
    · exact hpad
    · exact hpad
  | case3 a b =>
    obtain ⟨h₁, h₂, -⟩ := sextets_lt a b 0
    intro c hc
    simp only [encode, List.mem_cons, List.not_mem_nil, or_false] at hc
    rcases hc with rfl | rfl | rfl | rfl
    · exact symbol_plain h₁
    · exact symbol_plain h₂
    · exact symbol_plain (by omega)
    · exact hpad
  | case4 a b c rest ih =>
    obtain ⟨h₁, h₂, h₃, h₄⟩ := sextets_lt a b c
    intro d hd
    simp only [encode, List.mem_cons] at hd
    rcases hd with rfl | rfl | rfl | rfl | hd
    · exact symbol_plain h₁
    · exact symbol_plain h₂
    · exact symbol_plain h₃
    · exact symbol_plain h₄
    · exact ih d hd

theorem utf8_encode (bytes : List UInt8) :
    Utf8.encode (String.ofList (encode bytes)) = encodedBytes bytes := by
  have hascii : ∀ c ∈ encode bytes, c.utf8Size = 1 := by
    intro c hc
    rw [← String.length_utf8EncodeChar, (encode_plain bytes c hc).1]
    rfl
  rw [Utf8.encode_of_ascii (by rwa [String.toList_ofList]), String.toList_ofList]
  rfl

/-! ### Lengths -/

theorem value?_ascii {b : UInt8} {v : Nat} (h : value? b = some v) : b.toNat < 128 := by
  unfold value? at h
  split at h
  next hb =>
    have hle := UInt8.le_iff_toNat_le.1 hb.2
    have hmax : (90 : UInt8).toNat = 90 := rfl
    omega
  split at h
  next hb =>
    have hle := UInt8.le_iff_toNat_le.1 hb.2
    have hmax : (122 : UInt8).toNat = 122 := rfl
    omega
  split at h
  next hb =>
    have hle := UInt8.le_iff_toNat_le.1 hb.2
    have hmax : (57 : UInt8).toNat = 57 := rfl
    omega
  split at h
  next hb =>
    subst hb
    decide
  split at h
  next hb =>
    subst hb
    decide
  next => cases h

/-- Symbols are ASCII, one for each number. -/
theorem values_reads {offset : Nat} {bytes : List UInt8} {vs : List Nat}
    (h : values offset bytes = .ok vs) :
    vs.length = bytes.length ∧ ∀ b ∈ bytes, b.toNat < 128 := by
  induction bytes generalizing offset vs with
  | nil =>
    cases h
    exact ⟨rfl, fun b hb => by cases hb⟩
  | cons b bytes ih =>
    rw [values] at h
    split at h
    · cases h
    next v hv =>
      cases hrest : values (offset + 1) bytes with
      | error fault =>
        rw [hrest] at h
        cases h
      | ok ws =>
        rw [hrest] at h
        cases h
        obtain ⟨hlength, hascii⟩ := ih hrest
        refine ⟨by rw [List.length_cons, List.length_cons, hlength], fun c hc => ?_⟩
        rcases List.mem_cons.1 hc with rfl | hc
        · exact value?_ascii hv
        · exact hascii c hc

/-- A last quad is ASCII, with at most one number for each of its bytes. -/
theorem lastQuad_reads {offset index padding : Nat} {bytes : List UInt8} {vs : List Nat}
    (h : lastQuad offset index bytes = .ok (vs, padding)) :
    vs.length ≤ bytes.length ∧ ∀ b ∈ bytes, b.toNat < 128 := by
  have hpad : pad.toNat < 128 := by decide
  induction bytes generalizing index vs padding with
  | nil =>
    cases h
    exact ⟨Nat.le_refl _, fun b hb => by cases hb⟩
  | cons b bytes ih =>
    rw [lastQuad] at h
    split at h
    next hb =>
      split at h
      · cases h
      next hall =>
        cases h
        refine ⟨Nat.zero_le _, fun c hc => ?_⟩
        rcases List.mem_cons.1 hc with rfl | hc
        · exact hb ▸ hpad
        · have hpads : bytes.all (· = pad) = true := Decidable.not_not.1 fun hnot =>
            hall (.inr hnot)
          obtain rfl : c = pad := of_decide_eq_true (List.all_eq_true.1 hpads c hc)
          exact hpad
    next =>
      split at h
      · cases h
      next v hv =>
        cases hrest : lastQuad offset (index + 1) bytes with
        | error fault =>
          rw [hrest] at h
          cases h
        | ok quad =>
          obtain ⟨ws, n⟩ := quad
          rw [hrest] at h
          cases h
          obtain ⟨hlength, hascii⟩ := ih hrest
          refine ⟨by simp only [List.length_cons]; omega, fun c hc => ?_⟩
          rcases List.mem_cons.1 hc with rfl | hc
          · exact value?_ascii hv
          · exact hascii c hc

theorem pack_length_le (vs : List Nat) : (pack vs).length ≤ vs.length := by
  induction vs using pack.induct with
  | case1 a b c d rest ih =>
    simp only [pack, List.length_cons]
    omega
  | case2 => simp [pack]
  | case3 => simp [pack]
  | case4 vs h₁ h₂ h₃ =>
    rw [pack]
    · exact Nat.zero_le _
    all_goals assumption

/-- A form that is read is ASCII and no shorter than the bytes that are read from it. -/
theorem decode_reads {form bytes : List UInt8} (h : decode form = .ok bytes) :
    bytes.length ≤ form.length ∧ ∀ b ∈ form, b.toNat < 128 := by
  unfold decode at h
  split at h
  · cases h
  · cases hfirst : values 0 (form.take (lastQuadStart form.length)) with
    | error fault =>
      simp only [hfirst, bind, Except.bind] at h
      cases h
    | ok vs =>
      cases hlast : lastQuad (lastQuadStart form.length) 0
          (form.drop (lastQuadStart form.length)) with
      | error fault =>
        simp only [hfirst, hlast, bind, Except.bind] at h
        cases h
      | ok quad =>
        obtain ⟨ws, padding⟩ := quad
        simp only [hfirst, hlast, bind, Except.bind] at h
        split at h
        · cases h
        · cases h
          -- there is one number at most for each symbol, and no more bytes than numbers
          obtain ⟨hvs, hsymbols⟩ := values_reads hfirst
          obtain ⟨hws, hquad⟩ := lastQuad_reads hlast
          have hpack := pack_length_le (vs ++ ws)
          rw [List.length_append] at hpack
          rw [List.length_take] at hvs
          rw [List.length_drop] at hws
          refine ⟨by omega, fun b hb => ?_⟩
          rw [← List.take_append_drop (lastQuadStart form.length) form] at hb
          rcases List.mem_append.1 hb with hb | hb
          · exact hsymbols b hb
          · exact hquad b hb

end Base64

/-! ## Texts in payloads -/

theorem trimmed_of_plain {cs : List Char} (h : ∀ c ∈ cs, Text.isBlank c = false) :
    Text.trim (String.ofList cs) = String.ofList cs := by
  have hdrop : ∀ ds : List Char, (∀ c ∈ ds, Text.isBlank c = false) →
      ds.dropWhile Text.isBlank = ds := by
    intro ds hds
    cases ds with
    | nil => rfl
    | cons d ds => simp [hds d List.mem_cons_self]
  rw [Text.trim, String.toList_ofList, hdrop cs h, Text.dropEndWhile,
    hdrop _ fun c hc => h c (List.mem_reverse.1 hc), List.reverse_reverse]

/-- A text comes out of its payload, but for NUL characters at its end. -/
theorem decodePayload_encodePayload (text : String) :
    decodePayload (Executable.encodePayload text) = .ok (Text.trimEnd '\x00' text) := by
  have hplain := fun c hc => (Base64.encode_plain (Utf8.encode text) c hc).2
  unfold decodePayload Executable.encodePayload
  rw [trimmed_of_plain hplain, Base64.utf8_encode, Base64.decode_encodedBytes]
  simp only [Utf8.decode_encode]

theorem length_le_encode (s : String) : s.length ≤ (Utf8.encode s).length := by
  rw [Utf8.encode, ← String.length_toList]
  induction s.toList with
  | nil => exact Nat.le_refl 0
  | cons c cs ih =>
    have hpos : 0 < (String.utf8EncodeChar c).length := by
      rw [String.length_utf8EncodeChar]
      exact c.utf8Size_pos
    rw [List.flatMap_cons, List.length_append, List.length_cons]
    omega

theorem trim_length_le (s : String) : (Text.trim s).length ≤ s.length := by
  rw [Text.trim, String.length_ofList, Text.dropEndWhile, List.length_reverse,
    ← String.length_toList]
  have hend := (List.dropWhile_suffix Text.isBlank
    (l := (s.toList.dropWhile Text.isBlank).reverse)).length_le
  have hstart := (List.dropWhile_suffix Text.isBlank (l := s.toList)).length_le
  rw [List.length_reverse] at hend
  omega

theorem trimEnd_length_le (c : Char) (s : String) : (Text.trimEnd c s).length ≤ s.length := by
  rw [Text.trimEnd, String.length_ofList, Text.dropEndWhile, List.length_reverse,
    ← String.length_toList]
  have hend := (List.dropWhile_suffix (· == c) (l := s.toList.reverse)).length_le
  rwa [List.length_reverse] at hend

/-- The text of a payload is no longer than the payload. -/
theorem decodePayload_length_le {encoded text : String} (h : decodePayload encoded = .ok text) :
    text.length ≤ encoded.length := by
  unfold decodePayload at h
  split at h
  · cases h
  next bytes hbytes =>
    split at h
    · cases h
    next s hs =>
      cases h
      obtain ⟨hlength, hascii⟩ := Base64.decode_reads hbytes
      have hform := Utf8.encode_length_of_ascii hascii
      have hs' := length_le_encode s
      rw [Utf8.encode_of_decode hs] at hs'
      have htrim := trim_length_le encoded
      have hend := trimEnd_length_le '\x00' s
      omega

end AssemblyLinker
