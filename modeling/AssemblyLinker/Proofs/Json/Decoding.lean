import AssemblyLinker.Proofs.Json.Objects
import AssemblyLinker.Proofs.Fallible

/-! # What decoders read

    A record is written as an object or as a list of its fields.  Either way it has parts, and
    reading a record comes to reading each part under its key or at its place
    (`Json.part?`, `Json.partAs`); a part that is absent may have a default.

    The members of an object are checked before any of them is read (`checkMembers`).  The keys
    of an object that has been read from a text are distinct, so what is checked under a key is
    what is read there (`get?_of_mem`).
-/

namespace AssemblyLinker.Json

/-! ## Parts of a record -/

/-- A part of a record: the member under a key, or the item at a place. -/
def part? (key : String) (place : Nat) : Json → Option Json
  | .obj members => Members.get? key members
  | .arr items => items[place]?
  | _ => none

section Parts

variable {α : Type}

/-- What a part is read as; an absent part is read as its default, if it has one. -/
def partAs (default? : Option α) (decoder : Decoder α) : Option Json → Option α
  | some j => (decoder j).toOption
  | none => default?

variable {decoder : Decoder α} {items rest : List Json} {ms : Members} {a : α}

theorem toOption_eq_some_iff {x : Except Mismatch α} : x.toOption = some a ↔ x = .ok a := by
  cases x <;> simp [Except.toOption]

theorem required_eq_ok_iff {key : String} :
    required key decoder ms = .ok a ↔ partAs none decoder (ms.get? key) = some a := by
  unfold required
  cases ms.get? key with
  | none => simp [partAs]
  | some j => exact toOption_eq_some_iff.symm

theorem defaulted_eq_ok_iff {key : String} {default : α} :
    defaulted key default decoder ms = .ok a ↔
      partAs (some default) decoder (ms.get? key) = some a := by
  unfold defaulted
  cases ms.get? key with
  | none => simp [partAs]
  | some j => exact toOption_eq_some_iff.symm

theorem nextRequired_eq_ok_iff {shape : RecordShape} {index : Nat} :
    nextRequired shape index decoder items = .ok (a, rest) ↔
      partAs none decoder items[0]? = some a ∧ rest = items.tail := by
  cases items with
  | nil => simp [nextRequired, partAs]
  | cons j items =>
    show (decoder j).map _ = _ ↔ (decoder j).toOption = some a ∧ rest = items
    cases decoder j <;> simp [Except.map, Except.toOption, eq_comm]

theorem nextDefaulted_eq_ok_iff {default : α} :
    nextDefaulted default decoder items = .ok (a, rest) ↔
      partAs (some default) decoder items[0]? = some a ∧ rest = items.tail := by
  cases items with
  | nil => simp [nextDefaulted, partAs, eq_comm]
  | cons j items =>
    show (decoder j).map _ = _ ↔ (decoder j).toOption = some a ∧ rest = items
    cases decoder j <;> simp [Except.map, Except.toOption, eq_comm]

theorem asRecord_arr_eq_ok_iff {shape : RecordShape} {ofMembers : Members → Except Mismatch α}
    {ofItems : List Json → Except Mismatch (α × List Json)} :
    asRecord shape ofMembers ofItems (.arr items) = .ok a ↔ ofItems items = .ok (a, []) := by
  unfold asRecord
  cases hitems : ofItems items with
  | error e => simp [hitems]
  | ok p =>
    obtain ⟨b, _ | _⟩ := p <;> simp [hitems]

theorem checkMembers_cons_eq_ok_iff {check : String → Json → Except Mismatch Unit} {key : String}
    {j : Json} : checkMembers check ((key, j) :: ms) = .ok () ↔
      check key j = .ok () ∧ checkMembers check ms = .ok () := by
  rw [checkMembers]
  cases check key j <;> simp

/-- All items of a list are read. -/
theorem eachItem_eq_ok_iff {item : Decoder α} : ∀ {as : List α},
    eachItem item items = .ok as ↔ items.map item = as.map .ok := by
  induction items with
  | nil =>
    intro as
    simp [eachItem, eq_comm]
  | cons j items ih =>
    intro as
    rw [eachItem, List.map_cons]
    cases hj : item j with
    | error e => cases as <;> simp
    | ok b =>
      cases as with
      | nil => cases hrest : eachItem item items <;> simp [Except.map]
      | cons c cs =>
        rw [List.map_cons, List.cons_eq_cons, ← ih]
        cases hrest : eachItem item items <;> simp [Except.map]

theorem asText_eq_ok_iff {j : Json} {s : String} : asText j = .ok s ↔ j = .str s := by
  cases j <;> simp [asText]

theorem asOption_eq_ok {decoder : Decoder α} {j : Json} {a? : Option α}
    (h : asOption decoder j = .ok a?) :
    j = .null ∧ a? = none ∨ j ≠ .null ∧ ∃ a, decoder j = .ok a ∧ a? = some a := by
  cases j with
  | null => exact .inl ⟨rfl, (Except.ok.inj h).symm⟩
  | bool | num | str | arr | obj =>
    obtain ⟨a, ha, hsome⟩ := exists_of_map_ok h
    exact .inr ⟨by simp, a, ha, hsome.symm⟩

theorem asFlag_eq_ok_iff {j : Json} {b : Bool} : asFlag j = .ok b ↔ j = .bool b := by
  cases j <;> simp [asFlag]

theorem asList_eq_ok_iff {j : Json} {as : List α} : asList decoder j = .ok as ↔
    ∃ items, j = .arr items ∧ items.map decoder = as.map .ok := by
  cases j with
  | arr items => simp [asList, eachItem_eq_ok_iff]
  | null | bool | num | str | obj => simp [asList]

theorem fits_eq_ok_iff {j : Json} : fits decoder j = .ok () ↔ ∃ a, decoder j = .ok a := by
  unfold fits
  cases decoder j <;> simp [Except.map]

end Parts

/-! ## Members and their checks -/

section Checks

variable {check : String → Json → Except Mismatch Unit} {ms : Members} {key : String} {j : Json}

/-- What stands under a key is found there, if no other member has the key. -/
theorem get?_of_mem (h : Ordered ms) (hmem : (key, j) ∈ ms) : ms.get? key = some j := by
  induction ms with
  | nil => cases hmem
  | cons m rest ih =>
    obtain ⟨head, i⟩ := m
    obtain ⟨hhead, hrest⟩ := List.pairwise_cons.1 h
    rw [Members.get?]
    rcases List.mem_cons.1 hmem with hm | hmem
    · obtain ⟨rfl, rfl⟩ := Prod.mk.inj hm
      rw [if_pos rfl]
    · have hlt : head < key := hhead key (List.mem_map_of_mem hmem)
      rw [if_neg (ne_of_lt hlt)]
      exact ih hrest hmem

theorem check_of_checkMembers (h : checkMembers check ms = .ok ()) {m : String × Json}
    (hm : m ∈ ms) : check m.1 m.2 = .ok () := by
  induction ms with
  | nil => cases hm
  | cons n rest ih =>
    obtain ⟨hn, hrest⟩ := checkMembers_cons_eq_ok_iff.1 h
    rcases List.mem_cons.1 hm with rfl | hm
    · exact hn
    · exact ih hrest hm

/-- A mismatch of the members is one of a member. -/
theorem exists_of_checkMembers_error {e : Mismatch} (h : checkMembers check ms = .error e) :
    ∃ m ∈ ms, check m.1 m.2 = .error e := by
  induction ms with
  | nil => cases h
  | cons m rest ih =>
    rw [checkMembers] at h
    split at h
    next e' hcheck =>
      cases h
      exact ⟨m, List.mem_cons_self, hcheck⟩
    next =>
      obtain ⟨n, hn, hcheck⟩ := ih h
      exact ⟨n, List.mem_cons_of_mem m hn, hcheck⟩

end Checks

end AssemblyLinker.Json
