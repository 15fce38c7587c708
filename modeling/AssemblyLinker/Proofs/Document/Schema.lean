import AssemblyLinker.Proofs.Document
import AssemblyLinker.Proofs.Json.Decoding

/-! # The schema of assembly documents

    Which values are documents is told here without decoders: which members an object has to
    have, which it may leave out, which may be null, and what the document is then
    (`Document.HasForm`).  The entries of its references are objects, or lists of a name and
    perhaps a payload (`Reference.HasForm`).  Members under other keys are of no account.

    Reading a text agrees with the schema (`Document.parse_eq_ok_iff_schema`).  A value that
    the schema rules out is refused with the name that it states, if it states one.  The
    discriminator is the first thing that is looked at; only behind the right one members may
    be found at fault (`Document.Refuses`).
-/

namespace AssemblyLinker

open Json

namespace Json

/-! ## Optional members -/

/-- An object with a text under a key. -/
def HasText (v : Json) (key s : String) : Prop :=
  ∃ ms : Members, v = .obj ms ∧ ms.get? key = some (.str s)

section Optional

variable {α : Type}

/-- A member that may be left out, but may not be null. -/
inductive Defaulted (write : α → Json) (default : α) : Option Json → α → Prop where
  | absent : Defaulted write default none default
  | present (a : α) : Defaulted write default (some (write a)) a

/-- A member that may be left out, and may be null, which is the same. -/
inductive Nullable (write : α → Json) : Option Json → Option α → Prop where
  | absent : Nullable write none none
  | null : Nullable write (some .null) none
  | present (a : α) : Nullable write (some (write a)) (some a)

/-! A decoder that reads exactly what is written by `write` reads members of these kinds. -/

variable {decoder : Decoder α} {write : α → Json} {v? : Option Json} {a default : α}
  (hreads : ∀ j a, decoder j = .ok a ↔ j = write a)
include hreads

theorem partAs_none_iff : partAs none decoder v? = some a ↔ v? = some (write a) := by
  cases v? with
  | none => simp [partAs]
  | some j =>
    show (decoder j).toOption = _ ↔ _
    rw [toOption_eq_some_iff, hreads, Option.some.injEq]

theorem partAs_default_iff :
    partAs (some default) decoder v? = some a ↔ Defaulted write default v? a := by
  constructor
  · intro h
    cases v? with
    | none =>
      obtain rfl : default = a := Option.some.inj h
      exact .absent
    | some j =>
      obtain rfl := (hreads j a).1 (toOption_eq_some_iff.1 h)
      exact .present a
  · intro h
    cases h with
    | absent => rfl
    | present => exact toOption_eq_some_iff.2 ((hreads _ a).2 rfl)

theorem partAs_option_iff (hnull : ∀ a, write a ≠ .null) {a? : Option α} :
    partAs (some none) (asOption decoder) v? = some a? ↔ Nullable write v? a? := by
  constructor
  · intro h
    cases v? with
    | none =>
      obtain rfl : none = a? := Option.some.inj h
      exact .absent
    | some j =>
      rcases asOption_eq_ok (toOption_eq_some_iff.1 h) with ⟨rfl, rfl⟩ | ⟨-, a, ha, rfl⟩
      · exact .null
      · obtain rfl := (hreads j a).1 ha
        exact .present a
  · intro h
    cases h with
    | absent => rfl
    | null => rfl
    | present a =>
      apply toOption_eq_some_iff.2
      have hread := (hreads _ a).2 rfl
      cases hj : write a with
      | null => exact absurd hj (hnull a)
      | bool | num | str | arr | obj =>
        rw [hj] at hread
        simp [asOption, hread, Except.map]

end Optional

section Parts

variable {v? : Option Json} {s t : String} {s? : Option String} {b c : Bool} {b? : Option Bool}

theorem text_iff : partAs none asText v? = some s ↔ v? = some (.str s) :=
  partAs_none_iff fun _ _ => asText_eq_ok_iff

theorem defaultedText_iff : partAs (some t) asText v? = some s ↔ Defaulted .str t v? s :=
  partAs_default_iff fun _ _ => asText_eq_ok_iff

theorem nullableText_iff :
    partAs (some none) (asOption asText) v? = some s? ↔ Nullable .str v? s? :=
  partAs_option_iff (fun _ _ => asText_eq_ok_iff) fun _ h => by cases h

theorem flag_iff : partAs none asFlag v? = some b ↔ v? = some (.bool b) :=
  partAs_none_iff fun _ _ => asFlag_eq_ok_iff

theorem defaultedFlag_iff : partAs (some c) asFlag v? = some b ↔ Defaulted .bool c v? b :=
  partAs_default_iff fun _ _ => asFlag_eq_ok_iff

theorem nullableFlag_iff :
    partAs (some none) (asOption asFlag) v? = some b? ↔ Nullable .bool v? b? :=
  partAs_option_iff (fun _ _ => asFlag_eq_ok_iff) fun _ h => by cases h

theorem values_iff {js : List Json} :
    partAs none (asList asValue) v? = some js ↔ v? = some (.arr js) := by
  refine partAs_none_iff fun j js => ?_
  rw [asList_eq_ok_iff]
  constructor
  · rintro ⟨items, rfl, hmap⟩
    have hitems : items = js := List.map_injective_iff.2 (fun _ _ => Except.ok.inj) hmap
    rw [hitems]
  · rintro rfl
    exact ⟨js, rfl, rfl⟩

end Parts

/-- A member that is read as a part passes the check of its decoder. -/
theorem fits_of_partAs {α : Type} {decoder : Decoder α} {default? : Option α} {a : α}
    {ms : Members} {key : String} {j : Json} (hordered : Ordered ms) (hmem : (key, j) ∈ ms)
    (h : partAs default? decoder (ms.get? key) = some a) : fits decoder j = .ok () := by
  rw [get?_of_mem hordered hmem] at h
  exact fits_eq_ok_iff.2 ⟨a, toOption_eq_some_iff.1 h⟩

end Json

/-! ## References -/

namespace Reference

/-- The values that stand for a reference. -/
inductive HasForm : Json → Reference → Prop where
  | object {ms : Members} {r : Reference} (name : ms.get? "name" = some (.str r.name))
      (binary : Nullable .str (ms.get? "binary") r.binary) : HasForm (.obj ms) r
  | name (name : String) : HasForm (.arr [.str name]) { name }
  | fields (name : String) {j : Json} {binary : Option String}
      (nullable : Nullable .str (some j) binary) : HasForm (.arr [.str name, j]) { name, binary }

variable {ms : Members} {items : List Json} {r : Reference}

theorem ofMembers_eq_ok_iff (hordered : Ordered ms) :
    ofMembers ms = .ok r ↔ HasForm (.obj ms) r := by
  constructor
  · intro h
    obtain ⟨_, -, h⟩ := exists_of_bind_ok h
    obtain ⟨name, hname, h⟩ := exists_of_bind_ok h
    obtain ⟨binary, hbinary, h⟩ := exists_of_bind_ok h
    cases h
    refine .object ?_ ?_
    · exact text_iff.1 (required_eq_ok_iff.1 hname)
    · exact nullableText_iff.1 (defaulted_eq_ok_iff.1 hbinary)
  · intro h
    cases h with
    | object name binary =>
      have hname := text_iff.2 name
      have hbinary := nullableText_iff.2 binary
      have hcheck : checkMembers checkMember ms = .ok () := by
        apply checkMembers_ok
        rintro ⟨key, j⟩ hmem
        show checkMember key j = _
        unfold checkMember
        split
        · exact fits_of_partAs hordered hmem hname
        · exact fits_of_partAs hordered hmem hbinary
        · rfl
      unfold ofMembers
      rw [hcheck, required_eq_ok_iff.2 hname, defaulted_eq_ok_iff.2 hbinary]
      rfl

theorem ofItems_eq_ok_iff : ofItems items = .ok (r, []) ↔ HasForm (.arr items) r := by
  constructor
  · intro h
    obtain ⟨⟨name, _⟩, hfirst, h⟩ := exists_of_bind_ok h
    obtain ⟨hname, rfl⟩ := nextRequired_eq_ok_iff.1 hfirst
    obtain ⟨⟨binary, _⟩, hsecond, h⟩ := exists_of_bind_ok h
    obtain ⟨hbinary, rfl⟩ := nextDefaulted_eq_ok_iff.1 hsecond
    obtain ⟨rfl, hend⟩ := Prod.mk.inj (Except.ok.inj h)
    have hname := text_iff.1 hname
    have hbinary := nullableText_iff.1 hbinary
    -- the list ends behind the payload, if not before it
    match items, hname, hbinary, hend with
    | [_], hname, hbinary, _ =>
      cases hname
      cases hbinary
      exact .name name
    | [_, _], hname, hbinary, _ =>
      cases hname
      exact .fields name hbinary
  · intro h
    cases h with
    | name name => rfl
    | fields name nullable =>
      have hbinary := nullableText_iff.2 nullable
      unfold ofItems
      rw [nextRequired_eq_ok_iff.2 ⟨rfl, rfl⟩]
      simp only [bind, Except.bind, List.tail_cons]
      rw [nextDefaulted_eq_ok_iff.2 ⟨hbinary, rfl⟩]
      rfl

/-- Reading a reference agrees with its forms. -/
theorem ofJson_eq_ok_iff {depth : Nat} {j : Json} (hj : Json.Readable depth j) :
    ofJson j = .ok r ↔ HasForm j r := by
  cases hj with
  | obj sorted readable => exact ofMembers_eq_ok_iff sorted
  | arr readable =>
    show asRecord shape ofMembers ofItems _ = _ ↔ _
    rw [asRecord_arr_eq_ok_iff, ofItems_eq_ok_iff]
  | null | bool | num | str => exact iff_of_false (fun h => by cases h) fun h => by cases h

theorem map_ofJson_eq_iff {depth : Nat} (hitems : ∀ j ∈ items, Json.Readable depth j)
    {rs : List Reference} : items.map ofJson = rs.map .ok ↔ List.Forall₂ HasForm items rs := by
  induction items generalizing rs with
  | nil => cases rs with
    | nil => simp
    | cons r rs => exact iff_of_false (by simp) fun h => nomatch h
  | cons j items ih =>
    obtain ⟨hj, hitems⟩ := List.forall_mem_cons.1 hitems
    cases rs with
    | nil => exact iff_of_false (by simp) fun h => nomatch h
    | cons r rs =>
      rw [List.map_cons, List.map_cons, List.cons.injEq, ih hitems, ofJson_eq_ok_iff hj,
        List.forall₂_cons]

end Reference

/-! ## Documents -/

namespace Document

/-- The members of an object that stands for a document, other keys apart. -/
structure HasForm (ms : Members) (d : Document) : Prop where
  type : ms.get? "type" = some (.str "ASSEMBLY")
  name : ms.get? "name" = some (.str d.name)
  version : ms.get? "version" = some (.str d.version)
  uid : Defaulted .str "" (ms.get? "uid") d.uid
  loomConfig : ms.get? "loomconfig" = some (.str d.loomConfig)
  jit : ms.get? "jit" = some (.bool d.jit)
  debugBuild : Nullable .bool (ms.get? "debugbuild") d.debugBuild
  executable : Defaulted .bool false (ms.get? "executable") d.executable
  references : ∃ items, ms.get? "references" = some (.arr items) ∧
    List.Forall₂ Reference.HasForm items d.references
  modules : ms.get? "modules" = some (.arr d.modules)

/-- The keys of the members that no document is without, but for the discriminator. -/
def requiredKeys : List String :=
  ["name", "version", "loomconfig", "jit", "references", "modules"]

/-- What may be wrong with the members of an object behind the right discriminator: a member of
    the wrong type, or one that is missing. -/
inductive FieldFault (ms : Members) : Mismatch → Prop where
  | illTyped {key : String} {j : Json} {m : Mismatch} (member : (key, j) ∈ ms)
      (unfit : checkMember key j = .error m) : FieldFault ms m
  | missing {key : String} (required : key ∈ requiredKeys) (absent : ms.get? key = none) :
      FieldFault ms (.missingField key)

/-- Why a value is refused.  There is no fault of a field without the right discriminator. -/
inductive Refuses (v : Json) : Fault → Prop where
  | discriminatorAbsent (absent : ∀ s, ¬ v.HasText "type" s) : Refuses v .discriminatorAbsent
  | wrongDiscriminator {s : String} (found : v.HasText "type" s) (wrong : s ≠ "ASSEMBLY") :
      Refuses v (.wrongDiscriminator s)
  | mismatch {ms : Members} {m : Mismatch} (object : v = .obj ms)
      (found : v.HasText "type" "ASSEMBLY") (fault : FieldFault ms m) : Refuses v (.mismatch m)

variable {ms : Members} {d : Document} {depth : Nat}

theorem asList_references_iff {v? : Option Json} {rs : List Reference}
    (hreadable : ∀ j, v? = some j → Json.Readable (depth + 1) j) :
    partAs none (asList Reference.ofJson) v? = some rs ↔
      ∃ items, v? = some (.arr items) ∧ List.Forall₂ Reference.HasForm items rs := by
  cases v? with
  | none => simp [partAs]
  | some j =>
    show (asList Reference.ofJson j).toOption = _ ↔ _
    rw [toOption_eq_some_iff, asList_eq_ok_iff]
    constructor
    · rintro ⟨items, rfl, hmap⟩
      cases hreadable _ rfl with
      | arr readable => exact ⟨items, rfl, (Reference.map_ofJson_eq_iff readable).1 hmap⟩
    · rintro ⟨items, hj, hforms⟩
      cases hj
      cases hreadable _ rfl with
      | arr readable => exact ⟨items, rfl, (Reference.map_ofJson_eq_iff readable).2 hforms⟩

/-- Reading the members of an object behind the right discriminator agrees with the schema. -/
theorem ofMembers_eq_ok_iff (hordered : Ordered ms)
    (hreadable : ∀ m ∈ ms, Json.Readable (depth + 1) m.2)
    (htype : ms.get? "type" = some (.str discriminator)) :
    ofMembers ms = .ok d ↔ d.HasForm ms := by
  have hreferences : ∀ {rs}, partAs none (asList Reference.ofJson) (ms.get? "references") = some rs ↔
      ∃ items, ms.get? "references" = some (.arr items) ∧
        List.Forall₂ Reference.HasForm items rs :=
    asList_references_iff fun j hget => hreadable _ (mem_of_get? hget)
  constructor
  · intro h
    obtain ⟨_, -, h⟩ := exists_of_bind_ok h
    obtain ⟨name, hname, h⟩ := exists_of_bind_ok h
    obtain ⟨version, hversion, h⟩ := exists_of_bind_ok h
    obtain ⟨uid, huid, h⟩ := exists_of_bind_ok h
    obtain ⟨loomConfig, hloomConfig, h⟩ := exists_of_bind_ok h
    obtain ⟨jit, hjit, h⟩ := exists_of_bind_ok h
    obtain ⟨debugBuild, hdebugBuild, h⟩ := exists_of_bind_ok h
    obtain ⟨executable, hexecutable, h⟩ := exists_of_bind_ok h
    obtain ⟨references, hrefs, h⟩ := exists_of_bind_ok h
    obtain ⟨modules, hmodules, h⟩ := exists_of_bind_ok h
    cases h
    exact {
      type := htype
      name := text_iff.1 (required_eq_ok_iff.1 hname)
      version := text_iff.1 (required_eq_ok_iff.1 hversion)
      uid := defaultedText_iff.1 (defaulted_eq_ok_iff.1 huid)
      loomConfig := text_iff.1 (required_eq_ok_iff.1 hloomConfig)
      jit := flag_iff.1 (required_eq_ok_iff.1 hjit)
      debugBuild := nullableFlag_iff.1 (defaulted_eq_ok_iff.1 hdebugBuild)
      executable := defaultedFlag_iff.1 (defaulted_eq_ok_iff.1 hexecutable)
      references := hreferences.1 (required_eq_ok_iff.1 hrefs)
      modules := values_iff.1 (required_eq_ok_iff.1 hmodules) }
  · intro h
    have hkind := text_iff.2 h.type
    have hname := text_iff.2 h.name
    have hversion := text_iff.2 h.version
    have huid := defaultedText_iff.2 h.uid
    have hloomConfig := text_iff.2 h.loomConfig
    have hjit := flag_iff.2 h.jit
    have hdebugBuild := nullableFlag_iff.2 h.debugBuild
    have hexecutable := defaultedFlag_iff.2 h.executable
    have hrefs := hreferences.2 h.references
    have hmodules := values_iff.2 h.modules
    have hcheck : checkMembers checkMember ms = .ok () := by
      apply checkMembers_ok
      rintro ⟨key, j⟩ hmem
      show checkMember key j = _
      unfold checkMember
      split
      · exact fits_of_partAs hordered hmem hkind
      · exact fits_of_partAs hordered hmem hname
      · exact fits_of_partAs hordered hmem hversion
      · exact fits_of_partAs hordered hmem huid
      · exact fits_of_partAs hordered hmem hloomConfig
      · exact fits_of_partAs hordered hmem hjit
      · exact fits_of_partAs hordered hmem hdebugBuild
      · exact fits_of_partAs hordered hmem hexecutable
      · exact fits_of_partAs hordered hmem hrefs
      · exact fits_of_partAs hordered hmem hmodules
      · rfl
    unfold ofMembers
    rw [hcheck, required_eq_ok_iff.2 hname, required_eq_ok_iff.2 hversion,
      defaulted_eq_ok_iff.2 huid, required_eq_ok_iff.2 hloomConfig, required_eq_ok_iff.2 hjit,
      defaulted_eq_ok_iff.2 hdebugBuild, defaulted_eq_ok_iff.2 hexecutable,
      required_eq_ok_iff.2 hrefs, required_eq_ok_iff.2 hmodules]
    rfl

/-! ## Values that are refused -/

section Faults

variable {α : Type} {key : String} {decoder : Decoder α} {m : Mismatch}

/-- A field whose members all fit is at fault only if there is none. -/
theorem missing_of_required (hfits : ∀ j, (key, j) ∈ ms → fits decoder j = .ok ())
    (h : required key decoder ms = .error m) : ms.get? key = none ∧ m = .missingField key := by
  unfold required at h
  split at h
  next j hget =>
    obtain ⟨a, ha⟩ := fits_eq_ok_iff.1 (hfits j (mem_of_get? hget))
    rw [ha] at h
    cases h
  next hget =>
    cases h
    exact ⟨hget, rfl⟩

theorem not_error_of_defaulted {default : α}
    (hfits : ∀ j, (key, j) ∈ ms → fits decoder j = .ok ()) :
    defaulted key default decoder ms ≠ .error m := by
  intro h
  unfold defaulted at h
  split at h
  next j hget =>
    obtain ⟨a, ha⟩ := fits_eq_ok_iff.1 (hfits j (mem_of_get? hget))
    rw [ha] at h
    cases h
  next => cases h

end Faults

/-- Members that are no document have a field at fault. -/
theorem fieldFault_of_ofMembers {m : Mismatch} (h : ofMembers ms = .error m) : FieldFault ms m := by
  rcases error_of_bind h with h | ⟨_, hcheck, h⟩
  · obtain ⟨⟨key, j⟩, hmem, hunfit⟩ := exists_of_checkMembers_error h
    exact .illTyped hmem hunfit
  -- all members fit, so one of those that have to be there is not
  have hfits : ∀ key j, (key, j) ∈ ms → checkMember key j = .ok () := fun _ _ hmem =>
    check_of_checkMembers hcheck hmem
  have hmissing : ∀ {α : Type} {key : String} {decoder : Decoder α}, key ∈ requiredKeys →
      (∀ j, (key, j) ∈ ms → fits decoder j = .ok ()) →
      required key decoder ms = .error m → FieldFault ms m := by
    intro α key decoder hkey hfits hfail
    obtain ⟨habsent, rfl⟩ := missing_of_required hfits hfail
    exact .missing hkey habsent
  rcases error_of_bind h with h | ⟨name, -, h⟩
  · exact hmissing (by decide) (hfits "name") h
  rcases error_of_bind h with h | ⟨version, -, h⟩
  · exact hmissing (by decide) (hfits "version") h
  rcases error_of_bind h with h | ⟨uid, -, h⟩
  · exact absurd h (not_error_of_defaulted (hfits "uid"))
  rcases error_of_bind h with h | ⟨loomConfig, -, h⟩
  · exact hmissing (by decide) (hfits "loomconfig") h
  rcases error_of_bind h with h | ⟨jit, -, h⟩
  · exact hmissing (by decide) (hfits "jit") h
  rcases error_of_bind h with h | ⟨debugBuild, -, h⟩
  · exact absurd h (not_error_of_defaulted (hfits "debugbuild"))
  rcases error_of_bind h with h | ⟨executable, -, h⟩
  · exact absurd h (not_error_of_defaulted (hfits "executable"))
  rcases error_of_bind h with h | ⟨references, -, h⟩
  · exact hmissing (by decide) (hfits "references") h
  rcases error_of_bind h with h | ⟨modules, -, h⟩
  · exact hmissing (by decide) (hfits "modules") h
  cases h

theorem text?_eq_some_iff {v? : Option Json} {s : String} :
    v?.bind Json.text? = some s ↔ v? = some (.str s) := by
  rcases v? with _ | (_ | _ | _ | _ | _ | _) <;> simp [Json.text?]

theorem hasText_obj_iff {key s : String} :
    HasText (.obj ms) key s ↔ ms.get? key = some (.str s) := by
  constructor
  · rintro ⟨_, ⟨⟩, h⟩
    exact h
  · exact fun h => ⟨ms, rfl, h⟩

/-- The name of a value is the text under its key, if there is one. -/
theorem declaredName?_eq_some_iff {v : Json} {name : String} :
    declaredName? v = some name ↔ v.HasText "name" name := by
  cases v with
  | obj ms => rw [hasText_obj_iff, ← text?_eq_some_iff]; rfl
  | null | bool | num | str | arr => exact iff_of_false (fun h => by cases h) fun ⟨_, h, _⟩ => by cases h

/-! The discriminator decides first: it is absent, or wrong, or the members are looked at. -/

theorem ofJson_of_absent {v : Json} (habsent : ∀ s, ¬ v.HasText "type" s) :
    ofJson v = .error .discriminatorAbsent := by
  cases v with
  | obj ms =>
    cases hfound : (Members.get? "type" ms).bind Json.text? with
    | none => simp only [ofJson, hfound]
    | some s => exact absurd (hasText_obj_iff.2 (text?_eq_some_iff.1 hfound)) (habsent s)
  | null | bool | num | str | arr => rfl

theorem ofJson_of_wrong {v : Json} {s : String} (hfound : v.HasText "type" s)
    (hwrong : s ≠ discriminator) : ofJson v = .error (.wrongDiscriminator s) := by
  obtain ⟨ms, rfl, hget⟩ := hfound
  simp only [ofJson, text?_eq_some_iff.2 hget, if_neg hwrong]

theorem ofJson_of_right (htype : ms.get? "type" = some (.str discriminator)) :
    ofJson (.obj ms) = (ofMembers ms).mapError .mismatch := by
  simp only [ofJson, text?_eq_some_iff.2 htype, ↓reduceIte]

/-- A value that is no document is refused for a reason. -/
theorem refuses_of_ofJson {v : Json} {fault : Fault} (h : ofJson v = .error fault) :
    Refuses v fault := by
  by_cases habsent : ∀ s, ¬ v.HasText "type" s
  · rw [ofJson_of_absent habsent] at h
    cases h
    exact .discriminatorAbsent habsent
  · obtain ⟨s, hfound⟩ := not_forall_not.1 habsent
    by_cases hright : s = discriminator
    · subst hright
      obtain ⟨ms, rfl, htype⟩ := hfound
      rw [ofJson_of_right htype] at h
      cases hmembers : ofMembers ms with
      | ok d =>
        rw [hmembers] at h
        cases h
      | error m =>
        rw [hmembers] at h
        cases h
        exact .mismatch rfl (hasText_obj_iff.2 htype) (fieldFault_of_ofMembers hmembers)
    · rw [ofJson_of_wrong hfound hright] at h
      cases h
      exact .wrongDiscriminator hfound hright

/-- Reading a value agrees with the schema. -/
theorem ofJson_eq_ok_iff {v : Json} (hv : Json.Readable (depth + 2) v) :
    ofJson v = .ok d ↔ ∃ ms, v = .obj ms ∧ d.HasForm ms := by
  have hread : ∀ ms : Members, v = .obj ms → ms.get? "type" = some (.str discriminator) →
      (ofJson v = .ok d ↔ d.HasForm ms) := by
    rintro ms rfl htype
    cases hv with
    | obj sorted readable =>
      rw [ofJson_of_right htype, ← ofMembers_eq_ok_iff sorted readable htype]
      cases ofMembers ms <;> simp [Except.mapError]
  constructor
  · intro h
    by_cases hfound : v.HasText "type" discriminator
    · obtain ⟨ms, hms, htype⟩ := hfound
      exact ⟨ms, hms, (hread ms hms htype).1 h⟩
    · by_cases habsent : ∀ s, ¬ v.HasText "type" s
      · rw [ofJson_of_absent habsent] at h
        cases h
      · obtain ⟨s, hs⟩ := not_forall_not.1 habsent
        have hwrong : s ≠ discriminator := fun hsame => hfound (hsame ▸ hs)
        rw [ofJson_of_wrong hs hwrong] at h
        cases h
  · rintro ⟨ms, hms, hform⟩
    exact (hread ms hms hform.type).2 hform

/-! ## Texts -/

/-- Reading the text of a value agrees with the schema: a document is read exactly if the value
    has the form of one, and it is the one that the members say.  Any other value is refused by
    a schema error with the name that the value states.  The error is about the
    discriminator if that is missing or wrong, whatever else is, and about a field only behind
    the right one. -/
theorem parse_eq_ok_iff_schema (text origin : String) (v : Json)
    (hv : Json.parseFrom origin text = .ok v) :
    (∀ d, parse text origin = .ok d ↔ ∃ ms, v = .obj ms ∧ d.HasForm ms) ∧
    (∀ e, parse text origin = .error e → ∃ name? fault, e = .schema name? fault.message ∧
      (∀ name, name? = some name ↔ v.HasText "name" name) ∧ Refuses v fault) ∧
    ((∀ s, ¬ v.HasText "type" s) →
      ∃ name?, parse text origin = .error (.schema name? "discriminant type absent")) ∧
    ∀ s, v.HasText "type" s → s ≠ "ASSEMBLY" → ∃ name?, parse text origin =
      .error (.schema name? s!"discriminant type '{s}' au lieu de '{discriminator}'") := by
  have hreadable : Json.Readable (125 + 2) v := (parse_reads (parseFrom_eq_ok_iff.1 hv)).1
  have hparse := parse_of_parseFrom hv
  -- what `parse` makes of the two outcomes of reading the value
  have hok : ∀ d, parse text origin = .ok d ↔ ofJson v = .ok d := by
    intro d
    rw [hparse]
    cases ofJson v <;> simp [Except.mapError]
  have herror : ∀ e, parse text origin = .error e → ∃ fault,
      ofJson v = .error fault ∧ e = .schema (declaredName? v) fault.message := by
    intro e he
    rw [hparse] at he
    cases hjson : ofJson v with
    | ok d =>
      rw [hjson] at he
      cases he
    | error fault =>
      rw [hjson] at he
      cases he
      exact ⟨fault, rfl, rfl⟩
  have hrefused : ∀ fault, ofJson v = .error fault → ∃ name?,
      parse text origin = .error (.schema name? fault.message) := by
    intro fault hfault
    refine ⟨declaredName? v, ?_⟩
    rw [hparse, hfault]
    rfl
  refine ⟨?_, ?_, ?_, ?_⟩
  · intro d
    rw [hok, ofJson_eq_ok_iff hreadable]
  · intro e he
    obtain ⟨fault, hfault, rfl⟩ := herror e he
    exact ⟨declaredName? v, fault, rfl, fun name => declaredName?_eq_some_iff,
      refuses_of_ofJson hfault⟩
  · intro habsent
    exact hrefused .discriminatorAbsent (ofJson_of_absent habsent)
  · intro s hfound hwrong
    exact hrefused (.wrongDiscriminator s) (ofJson_of_wrong hfound hwrong)

/-! ### A document that leaves out what it may -/

/-- The members of a document with a null, a reference as a list of its fields, and a member of
    its own. -/
def terseMembers : List (String × Json) :=
  [("type", .str "ASSEMBLY"), ("name", .str "Main"), ("version", .str ""),
    ("loomconfig", .str ""), ("jit", .bool true), ("debugbuild", .null), ("comment", .bool true),
    ("references", .arr [.arr [.str "UI", .null]]), ("modules", .arr [.null])]

theorem readable_terse : Json.Readable maxDepth (object terseMembers) := by
  have hreferences : Json.Readable 126 (.arr [.arr [.str "UI", .null]]) := by
    refine .arr fun j hj => ?_
    rw [List.mem_singleton.1 hj]
    refine .arr fun i hi => ?_
    simp only [List.mem_cons, List.not_mem_nil, or_false] at hi
    rcases hi with rfl | rfl
    · exact .str _ _
    · exact .null _
  have hmodules : Json.Readable 126 (.arr [.null]) := by
    refine .arr fun j hj => ?_
    rw [List.mem_singleton.1 hj]
    exact .null _
  refine readable_object fun m hm => ?_
  simp only [terseMembers, List.mem_cons, List.not_mem_nil, or_false] at hm
  rcases hm with rfl | rfl | rfl | rfl | rfl | rfl | rfl | rfl | rfl
  · exact .str _ _
  · exact .str _ _
  · exact .str _ _
  · exact .str _ _
  · exact .bool _ _
  · exact .null _
  · exact .bool _ _
  · exact hreferences
  · exact hmodules

theorem parse_terse :
    Json.parseFrom "Main.loom" ((object terseMembers).pretty layout) =
      .ok (object terseMembers) ∧
    parse ((object terseMembers).pretty layout) "Main.loom" =
      .ok { name := "Main", version := "", loomConfig := "", jit := true,
            references := [{ name := "UI" }], modules := [.null] } := by
  have hread : Json.parseFrom "Main.loom" ((object terseMembers).pretty layout) =
      .ok (object terseMembers) := by
    rw [parseFrom_eq_ok_iff, parse_pretty readable_terse, reread_object]
    rfl
  have hget : ∀ key, (Members.ofList terseMembers).get? key =
      (terseMembers.reverse.find? (·.1 = key)).map (·.2) := fun key => get?_ofList key terseMembers
  refine ⟨hread, ((parse_eq_ok_iff_schema _ _ _ hread).1 _).2 ⟨_, rfl, ?_⟩⟩
  exact {
    type := hget "type"
    name := hget "name"
    version := hget "version"
    uid := hget "uid" ▸ .absent
    loomConfig := hget "loomconfig"
    jit := hget "jit"
    debugBuild := hget "debugbuild" ▸ .null
    executable := hget "executable" ▸ .absent
    references := ⟨_, hget "references", .cons (.fields "UI" .null) .nil⟩
    modules := hget "modules" }

end Document

end AssemblyLinker
