import AssemblyLinker.Assembly.Declaration
import AssemblyLinker.Proofs.Document

/-! # Documents that are read again

    A value that has been printed may come back with other floating-point numbers
    (`Json.reread`).  No decoder of documents takes a number, so what it has read once it reads
    again (`Json.Steadfast`): a module document is the same after a round through a text
    (`ModuleDocument.read_reread`).
-/

namespace AssemblyLinker

namespace Json

/-! ## Decoders that read the same again -/

section Combinators

variable {α β : Type}

/-- Whatever is read from a source is read as well from the source after a round. -/
def Again {σ : Type} (again : σ → σ) (f : σ → Except Mismatch α) : Prop :=
  ∀ x a, f x = .ok a → f (again x) = .ok a

/-- A decoder reads the same from a value that comes back from its text. -/
def Steadfast (decoder : Decoder α) : Prop := Again reread decoder

/-- Whatever is taken from the front of a list is taken as well from the list after a round, and
    the rest is the one after a round. -/
def SteadfastItems (f : List Json → Except Mismatch (α × List Json)) : Prop :=
  ∀ items a rest, f items = .ok (a, rest) → f (rereadItems items) = .ok (a, rereadItems rest)

theorem Again.bind {σ : Type} {again : σ → σ} {f : σ → Except Mismatch α}
    {g : α → σ → Except Mismatch β} (hf : Again again f) (hg : ∀ a, Again again (g a)) :
    Again again fun x => f x >>= fun a => g a x := by
  intro x b h
  obtain ⟨a, ha, hb⟩ := exists_of_bind_ok h
  show (f (again x) >>= fun a => g a (again x)) = _
  rw [hf x a ha]
  exact hg a x b hb

theorem SteadfastItems.bind {f : List Json → Except Mismatch (α × List Json)}
    {g : α → List Json → Except Mismatch (β × List Json)} (hf : SteadfastItems f)
    (hg : ∀ a, SteadfastItems (g a)) :
    SteadfastItems fun items => f items >>= fun p => g p.1 p.2 := by
  intro items b rest h
  obtain ⟨⟨a, items'⟩, ha, hb⟩ := exists_of_bind_ok h
  show (f (rereadItems items) >>= fun p => g p.1 p.2) = _
  rw [hf items a items' ha]
  exact hg a items' b rest hb

theorem Again.pure {σ : Type} (again : σ → σ) (a : α) :
    Again again fun _ => (Pure.pure a : Except Mismatch α) := fun _ _ h => h

theorem SteadfastItems.pure (a : α) :
    SteadfastItems fun items => (Pure.pure (a, items) : Except Mismatch (α × List Json)) := by
  intro items b rest h
  cases h
  rfl

end Combinators

/-! ## The parts of a document -/

section Parts

variable {α : Type} {decoder : Decoder α}

theorem steadfast_asText : Steadfast asText := by
  intro j s h
  cases j <;> cases h
  rfl

theorem steadfast_asOption (hdecoder : Steadfast decoder) : Steadfast (asOption decoder) := by
  intro j a h
  cases j with
  | null => exact h
  | bool | num | str | arr | obj =>
    obtain ⟨b, hb, rfl⟩ := exists_of_map_ok h
    show (decoder (reread _)).map some = _
    rw [hdecoder _ b hb]
    rfl

theorem steadfast_asList (hdecoder : Steadfast decoder) : Steadfast (asList decoder) := by
  intro j as h
  cases j with
  | arr items =>
    show eachItem decoder (rereadItems items) = .ok as
    have h : eachItem decoder items = .ok as := h
    induction items generalizing as with
    | nil => exact h
    | cons j rest ih =>
      rw [eachItem] at h
      cases hj : decoder j with
      | error e =>
        rw [hj] at h
        cases h
      | ok a =>
        rw [hj] at h
        obtain ⟨bs, hbs, rfl⟩ := exists_of_map_ok h
        rw [rereadItems, eachItem, hdecoder j a hj]
        show (eachItem decoder (rereadItems rest)).map (a :: ·) = _
        rw [ih bs hbs hbs]
        rfl
  | null | bool | num | str | obj => cases h

theorem get?_rereadMembers (key : String) (members : Members) :
    Members.get? key (rereadMembers members) = (Members.get? key members).map reread := by
  induction members with
  | nil => rfl
  | cons m rest ih =>
    obtain ⟨k, j⟩ := m
    rw [rereadMembers, Members.get?, Members.get?]
    split
    · rfl
    · exact ih

theorem again_required (key : String) (hdecoder : Steadfast decoder) :
    Again rereadMembers (required key decoder) := by
  intro members a h
  unfold required at h ⊢
  rw [get?_rereadMembers]
  cases hj : Members.get? key members with
  | none =>
    rw [hj] at h
    cases h
  | some j =>
    rw [hj] at h
    exact hdecoder j a h

theorem again_defaulted (key : String) (default : α) (hdecoder : Steadfast decoder) :
    Again rereadMembers (defaulted key default decoder) := by
  intro members a h
  unfold defaulted at h ⊢
  rw [get?_rereadMembers]
  cases hj : Members.get? key members with
  | none =>
    rw [hj] at h
    exact h
  | some j =>
    rw [hj] at h
    exact hdecoder j a h

theorem again_fits (hdecoder : Steadfast decoder) : Again reread (fits decoder) := by
  intro j a h
  unfold fits at h ⊢
  obtain ⟨b, hb, -⟩ := exists_of_map_ok h
  rw [hdecoder j b hb]
  rfl

theorem again_checkMembers {check : String → Json → Except Mismatch Unit}
    (hcheck : ∀ key, Again reread (check key)) : Again rereadMembers (checkMembers check) := by
  intro members
  induction members with
  | nil => exact fun _ h => h
  | cons m rest ih =>
    intro a h
    obtain ⟨key, j⟩ := m
    rw [checkMembers] at h
    rw [rereadMembers, checkMembers]
    cases hj : check key j with
    | error e =>
      rw [hj] at h
      cases h
    | ok u =>
      rw [hj] at h
      rw [hcheck key j u hj]
      exact ih a h

theorem steadfast_nextRequired (shape : RecordShape) (index : Nat) (hdecoder : Steadfast decoder) :
    SteadfastItems (nextRequired shape index decoder) := by
  intro items a rest h
  cases items with
  | nil => cases h
  | cons j items =>
    obtain ⟨b, hb, hab⟩ := exists_of_map_ok h
    cases hab
    rw [rereadItems, nextRequired, hdecoder j a hb]
    rfl

theorem steadfast_nextDefaulted (default : α) (hdecoder : Steadfast decoder) :
    SteadfastItems (nextDefaulted default decoder) := by
  intro items a rest h
  cases items with
  | nil =>
    cases h
    rfl
  | cons j items =>
    obtain ⟨b, hb, hab⟩ := exists_of_map_ok h
    cases hab
    rw [rereadItems, nextDefaulted, hdecoder j a hb]
    rfl

theorem steadfast_asRecord (shape : RecordShape) {ofMembers : Members → Except Mismatch α}
    {ofItems : List Json → Except Mismatch (α × List Json)}
    (hmembers : Again rereadMembers ofMembers) (hitems : SteadfastItems ofItems) :
    Steadfast (asRecord shape ofMembers ofItems) := by
  intro j a h
  cases j with
  | obj members => exact hmembers members a h
  | arr items =>
    unfold asRecord at h
    rw [reread]
    unfold asRecord
    cases hok : ofItems items with
    | error e =>
      simp only [hok] at h
      cases h
    | ok p =>
      obtain ⟨b, rest⟩ := p
      simp only [hok] at h
      simp only [hitems items b rest hok]
      -- nothing may be left behind the fields
      cases rest with
      | nil => exact h
      | cons _ _ => cases h
  | null | bool | num | str => cases h

end Parts

end Json

/-! ## Documents of modules -/

open Json

namespace FieldInfo

theorem again_checkMember (key : String) : Again reread (checkMember key) := by
  unfold checkMember
  split
  · exact again_fits steadfast_asText
  · exact again_fits steadfast_asText
  · exact fun _ _ h => h

theorem steadfast : Steadfast ofJson := by
  apply steadfast_asRecord
  · exact (again_checkMembers again_checkMember).bind fun _ =>
      (again_required "name" steadfast_asText).bind fun _ =>
      (again_required "type" steadfast_asText).bind fun _ => .pure _ _
  · exact (steadfast_nextRequired shape 0 steadfast_asText).bind fun _ =>
      (steadfast_nextRequired shape 1 steadfast_asText).bind fun _ => .pure _

end FieldInfo

namespace TypeDocument

theorem again_checkMember (key : String) : Again reread (checkMember key) := by
  unfold checkMember
  split
  · exact again_fits steadfast_asText
  · exact again_fits steadfast_asText
  · exact again_fits (steadfast_asOption steadfast_asText)
  · exact again_fits (steadfast_asList steadfast_asText)
  · exact again_fits (steadfast_asList FieldInfo.steadfast)
  · exact again_fits (steadfast_asOption steadfast_asText)
  · exact fun _ _ h => h

theorem steadfast : Steadfast ofJson := by
  apply steadfast_asRecord
  · exact (again_checkMembers again_checkMember).bind fun _ =>
      (again_required "name" steadfast_asText).bind fun _ =>
      (again_defaulted "package" "" steadfast_asText).bind fun _ =>
      (again_defaulted "base" none (steadfast_asOption steadfast_asText)).bind fun _ =>
      (again_defaulted "interfaces" [] (steadfast_asList steadfast_asText)).bind fun _ =>
      (again_defaulted "fields" [] (steadfast_asList FieldInfo.steadfast)).bind fun _ =>
      (again_defaulted "bytecode" none (steadfast_asOption steadfast_asText)).bind fun _ =>
      .pure _ _
  · exact (steadfast_nextRequired shape 0 steadfast_asText).bind fun _ =>
      (steadfast_nextDefaulted "" steadfast_asText).bind fun _ =>
      (steadfast_nextDefaulted none (steadfast_asOption steadfast_asText)).bind fun _ =>
      (steadfast_nextDefaulted [] (steadfast_asList steadfast_asText)).bind fun _ =>
      (steadfast_nextDefaulted [] (steadfast_asList FieldInfo.steadfast)).bind fun _ =>
      (steadfast_nextDefaulted none (steadfast_asOption steadfast_asText)).bind fun _ => .pure _

end TypeDocument

namespace ModuleDocument

theorem again_checkMember (key : String) : Again reread (checkMember key) := by
  unfold checkMember
  split
  · exact again_fits steadfast_asText
  · exact again_fits steadfast_asText
  · exact again_fits steadfast_asText
  · exact again_fits (steadfast_asList TypeDocument.steadfast)
  · exact fun _ _ h => h

theorem steadfast : Steadfast ofJson := by
  apply steadfast_asRecord
  · exact (again_checkMembers again_checkMember).bind fun _ =>
      (again_required "type" steadfast_asText).bind fun _ =>
      (again_required "name" steadfast_asText).bind fun _ =>
      (again_defaulted "version" "" steadfast_asText).bind fun _ =>
      (again_defaulted "types" [] (steadfast_asList TypeDocument.steadfast)).bind fun _ =>
      .pure _ _
  · exact (steadfast_nextRequired shape 0 steadfast_asText).bind fun _ =>
      (steadfast_nextRequired shape 1 steadfast_asText).bind fun _ =>
      (steadfast_nextDefaulted "" steadfast_asText).bind fun _ =>
      (steadfast_nextDefaulted [] (steadfast_asList TypeDocument.steadfast)).bind fun _ => .pure _

/-- A module document is read again from what its value comes back as. -/
theorem read_reread {j : Json} {d : ModuleDocument} (h : read j = .ok d) : read j.reread = .ok d := by
  unfold read at h ⊢
  cases hj : ofJson j with
  | error m =>
    rw [hj] at h
    cases h
  | ok d' =>
    rw [hj] at h
    rw [steadfast j d' hj]
    exact h

theorem read_rereadItems {js : List Json} : ∀ {ds : List ModuleDocument},
    js.map read = ds.map .ok → (rereadItems js).map read = js.map read := by
  induction js with
  | nil => exact fun _ => rfl
  | cons j js ih =>
    intro ds h
    cases ds with
    | nil => cases h
    | cons d ds =>
      obtain ⟨hfirst, hrest⟩ := List.cons_eq_cons.1 h
      rw [rereadItems, List.map_cons, List.map_cons, ih hrest, hfirst, read_reread hfirst]

end ModuleDocument

end AssemblyLinker
