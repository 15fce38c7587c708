/-! # Steps that may fail

    A chain of steps that yields something has all of its steps yield something.  Proofs take
    such chains apart by these lemmas, whatever the steps are: readers of documents, or
    operations on files.  What a look-up yields has been put there.
-/

namespace AssemblyLinker

variable {ε α β : Type} {x : Except ε α}

/-- A step and what is done with its value. -/
theorem exists_of_bind_ok {f : α → Except ε β} {b : β} (h : (x >>= f) = .ok b) :
    ∃ a, x = .ok a ∧ f a = .ok b := by
  cases x with
  | error e => cases h
  | ok a => exact ⟨a, rfl, h⟩

/-- A step that fails, or what is done with its value. -/
theorem error_of_bind {f : α → Except ε β} {e : ε} (h : (x >>= f) = .error e) :
    x = .error e ∨ ∃ a, x = .ok a ∧ f a = .error e := by
  cases x with
  | error e' =>
    cases h
    exact .inl rfl
  | ok a => exact .inr ⟨a, rfl, h⟩

theorem exists_of_map_ok {f : α → β} {b : β} (h : x.map f = .ok b) :
    ∃ a, x = .ok a ∧ f a = b := by
  cases x with
  | error e => cases h
  | ok a => exact ⟨a, rfl, Except.ok.inj h⟩

/-- What is found under a key stands with it among the pairs. -/
theorem mem_of_lookup [BEq α] [LawfulBEq α] {pairs : List (α × β)} {key : α} {value : β}
    (h : pairs.lookup key = some value) : (key, value) ∈ pairs := by
  obtain ⟨before, after, hpairs, -⟩ := List.lookup_eq_some_iff.1 h
  rw [hpairs]
  exact List.mem_append_right _ List.mem_cons_self

end AssemblyLinker
