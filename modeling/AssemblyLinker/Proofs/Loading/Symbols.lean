import AssemblyLinker.Proofs.Loading.Dependencies

/-! # Linked assemblies have all their symbols

    When an assembly is linked, every name in the bodies of its types resolves.  What it
    depends on has been linked by then and never changes, so the names go on to resolve
    whatever is loaded later: `registered_symbol_complete`.
-/

namespace AssemblyLinker

namespace Session

variable {s t : Session} {e : Event} {name : String} {h : Handle} {a : Assembly}

/-! ## What is located stays located -/

/-- A type that is located below a linked assembly stays located there, as long as all that is
    linked depends on linked assemblies only. -/
theorem KeepsLinked.locateWithin? (hkeep : s.KeepsLinked t)
    (hlinked : ∀ h d, s.LinksTo h d → s.Linked d) {depth : Nat} : ∀ {depth' : Nat} {h : Handle},
      depth ≤ depth' → s.Linked h → (s.store.locateWithin? name depth h).isSome = true →
      (t.store.locateWithin? name depth' h).isSome = true := by
  induction depth with
  | zero =>
    intro depth' h _ _ hlocated
    cases hlocated
  | succ depth ih =>
    rintro depth' h hle ⟨a, ha, hstate⟩ hlocated
    obtain ⟨depth', rfl⟩ : ∃ n, depth' = n + 1 := ⟨depth' - 1, by omega⟩
    unfold Store.locateWithin? at hlocated ⊢
    -- it is the same assembly, with the same dependencies
    rw [ha] at hlocated
    rw [hkeep.same h a ha hstate]
    simp only [Option.isSome_or, Bool.or_eq_true, List.findSome?_isSome_iff] at hlocated ⊢
    rcases hlocated with hlocal | ⟨d, hd, hbelow⟩
    · exact .inl hlocal
    · exact .inr ⟨d, hd, ih (by omega) (hlinked h d ⟨a, ha, hd⟩) hbelow⟩

/-- An assembly stays complete if it depends on linked assemblies only. -/
theorem KeepsLinked.symbolComplete (hkeep : s.KeepsLinked t)
    (hlinked : ∀ h d, s.LinksTo h d → s.Linked d) (ha : ∀ d ∈ a.dependencies, s.Linked d)
    (hcomplete : s.store.SymbolComplete a) : t.store.SymbolComplete a := by
  refine ⟨hcomplete.toWellFormed, fun m hm type htype body hbody name hname => ?_⟩
  rcases hcomplete.resolved m hm type htype body hbody name hname with hprimitive | hlocated
  · exact .inl hprimitive
  · right
    simp only [Store.locateType?, Option.isSome_or, Bool.or_eq_true, List.findSome?_isSome_iff]
      at hlocated ⊢
    rcases hlocated with hlocal | ⟨d, hd, hbelow⟩
    · exact .inl hlocal
    · exact .inr ⟨d, hd, hkeep.locateWithin? hlinked hkeep.length (ha d hd) hbelow⟩

/-! ## What is linked is complete -/

/-- A change that does not link the assembly adds no linked one. -/
theorem Changed.linked_before {g : Handle} {f : Assembly → Assembly} (ht : s.Changed g f t)
    (hlinking : s.isLinking g = true) (hf : ∀ a, (f a).state = a.state)
    (ha : t.store.get? h = some a) (hlinked : a.state = .linked) : s.store.get? h = some a := by
  by_cases hh : h = g
  · subst hh
    rw [ht.store, Store.get?_update_self] at ha
    obtain ⟨b, hb, rfl⟩ := Option.map_eq_some_iff.1 ha
    rw [hf b] at hlinked
    simp [isLinking, hb, hlinked] at hlinking
  · rwa [ht.get?_ne hh] at ha

/-- What is linked after an event has been linked before, or it is linked by the event and was
    complete. -/
theorem Permits.newly_linked (he : s.Permits e) (ha : (s.record e).store.get? h = some a)
    (hlinked : a.state = .linked) :
    s.store.get? h = some a ∨ ∃ b, s.store.get? h = some b ∧ s.store.SymbolComplete b ∧
      a = { b with state := .linked } := by
  cases he.alters with
  | nothing _ hstore =>
    rw [hstore] at ha
    exact .inl ha
  | creates b hlinking _ =>
    rcases Store.get?_concat ha with hold | rfl
    · exact .inl hold
    · -- a new assembly is still being linked
      rw [hlinking] at hlinked
      cases hlinked
  | changes _ g f hlinking hchanged hstate _ =>
    exact .inl (hchanged.linked_before hlinking hstate ha hlinked)
  | links g d hlinking _ =>
    exact .inl ((s.dependencyAdded_changed g d).linked_before hlinking (fun _ => rfl) ha hlinked)
  | completes g b _ hb hcomplete =>
    by_cases hh : h = g
    · subst hh
      rw [(s.completed_changed h).get? hb] at ha
      exact .inr ⟨b, hb, hcomplete, (Option.some.inj ha).symm⟩
    · rw [(s.completed_changed g).get?_ne hh] at ha
      exact .inl ha

/-- All dependencies are linked, and everything that is linked is complete. -/
structure Resolved (s : Session) : Prop where
  ordered : s.Ordered
  complete : ∀ h a, s.store.get? h = some a → a.state = .linked → s.store.SymbolComplete a

theorem Resolved.record (hs : s.Resolved) (he : s.Permits e) : (s.record e).Resolved := by
  refine ⟨hs.ordered.record he, fun h a ha hlinked => ?_⟩
  have hkeep : s.KeepsLinked (s.record e) := he.keepsLinked
  rcases he.newly_linked ha hlinked with hold | ⟨b, hb, hcomplete, rfl⟩
  · exact hkeep.symbolComplete hs.ordered.linked (fun d hd => hs.ordered.linked h d ⟨a, hold, hd⟩)
      (hs.complete h a hold hlinked)
  · have hkept : (s.record e).store.SymbolComplete b :=
      hkeep.symbolComplete hs.ordered.linked (fun d hd => hs.ordered.linked h d ⟨b, hb, hd⟩)
        hcomplete
    exact ⟨⟨hkept.modules, hkept.types, hkept.defined⟩, hkept.resolved⟩

/-- After any series of loads everything that is linked is complete. -/
theorem after_resolved (requests : List LoadRequest) : (after requests).Resolved := by
  have hlasting : Lasting fun s t => s.Resolved → t.Resolved :=
    lasting_of_invariant (fun s _ hs => ⟨⟨hs.ordered.linked, hs.ordered.acyclic⟩, hs.complete⟩)
      fun he hs => hs.record he
  have hmem : after requests ∈ passed (requests ++ []) := after_mem_passed requests []
  refine hlasting.from_empty hmem ⟨ordered_empty, fun h a ha => ?_⟩
  exact absurd (Store.lt_length_of_get? ha) (Nat.not_lt_zero h)

/-- What has been registered after some loads is registered after more of them, for the same
    assembly. -/
theorem after_registered (requests later : List LoadRequest) :
    (after requests).store <+: (after (requests ++ later)).store ∧
      (after requests).registry.entries <+: (after (requests ++ later)).registry.entries := by
  induction later using List.reverseRecOn with
  | nil =>
    rw [List.append_nil]
    exact ⟨List.prefix_refl _, List.prefix_refl _⟩
  | append_singleton later r ih =>
    rw [← List.append_assoc, after_append]
    have hadvances :=
      (LoadRequest.run_registers (r := r) (after_settled (requests ++ later)).1).1
    obtain ⟨added, hentries, -⟩ := hadvances.entries
    exact ⟨ih.1.trans hadvances.store, ih.2.trans (hentries ▸ List.prefix_append _ _)⟩

end Session

/-- After any series of loads:

    * every registered assembly has modules and types with different names, all types have
      their bodies, and every name in a body is that of a primitive type or is located in the
      assembly; after more loads it is still registered, it is the same assembly, and this is
      still so;
    * every handle that one of the loads has yielded is that of a registered assembly. -/
theorem registered_symbol_complete (requests later : List LoadRequest) :
    let s := Session.after requests
    let t := Session.after (requests ++ later)
    (∀ h ∈ s.registry.handles, h ∈ t.registry.handles ∧
      ∃ a, s.store.get? h = some a ∧ t.store.get? h = some a ∧
        s.store.SymbolComplete a ∧ t.store.SymbolComplete a) ∧
    ∀ earlier r rest h, requests = earlier ++ r :: rest →
      (r.run (Session.after earlier)).1 = .ok h → h ∈ s.registry.handles := by
  intro s t
  have hhandles : ∀ {requests later h}, h ∈ (Session.after requests).registry.handles →
      h ∈ (Session.after (requests ++ later)).registry.handles := by
    intro requests later h hh
    exact ((Session.after_registered requests later).2.map (·.handle)).subset hh
  refine ⟨fun h hh => ?_, fun earlier r rest h hsplit hok => ?_⟩
  · obtain ⟨e, he, rfl⟩ := Session.mem_handles.1 hh
    obtain ⟨a, ha, hcomplete, -⟩ := (Session.after_settled requests).2 e he
    have ha' : t.store.get? e.handle = some a :=
      Store.get?_of_prefix (Session.after_registered requests later).1 ha
    exact ⟨hhandles hh, a, ha, ha',
      (Session.after_resolved requests).complete _ a ha hcomplete.linked,
      (Session.after_resolved (requests ++ later)).complete _ a ha' hcomplete.linked⟩
  · have hanswers := (LoadRequest.run_registers (r := r) (Session.after_settled earlier).1).2
    have hresult : r.run (Session.after earlier) = (.ok h, Session.after (earlier ++ [r])) :=
      Prod.ext hok (Session.after_append earlier r).symm
    unfold Linker.Answers at hanswers
    rw [hresult] at hanswers
    have hs : s = Session.after (earlier ++ [r] ++ rest) := by
      rw [List.append_assoc, List.singleton_append, ← hsplit]
    rw [hs]
    exact hhandles hanswers.1.registered

end AssemblyLinker
