import AssemblyLinker.Proofs.Document
import AssemblyLinker.Proofs.Loading.Steps
import AssemblyLinker.Proofs.Text.Payload

/-! # The texts at hand

    A load comes upon finitely many texts: its own, those that the bootstrap, the bundle and
    the library files hold, and the payloads of documents among these, of documents among
    their payloads, and so on (`Linker.textsAtHand`).  A payload is shorter than the text
    that it is in, so this comes to an end.

    What a load does to a session keeps to these texts, and a uid that is registered by it
    is stated in one of them or has been drawn (`Linker.Run`).  If the stream hands out fresh
    uids (`Linker.FreshUids`), the next one is never registered (`Linker.Run.next_free`).
-/

namespace AssemblyLinker

/-! ## Where texts are found -/

namespace FileSystem

variable {fs : FileSystem} {path text : String}

/-- What is read from a path is one of the files. -/
theorem mem_texts_of_readText (h : fs.readText path = .ok text) : text ∈ fs.texts := by
  obtain ⟨bytes, hread, htext⟩ := exists_of_bind_ok h
  obtain ⟨location, -, hnode⟩ := exists_of_bind_ok hread
  have hdecode : Utf8.decode bytes = .ok text := by
    cases hbytes : Utf8.decode bytes with
    | ok s =>
      rw [hbytes] at htext
      cases htext
      rfl
    | error e =>
      rw [hbytes] at htext
      cases htext
  split at hnode
  next found hfound =>
    cases hnode
    unfold node? at hfound
    split at hfound
    · cases hfound
    · exact List.mem_filterMap.2 ⟨_, mem_of_lookup hfound, by simp [hdecode, Except.toOption]⟩
  next => cases hnode

end FileSystem

namespace LoadContext

/-- The texts that a context holds itself. -/
def texts (ctx : LoadContext) : List String :=
  (ctx.bootstrap.getD []).map (·.2) ++ ctx.bundled.map (·.2)

theorem mem_of_bootstrapDocument? {ctx : LoadContext} {name text : String}
    (h : ctx.bootstrapDocument? name = some text) : text ∈ ctx.texts := by
  obtain ⟨b, hb, hlookup⟩ := Option.bind_eq_some_iff.1 h
  apply List.mem_append_left
  rw [hb]
  exact List.mem_map_of_mem (mem_of_lookup hlookup)

/-- A payload brings its own text into the context, and no other one. -/
theorem mem_texts_bundle {ctx : LoadContext} {name p text : String}
    (h : text ∈ (ctx.bundle name p).texts) : text ∈ ctx.texts ∨ text = p := by
  rcases List.mem_append.1 h with h | h
  · exact .inl (List.mem_append_left _ h)
  · obtain ⟨pair, hpair, rfl⟩ := List.mem_map.1 h
    rcases List.mem_append.1 hpair with hpair | hpair
    · exact .inl (List.mem_append_right _ (List.mem_map_of_mem (List.mem_of_mem_filter hpair)))
    · exact .inr (congrArg Prod.snd (List.mem_singleton.1 hpair))

theorem mem_texts_clearBundle {ctx : LoadContext} {text : String}
    (h : text ∈ ctx.clearBundle.texts) : text ∈ ctx.texts := by
  apply List.mem_append_left
  simpa [clearBundle, texts] using h

theorem mem_of_findLibraryIn {files : FileSystem} {name path text : String} {dirs : List String}
    (h : findLibraryIn files name dirs = .ok (some (path, text))) : text ∈ files.texts := by
  induction dirs with
  | nil =>
    rw [findLibraryIn_nil] at h
    cases h
  | cons dir rest ih =>
    rw [findLibraryIn_cons] at h
    split at h
    next hread =>
      cases h
      exact FileSystem.mem_texts_of_readText hread
    next => exact ih h
    next => cases h

end LoadContext

/-- A text that is found is one that the context or a file holds. -/
theorem Linker.mem_of_locateText {L : Linker} {ctx : LoadContext} {assembly name text : String}
    {source : TextSource} (h : L.locateText ctx assembly name = .ok (source, text)) :
    text ∈ ctx.texts ∨ text ∈ L.files.texts := by
  unfold locateText at h
  split at h
  next hbootstrap =>
    cases h
    exact .inl (LoadContext.mem_of_bootstrapDocument? hbootstrap)
  next =>
    split at h
    next hbundled =>
      cases h
      exact .inl (List.mem_append_right _ (List.mem_map_of_mem (mem_of_lookup hbundled)))
    next =>
      split at h
      next hfound =>
        cases h
        exact .inr (LoadContext.mem_of_findLibraryIn hfound)
      next => cases h
      next => cases h

/-! ## Payloads of payloads -/

/-- The texts of the payloads in the document of a text. -/
def payloadTexts (text : String) : List String :=
  match Document.parse text "" with
  | .ok doc => doc.references.filterMap fun r => (payload doc.name r).toOption
  | .error _ => []

/-- A text, the payloads in it, the payloads in these and so on, up to some depth. -/
def embeddedTexts : Nat → String → List String
  | 0, text => [text]
  | depth + 1, text => text :: (payloadTexts text).flatMap (embeddedTexts depth)

theorem mem_payloadTexts {text origin p : String} {doc : Document} {r : Reference}
    (hparse : Document.parse text origin = .ok doc) (hr : r ∈ doc.references)
    (hpayload : payload doc.name r = .ok p) : p ∈ payloadTexts text := by
  unfold payloadTexts
  rw [Document.parse_origin hparse ""]
  exact List.mem_filterMap.2 ⟨r, hr, by rw [hpayload]; rfl⟩

/-- A payload is shorter than the text that it is in. -/
theorem length_lt_of_mem_payloadTexts {text p : String} (h : p ∈ payloadTexts text) :
    p.length < text.length := by
  unfold payloadTexts at h
  split at h
  next doc hparse =>
    obtain ⟨r, hr, hpayload⟩ := List.mem_filterMap.1 h
    have hpayload : payload doc.name r = .ok p := by
      cases hp : payload doc.name r with
      | error e =>
        rw [hp] at hpayload
        cases hpayload
      | ok p' =>
        rw [hp] at hpayload
        exact congrArg _ (Option.some.inj hpayload)
    unfold payload at hpayload
    cases hbinary : r.binary with
    | none =>
      rw [hbinary] at hpayload
      cases hpayload
    | some encoded =>
      rw [hbinary] at hpayload
      simp only at hpayload
      cases hdecode : decodePayload encoded with
      | error e =>
        rw [hdecode] at hpayload
        cases hpayload
      | ok p' =>
        rw [hdecode] at hpayload
        cases hpayload
        -- the written form is no shorter than the payload, and stands in the text with more
        -- around it
        have hle := decodePayload_length_le hdecode
        have hlt := Document.parse_payload hparse hr hbinary
        omega
  next => cases h

/-- A document without payloads ships nothing. -/
theorem payloadTexts_eq_nil {text origin : String} {doc : Document}
    (hparse : Document.parse text origin = .ok doc) (hnone : ∀ r ∈ doc.references, r.binary = none) :
    payloadTexts text = [] := by
  unfold payloadTexts
  rw [Document.parse_origin hparse ""]
  apply List.filterMap_eq_nil_iff.2
  intro r hr
  rw [payload, hnone r hr]
  rfl

theorem embeddedTexts_of_nil {text : String} (h : payloadTexts text = []) (depth : Nat) :
    embeddedTexts depth text = [text] := by
  cases depth with
  | zero => rfl
  | succ depth => rw [embeddedTexts, h, List.flatMap_nil]

theorem self_mem_embeddedTexts (depth : Nat) (text : String) : text ∈ embeddedTexts depth text := by
  cases depth <;> exact List.mem_cons_self

/-- As far as the length of the text, the payloads of all payloads are there. -/
theorem embeddedTexts_closed {depth : Nat} {text inner p : String} (hdepth : text.length ≤ depth)
    (hinner : inner ∈ embeddedTexts depth text) (hp : p ∈ payloadTexts inner) :
    p ∈ embeddedTexts depth text := by
  induction depth generalizing text with
  | zero =>
    obtain rfl := List.mem_singleton.1 hinner
    have hlt := length_lt_of_mem_payloadTexts hp
    omega
  | succ depth ih =>
    rw [embeddedTexts] at hinner ⊢
    apply List.mem_cons_of_mem
    rcases List.mem_cons.1 hinner with rfl | hinner
    · exact List.mem_flatMap.2 ⟨p, hp, self_mem_embeddedTexts depth p⟩
    · obtain ⟨q, hq, hinner⟩ := List.mem_flatMap.1 hinner
      have hlt := length_lt_of_mem_payloadTexts hq
      exact List.mem_flatMap.2 ⟨q, hq, ih (by omega) hinner⟩

/-! ## What a load comes upon -/

namespace Linker

/-- The texts that a load of a text may come upon. -/
def textsAtHand (L : Linker) (ctx : LoadContext) (root : String) : List String :=
  (root :: (ctx.texts ++ L.files.texts)).flatMap fun text => embeddedTexts text.length text

/-- A load that begins among these texts does not leave them. -/
structure Supplies (L : Linker) (texts : List String) : Prop where
  files : ∀ text ∈ L.files.texts, text ∈ texts
  payloads : ∀ text ∈ texts, ∀ p ∈ payloadTexts text, p ∈ texts

/-- The document of one of these texts states a uid. -/
def StatesUid (texts : List String) (uid : String) : Prop :=
  uid ≠ "" ∧ ∃ text ∈ texts, ∃ doc, Document.parse text "" = .ok doc ∧ doc.uid = uid

/-- The uids that are drawn from now on are new: they differ from each other, none of them
    is registered, and no text states one. -/
structure FreshUids (L : Linker) (texts : List String) (s : Session) : Prop where
  distinct : ∀ m n, s.uidsDrawn ≤ m → m < n → L.uids m ≠ L.uids n
  unregistered : ∀ n, s.uidsDrawn ≤ n → ∀ e ∈ s.registry.entries, e.uid ≠ L.uids n
  unstated : ∀ n, s.uidsDrawn ≤ n → ¬ StatesUid texts (L.uids n)

/-- A session that loads among these texts have led to. -/
structure Run (L : Linker) (texts : List String) (start t : Session) : Prop where
  context : ∀ text ∈ t.context.texts, text ∈ texts
  drawn : start.uidsDrawn ≤ t.uidsDrawn
  uids : ∀ e ∈ t.registry.entries, (∃ old ∈ start.registry.entries, old.uid = e.uid) ∨
    StatesUid texts e.uid ∨ ∃ n, start.uidsDrawn ≤ n ∧ n < t.uidsDrawn ∧ e.uid = L.uids n

variable {L : Linker} {texts : List String} {start s t u : Session}

theorem root_mem_textsAtHand (ctx : LoadContext) (root : String) :
    root ∈ L.textsAtHand ctx root :=
  List.mem_flatMap.2 ⟨root, List.mem_cons_self, self_mem_embeddedTexts _ _⟩

theorem context_mem_textsAtHand (ctx : LoadContext) (root : String) {text : String}
    (h : text ∈ ctx.texts) : text ∈ L.textsAtHand ctx root :=
  List.mem_flatMap.2 ⟨text, List.mem_cons_of_mem _ (List.mem_append_left _ h),
    self_mem_embeddedTexts _ _⟩

/-- Where no text ships another one, a load comes upon the texts that are there. -/
theorem textsAtHand_of_nil {ctx : LoadContext} {root : String}
    (hnone : ∀ text ∈ root :: (ctx.texts ++ L.files.texts), payloadTexts text = []) :
    L.textsAtHand ctx root = root :: (ctx.texts ++ L.files.texts) := by
  calc L.textsAtHand ctx root
    _ = (root :: (ctx.texts ++ L.files.texts)).flatMap fun text => [text] :=
      List.flatMap_congr fun text htext => embeddedTexts_of_nil (hnone text htext) text.length
    _ = root :: (ctx.texts ++ L.files.texts) := List.flatMap_singleton' _

/-- Whatever supplies a load may be taken with all payloads in it. -/
theorem supplies_embedded {L : Linker} {outer : List String}
    (hfiles : ∀ text ∈ L.files.texts, text ∈ outer) :
    L.Supplies (outer.flatMap fun text => embeddedTexts text.length text) := by
  constructor
  · intro text h
    exact List.mem_flatMap.2 ⟨text, hfiles text h, self_mem_embeddedTexts _ _⟩
  · intro text h p hp
    obtain ⟨outer, houter, h⟩ := List.mem_flatMap.1 h
    exact List.mem_flatMap.2 ⟨outer, houter, embeddedTexts_closed (Nat.le_refl _) h hp⟩

theorem supplies_textsAtHand (L : Linker) (ctx : LoadContext) (root : String) :
    L.Supplies (L.textsAtHand ctx root) :=
  supplies_embedded fun _ h => List.mem_cons_of_mem _ (List.mem_append_right _ h)

/-- A document is that of one of the texts. -/
def DocumentAmong (texts : List String) (doc : Document) : Prop :=
  ∃ text ∈ texts, Document.parse text "" = .ok doc

theorem documentAmong_root {ctx : LoadContext} {text origin : String} {doc : Document}
    (hparse : Document.parse text origin = .ok doc) : DocumentAmong (L.textsAtHand ctx text) doc :=
  ⟨text, root_mem_textsAtHand ctx text, Document.parse_origin hparse ""⟩

theorem DocumentAmong.statesUid {doc : Document} (h : DocumentAmong texts doc) (huid : doc.uid ≠ "") :
    StatesUid texts doc.uid := by
  obtain ⟨text, htext, hparse⟩ := h
  exact ⟨huid, text, htext, doc, hparse, rfl⟩

namespace FreshUids

/-- Uids that are new to some texts are new to fewer. -/
theorem subset {texts' : List String} (h : L.FreshUids texts s) (hle : texts' ⊆ texts) :
    L.FreshUids texts' s := by
  refine ⟨h.distinct, h.unregistered, ?_⟩
  rintro n hn ⟨huid, text, htext, hdoc⟩
  exact h.unstated n hn ⟨huid, text, hle htext, hdoc⟩

theorem of_le (h : L.FreshUids texts s) (hdrawn : s.uidsDrawn ≤ t.uidsDrawn)
    (hentries : ∀ e ∈ t.registry.entries, e ∈ s.registry.entries) : L.FreshUids texts t :=
  ⟨fun m n hm hlt => h.distinct m n (Nat.le_trans hdrawn hm) hlt,
    fun n hn e he => h.unregistered n (Nat.le_trans hdrawn hn) e (hentries e he),
    fun n hn => h.unstated n (Nat.le_trans hdrawn hn)⟩

/-- A uid that is drawn next is not found. -/
theorem find?_eq_none (h : L.FreshUids texts s) (name : String) :
    s.registry.find? name (L.uids s.uidsDrawn) = none := by
  rw [Registry.find?_eq_none]
  intro e he
  have hne : e.uid ≠ L.uids s.uidsDrawn := h.unregistered _ (Nat.le_refl _) e he
  simp [Entry.isFor, hne]

/-- They stay new when a document is opened whose uid is stated in the texts. -/
theorem opens {doc : Document} (h : L.FreshUids texts s) (hopens : L.Opens doc s t)
    (hstated : doc.uid ≠ "" → StatesUid texts doc.uid) : L.FreshUids texts t := by
  have hdrawn : t.uidsDrawn = (s.identify doc).uidsDrawn := by rw [hopens.session]; rfl
  have hle : s.uidsDrawn ≤ t.uidsDrawn := hdrawn ▸ Session.uidsDrawn_le_identify s doc
  refine ⟨fun m n hm hlt => h.distinct m n (Nat.le_trans hle hm) hlt, fun n hn e he => ?_,
    fun n hn => h.unstated n (Nat.le_trans hle hn)⟩
  rw [hopens.entries] at he
  rcases List.mem_append.1 he with he | he
  · exact h.unregistered n (Nat.le_trans hle hn) e he
  rw [List.mem_singleton.1 he]
  show L.uidFor doc s ≠ L.uids n
  unfold uidFor
  by_cases huid : doc.uid = ""
  · -- the uid of the new entry has been drawn before
    have hdrawn' : t.uidsDrawn = s.uidsDrawn + 1 := by
      rw [hdrawn, Session.identify, if_pos huid]
      rfl
    rw [if_pos huid]
    exact h.distinct _ n (Nat.le_refl _) (by omega)
  · rw [if_neg huid]
    intro heq
    exact h.unstated n (Nat.le_trans hle hn) (heq ▸ hstated huid)

end FreshUids

/-- No two numbered uids are the same. -/
theorem numbered_injective {m n : Nat} (h : Uid.numbered m = Uid.numbered n) : m = n := by
  -- zeros in front of its digits leave a number as it is
  have hvalue : ∀ k n, Nat.ofDigitChars 10 (List.replicate k '0' ++ Nat.toDigits 10 n) 0 = n := by
    intro k n
    induction k with
    | zero => exact Nat.ofDigitChars_ten_toDigits
    | succ k ih => exact ih
  unfold Uid.numbered at h
  have hlist := String.ofList_inj.1 h
  simp only [List.append_assoc, List.append_cancel_left_eq, List.cons_append, List.cons.injEq,
    true_and] at hlist
  rw [← hvalue (12 - (Nat.toDigits 10 m).length) m, hlist, hvalue]

theorem le_length_numbered (n : Nat) : 36 ≤ (Uid.numbered n).length := by
  simp only [Uid.numbered, String.length_ofList, List.length_append, List.length_replicate,
    List.length_cons, List.length_nil]
  omega

/-- Numbered uids are fresh where no text states a uid that is as long. -/
theorem freshUids_numbered {ctx : LoadContext}
    (hshort : ∀ text ∈ texts, ∀ doc, Document.parse text "" = .ok doc → doc.uid.length < 36) :
    ({} : Linker).FreshUids texts { context := ctx } := by
  have hnumbered : ∀ n, ({} : Linker).uids n = Uid.numbered (n + 1) := fun n => rfl
  refine ⟨?_, ?_, ?_⟩
  · intro m n _ hlt heq
    rw [hnumbered, hnumbered] at heq
    have hsame := numbered_injective heq
    omega
  · intro n _ e he
    cases he
  · rintro n - ⟨-, text, htext, doc, hparse, huid⟩
    have hlt := hshort text htext doc hparse
    have hle := le_length_numbered (n + 1)
    rw [huid, hnumbered] at hlt
    omega

namespace Run

/-- A session with no more texts, no more entries and no fewer draws. -/
theorem of_le (h : L.Run texts start t)
    (hcontext : ∀ text ∈ u.context.texts, text ∈ t.context.texts)
    (hdrawn : t.uidsDrawn ≤ u.uidsDrawn)
    (hentries : ∀ e ∈ u.registry.entries, e ∈ t.registry.entries) : L.Run texts start u := by
  refine ⟨fun text htext => h.context text (hcontext text htext),
    Nat.le_trans h.drawn hdrawn, fun e he => ?_⟩
  rcases h.uids e (hentries e he) with hold | hstated | ⟨n, hle, hlt, huid⟩
  · exact .inl hold
  · exact .inr (.inl hstated)
  · exact .inr (.inr ⟨n, hle, Nat.lt_of_lt_of_le hlt hdrawn, huid⟩)

/-- A session that differs in other respects. -/
theorem congr (h : L.Run texts start t) (hcontext : u.context = t.context)
    (hdrawn : u.uidsDrawn = t.uidsDrawn) (hregistry : u.registry = t.registry) :
    L.Run texts start u :=
  h.of_le (fun _ htext => hcontext ▸ htext) (Nat.le_of_eq hdrawn.symm)
    fun _ he => hregistry ▸ he

theorem identify (h : L.Run texts start s) (doc : Document) :
    L.Run texts start (s.identify doc) := by
  refine h.of_le (fun text htext => ?_) (Session.uidsDrawn_le_identify s doc) fun e he => ?_
  · rwa [Session.identify_context] at htext
  · rwa [Session.identify_registry] at he

/-- The next uid of a fresh stream is not registered. -/
theorem next_free (h : L.Run texts start t) (hfresh : L.FreshUids texts start) :
    ∀ e ∈ t.registry.entries, e.uid ≠ L.uids t.uidsDrawn := by
  intro e he
  rcases h.uids e he with ⟨old, hold, huid⟩ | hstated | ⟨n, hle, hlt, huid⟩
  · exact huid ▸ hfresh.unregistered _ h.drawn old hold
  · intro heq
    exact hfresh.unstated _ h.drawn (heq ▸ hstated)
  · exact huid ▸ hfresh.distinct n t.uidsDrawn hle hlt

end Run

theorem Opens.run {text origin : String} {doc : Document} (h : L.Opens doc s t)
    (hparse : Document.parse text origin = .ok doc) (htext : text ∈ texts)
    (hs : L.Run texts start s) : L.Run texts start t := by
  have hdrawn : t.uidsDrawn = (s.identify doc).uidsDrawn := by rw [h.session]; rfl
  have hle := Session.uidsDrawn_le_identify s doc
  have hidentified := hs.identify doc
  refine ⟨fun found hfound => ?_, by rw [hdrawn]; exact Nat.le_trans hs.drawn hle, fun e he => ?_⟩
  · rw [h.context] at hfound
    exact hs.context found hfound
  · rw [h.entries] at he
    rw [hdrawn]
    rcases List.mem_append.1 he with he | he
    · exact hidentified.uids e (by rwa [Session.identify_registry])
    · obtain rfl := List.mem_singleton.1 he
      show _ ∨ StatesUid texts (L.uidFor doc s) ∨ _
      unfold uidFor
      -- the uid of the new entry has just been drawn, or its document states it
      by_cases huid : doc.uid = ""
      · refine .inr (.inr ⟨s.uidsDrawn, hs.drawn, ?_, ?_⟩)
        · rw [Session.identify, if_pos huid]
          exact Nat.lt_succ_self _
        · exact if_pos huid
      · rw [if_neg huid]
        exact .inr (.inl ⟨huid, text, htext, doc, Document.parse_origin hparse "", rfl⟩)

/-- The texts that are found in a session of a run. -/
theorem Run.located (h : L.Run texts start t) (hsupplies : L.Supplies texts)
    {assembly name text : String} {source : TextSource}
    (hlocated : L.locateText t.context assembly name = .ok (source, text)) : text ∈ texts := by
  rcases mem_of_locateText hlocated with hmem | hmem
  · exact h.context text hmem
  · exact hsupplies.files text hmem

/-- When linking is over, a payload may be gone from the bundle and an entry from the
    registry. -/
theorem Run.leave (h : L.Run texts start t) (doc : Document) :
    L.Run texts start (t.leave doc) := by
  unfold Session.leave
  split
  · exact h.of_le (fun text htext => LoadContext.mem_texts_clearBundle htext) (Nat.le_refl _)
      fun e he => he
  · exact h

theorem Run.abandon (h : L.Run texts start t) (i : Handle) :
    L.Run texts start (t.record (.abandoned i)) := by
  cases ha : t.store.get? i with
  | none =>
    have hsame : t.record (.abandoned i) = { t with history := .abandoned i :: t.history } := by
      simp [Session.record, Session.apply, ha]
    rw [hsame]
    exact h.congr rfl rfl rfl
  | some a =>
    rw [Session.record_abandoned ha]
    refine h.of_le (fun text htext => htext) (Nat.le_refl _) fun e he => ?_
    exact (List.mem_filter.1 he).1

theorem Run.bundle (h : L.Run texts start t) {name p : String} (hp : p ∈ texts) :
    L.Run texts start (t.record (.payloadBundled name p)) := by
  refine ⟨fun text htext => ?_, h.drawn, h.uids⟩
  rcases LoadContext.mem_texts_bundle htext with htext | rfl
  · exact h.context text htext
  · exact hp

theorem Run.declare (h : L.Run texts start t) (i : Handle) (j : Json) :
    L.Run texts start (t.declare i j).2 := by
  unfold Session.declare
  split
  · exact h
  · split <;> exact h.congr rfl rfl rfl

theorem Run.define (h : L.Run texts start t) (i : Handle) (j : Json) :
    L.Run texts start (t.define i j).2 := by
  unfold Session.define
  split
  · exact h
  · exact h.congr rfl rfl rfl

/-- A load of one of the texts keeps to them, and so does each of its steps. -/
theorem runs (hsupplies : L.Supplies texts) (start : Session) : L.Contract
    (fun text s r => text ∈ texts → L.Run texts start s → L.Run texts start r.2)
    (fun text s doc _ t => text ∈ texts → L.Run texts start s → L.Run texts start t ∧
      ∀ r ∈ doc.references, ∀ p, payload doc.name r = .ok p → p ∈ texts)
    (fun text s _ t => text ∈ texts → L.Run texts start s → L.Run texts start t) where
  tooDeep _ s _ hs := hs
  failed _ s e _ hs := hs
  circular _ s doc _ hs := hs.identify doc
  known _ _ s doc h _ _ _ _ _ hs := hs.identify doc
  opens text origin s doc t hparse opens htext hs :=
    ⟨opens.run hparse htext hs, fun r hr p hp =>
      hsupplies.payloads text htext p (mem_payloadTexts hparse hr hp)⟩
  bundles text s doc t r p h _ hr hp htext hs := by
    obtain ⟨ht, hpayloads⟩ := h htext hs
    exact ⟨ht.bundle (hpayloads r hr p hp), hpayloads⟩
  joins text s doc done t r d h _ _ htext hs := by
    obtain ⟨ht, hpayloads⟩ := h htext hs
    exact ⟨ht.congr rfl rfl rfl, hpayloads⟩
  loads text s doc done t r source found d u h _ located loaded htext hs := by
    obtain ⟨ht, hpayloads⟩ := h htext hs
    have hu := loaded (ht.located hsupplies located) (ht.congr rfl rfl rfl)
    exact ⟨hu.congr rfl rfl rfl, hpayloads⟩
  declares text s doc t j h htext hs :=
    ⟨(h htext hs).1.declare s.nextHandle j, (h htext hs).2⟩
  defines text s doc t j h htext hs := ⟨(h htext hs).1.define s.nextHandle j, (h htext hs).2⟩
  breaks text s doc done t h htext hs := (h htext hs).1
  breaksAtReference text s doc done t name h htext hs := (h htext hs).1.congr rfl rfl rfl
  breaksInLoad text s doc done t r source found stop u h _ located loaded htext hs := by
    have ht := (h htext hs).1
    exact loaded (ht.located hsupplies located) (ht.congr rfl rfl rfl)
  completes text s doc t _ _ _ _ h _ htext hs := ((h htext hs).1.leave doc).congr rfl rfl rfl
  abandons text s doc t stop h htext hs := ((h htext hs).leave doc).abandon _

end Linker

end AssemblyLinker
