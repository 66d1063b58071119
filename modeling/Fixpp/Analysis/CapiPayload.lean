import Fixpp.Interface.BuiltMessage
import Fixpp.Analysis.BodyRoundTrip

/-!
# The payload of the C API

A write call that succeeds performs the edit it asks for (`performed_of_call`), except that
without a dictionary a setter of the message that finds a group with its tag writes its value
where no one reads it. Apart from that the payload is read back as the message the calls built.
-/

namespace Fixpp.Analysis.CapiPayload

open Foundation Model Interface Writer Rose OutboundMsg LengthPairTable

variable {c : CapiCall} {lengthTag builder : ℕ} {fields' entries : List EntryNode} {bytes : Bytes}
  {b : GroupBuilder} {hooks : PairHooks}

/-! ## The items of an accumulator -/

def itemLabel (a : EntryLabel) : ItemLabel := ⟨a.tag, if a.isGroup then none else some a.valueBytes⟩

def items (entries : List EntryNode) : List Item := map itemLabel entries

theorem builtFields_items (entries : List EntryNode) :
    builtFields (items entries) = treeFields entries := by
  unfold builtFields items treeFields
  rw [preorder_map]
  congr 1
  · funext a n
    unfold ItemLabel.field EntryLabel.field itemLabel
    cases a.isGroup <;> rfl
  funext a
  unfold itemLabel
  cases a.isGroup <;> rfl

def BodyTag (a : EntryLabel) : Prop := a.tag ≤ tagMax ∧ isFramingTag a.tag = false

structure Performs (change : List EntryNode → List EntryNode) (edit : Edit)
    (fields : List EntryNode) : Prop where
  items_eq : items (change fields) = edit.apply (items fields)
  tags : Rose.Everywhere BodyTag fields → Rose.Everywhere BodyTag (change fields)

def fieldFirst (tag : ℕ) (fields : List EntryNode) : Bool :=
  (fields.find? fun e => e.label.tag = tag).all fun e => !e.label.isGroup

variable {tag entry cap : ℕ} {instances : List (List EntryNode)} {dict : Option SessionDict}
    {fields : List EntryNode} {write : EntryLabel → EntryLabel} {value msgType out out' : Bytes}
    {dataTag : UInt16} {m m' : OutboundMsg}

theorem fieldFirst_cons {a : EntryLabel} {rest : List EntryNode} :
    fieldFirst tag (.node a instances :: rest) =
      if a.tag = tag then !a.isGroup else fieldFirst tag rest := by
  unfold fieldFirst
  by_cases htag : a.tag = tag <;> simp [htag]

theorem fieldFirst_of_no_collision (h : isGroupCollision dict fields tag = false) :
    fieldFirst tag fields = true := by
  unfold isGroupCollision at h
  rw [Bool.or_eq_false_iff] at h
  unfold fieldFirst
  cases hfind : fields.find? fun e => e.label.tag = tag with
  | none => rfl
  | some e =>
    have htag := List.find?_some hfind
    have hgroup := List.any_eq_false.mp h.2 e (List.mem_of_find?_eq_some hfind)
    simpa [of_decide_eq_true htag] using hgroup

/-! ## Setters -/

theorem ite_error_eq_ok {ε α : Type} {c : Prop} [Decidable c] {e : ε} {x : Except ε α} {a : α} :
    (if c then .error e else x) = .ok a ↔ ¬c ∧ x = .ok a := by
  split <;> simp [*]

theorem bind_eq_ok {ε α β : Type} {x : Except ε α} {f : α → Except ε β} {b : β}
    (h : (x >>= f) = .ok b) : ∃ a, x = .ok a ∧ f a = .ok b := by
  cases x with
  | error e => cases h
  | ok a => exact ⟨a, rfl, h⟩

theorem items_upsertEntry (hfirst : fieldFirst tag fields = true)
    (hwrite : ∀ a, a.tag = tag → a.isGroup = false → itemLabel (write a) = ⟨tag, some value⟩) :
    items (upsertEntry write tag fields) = setField tag value (items fields) := by
  unfold items
  induction fields with
  | nil =>
    rw [upsertEntry, map_cons, map_nil, hwrite _ rfl rfl]
    rfl
  | cons e rest ih =>
    obtain ⟨a, instances⟩ := e
    rw [fieldFirst_cons] at hfirst
    rw [upsertEntry, map_cons, setField]
    by_cases htag : a.tag = tag
    · rw [if_pos htag] at hfirst ⊢
      have hfield : a.isGroup = false := by simpa using hfirst
      have hsome : (itemLabel a).tag = tag ∧ (itemLabel a).value.isSome = true := by
        simp [itemLabel, htag, hfield]
      rw [if_pos hsome, map_cons, hwrite a htag hfield]
    · rw [if_neg htag] at hfirst ⊢
      have hother : ¬((itemLabel a).tag = tag ∧ (itemLabel a).value.isSome = true) :=
        fun h => htag h.1
      rw [if_neg hother, map_cons, ih hfirst]

theorem tags_upsertEntry (write : EntryLabel → EntryLabel) (htag : tag ≤ tagMax)
    (hframing : isFramingTag tag = false) (hwrite : ∀ a, (write a).tag = a.tag)
    (h : Rose.Everywhere BodyTag fields) :
    Rose.Everywhere BodyTag (upsertEntry write tag fields) := by
  induction fields with
  | nil =>
    refine everywhere_cons.mpr ⟨?_, fun _ hc => (nomatch hc), everywhere_nil _⟩
    unfold BodyTag
    rw [hwrite]
    exact ⟨htag, hframing⟩
  | cons e rest ih =>
    obtain ⟨a, instances⟩ := e
    obtain ⟨ha, hinst, hrest⟩ := everywhere_cons.mp h
    unfold upsertEntry
    split
    · refine everywhere_cons.mpr ⟨?_, hinst, hrest⟩
      unfold BodyTag
      rw [hwrite]
      exact ha
    · exact everywhere_cons.mpr ⟨ha, hinst, ih hrest⟩

theorem performs_upsertEntry (htag : tag ≤ tagMax) (hframing : isFramingTag tag = false)
    (hfirst : fieldFirst tag fields = true) (hkeeps : ∀ a, (write a).tag = a.tag)
    (hwrite : ∀ a, a.tag = tag → a.isGroup = false → itemLabel (write a) = ⟨tag, some value⟩) :
    Performs (upsertEntry write tag) (.set tag value) fields :=
  ⟨items_upsertEntry hfirst hwrite, tags_upsertEntry write htag hframing hkeeps⟩

theorem itemLabel_assignValue (a : EntryLabel) (htag : a.tag = tag) (hfield : a.isGroup = false) :
    itemLabel (assignValue value a) = ⟨tag, some value⟩ := by
  simp [itemLabel, assignValue, htag, hfield]

theorem itemLabel_assignScalar (a : EntryLabel) (htag : a.tag = tag) (_ : a.isGroup = false) :
    itemLabel (assignScalar value a) = ⟨tag, some value⟩ := by
  simp [itemLabel, assignScalar, htag]

theorem upsertEntry_eq (write : EntryLabel → EntryLabel) (tag : ℕ) (fields : List EntryNode) :
    upsertEntry write tag fields =
      if fields.findIdx (fun e => e.label.tag = tag) = fields.length then
        fields ++ [.node (write { tag := tag }) []]
      else fields.modify (fields.findIdx fun e => e.label.tag = tag) (writeLabel write) := by
  induction fields with
  | nil => rfl
  | cons e rest ih =>
    obtain ⟨a, instances⟩ := e
    rw [upsertEntry, List.findIdx_cons]
    by_cases htag : a.tag = tag
    · simp [htag, writeLabel]
    rw [if_neg htag, ih]
    split <;> simp [*]

theorem findIdx_modify (fields : List EntryNode) {f : EntryNode → EntryNode} {q : EntryNode → Bool}
    (h : ∀ e, q (f e) = q e) (i : ℕ) : (fields.modify i f).findIdx q = fields.findIdx q := by
  induction fields generalizing i with
  | nil => simp
  | cons e rest ih => cases i <;> simp [List.findIdx_cons, h, ih]

theorem fieldFirst_upsertEntry (write : EntryLabel → EntryLabel) {other : ℕ} (hne : other ≠ tag)
    (hkeeps : ∀ a, (write a).tag = a.tag) (h : fieldFirst other fields = true) :
    fieldFirst other (upsertEntry write tag fields) = true := by
  induction fields with
  | nil => rw [upsertEntry, fieldFirst_cons, hkeeps, if_neg fun h => hne h.symm, h]
  | cons e rest ih =>
    obtain ⟨a, instances⟩ := e
    rw [fieldFirst_cons] at h
    rw [upsertEntry]
    by_cases htag : a.tag = tag
    · rw [if_pos htag, fieldFirst_cons, hkeeps, htag, if_neg fun h => hne h.symm]
      rwa [htag, if_neg fun h => hne h.symm] at h
    rw [if_neg htag, fieldFirst_cons]
    split at h
    next hother => rw [if_pos hother, h]
    next hother => rw [if_neg hother, ih h]

theorem upsertPair_eq {dataTag : ℕ} (hne : lengthTag ≠ dataTag)
    (h : upsertPair lengthTag dataTag value fields = .ok fields') :
    fields' = upsertEntry (assignValue value) dataTag
      (upsertEntry (assignValue (renderU32 value.length)) lengthTag fields) := by
  simp only [upsertPair, ite_error_eq_ok] at h
  obtain ⟨hplace, h⟩ := h
  simp only [not_or, not_and, not_not] at hplace
  obtain ⟨hdata, hlength, -⟩ := hplace
  split at h
  next habsent =>
    rw [not_not] at habsent
    cases h
    rw [upsertEntry_eq _ lengthTag, if_pos habsent, upsertEntry_eq, if_pos, List.append_assoc]
    · rfl
    rw [List.findIdx_eq_length]
    have hnone := List.findIdx_eq_length.mp (hlength habsent)
    intro e he
    rcases List.mem_append.mp he with he | he
    · exact hnone e he
    rw [List.mem_singleton.mp he]
    exact decide_eq_false hne
  next hpresent =>
    cases h
    rw [not_not] at hpresent
    have hidx := findIdx_modify fields (q := fun e => decide (e.label.tag = dataTag))
      (f := writeLabel (assignValue (renderU32 value.length))) fun ⟨_, _⟩ => rfl
    rw [upsertEntry_eq _ lengthTag, if_neg hpresent, upsertEntry_eq, if_neg, hidx]
    rw [hidx, List.length_modify]
    exact hdata hpresent

theorem performs_pair {dataTag : ℕ} (value : Bytes)
    (hlength : lengthTag ≤ tagMax ∧ isFramingTag lengthTag = false)
    (hdata : dataTag ≤ tagMax ∧ isFramingTag dataTag = false) (hne : lengthTag ≠ dataTag)
    (hfirst : fieldFirst lengthTag fields = true) (hfirst' : fieldFirst dataTag fields = true) :
    Performs (fun fields => upsertEntry (assignValue value) dataTag
        (upsertEntry (assignValue (renderU32 value.length)) lengthTag fields))
      (.setPair lengthTag dataTag value) fields := by
  constructor
  · have hbehind := fieldFirst_upsertEntry (assignValue (renderU32 value.length)) hne.symm
      (fun _ => rfl) hfirst'
    rw [items_upsertEntry hbehind itemLabel_assignValue,
      items_upsertEntry hfirst itemLabel_assignValue]
    rfl
  · intro h
    refine tags_upsertEntry (assignValue value) hdata.1 hdata.2 (fun _ => rfl) ?_
    exact tags_upsertEntry (assignValue _) hlength.1 hlength.2 (fun _ => rfl) h

/-! ## The other changes -/

theorem performs_remove (tag : ℕ) (fields : List EntryNode) :
    Performs (fun fields => fields.eraseP fun e => e.label.tag = tag) (.remove tag) fields := by
  constructor
  · change map itemLabel _ = (map itemLabel fields).eraseP _
    rw [map_eq, map_eq, List.eraseP_map]
    congr 2
    funext e
    obtain ⟨a, instances⟩ := e
    rw [Function.comp_apply, mapNode_node]
    rfl
  · intro h
    rw [everywhere_iff] at h ⊢
    exact fun t ht => h t (List.mem_of_mem_eraseP ht)

theorem performs_beginGroup (htag : tag ≤ tagMax) (hframing : isFramingTag tag = false)
    (fields : List EntryNode) :
    Performs (fun fields => fields ++ [.node { tag := tag, isGroup := true } []])
      (.beginGroup tag) fields := by
  constructor
  · change map itemLabel _ = map itemLabel fields ++ _
    rw [map_append, map_cons, map_nil]
    rfl
  · intro h
    exact everywhere_snoc h ⟨htag, hframing⟩

theorem performs_addEntry (i : ℕ) (fields : List EntryNode) :
    Performs (fun fields => fields.modify i addInstance) (.addEntry i) fields := by
  constructor
  · change map itemLabel _ = (map itemLabel fields).modify i addItemEntry
    rw [map_eq, map_eq]
    refine map_modify fun t _ => ?_
    obtain ⟨a, instances⟩ := t
    change mapNode itemLabel (.node a (instances ++ [[]])) = _
    rw [mapNode_node, mapNode_node, List.map_append]
    rfl
  · exact fun h => everywhere_addInstance h i

/-! ## Calls -/

/-- What a call has done that asked for this edit. -/
inductive Performed (m m' : OutboundMsg) : Option (List (ℕ × ℕ) × Edit) → Prop
  | edit {path : List (ℕ × ℕ)} {edit : Edit} {change : List EntryNode → List EntryNode}
      (hmsgType : m'.msgType = m.msgType) (hentries : m'.entries = updateAt path change m.entries)
      (h : ∀ fields, containerAt path m.entries = some fields → Performs change edit fields) :
      Performed m m' (some (path, edit))
  | nothing (hmsgType : m'.msgType = m.msgType) (hentries : m'.entries = m.entries) :
      Performed m m' none

/-- A call is not one that a session without a dictionary lets through to a group: a setter
with a check of the dictionary, on a tag that a group of the message has first. -/
def keepsApart (dict : Option SessionDict) (m : OutboundMsg) : CapiCall → Bool
  | .setString tag _ | .setInt tag _ | .setDouble tag _ | .setDecimal tag _ =>
    dict.isSome || fieldFirst tag.toNat m.entries
  | _ => true

theorem checkDict_ok {flavour : SetterFlavour}
    (hapart : (dict.isSome || fieldFirst tag m.entries) = true)
    (h : m.checkDict dict tag flavour = .ok ()) :
    isFramingTag tag = false ∧ fieldFirst tag m.entries = true := by
  obtain ⟨hframing, h⟩ := ite_error_eq_ok.mp h
  refine ⟨Bool.eq_false_iff.mpr hframing, ?_⟩
  cases dict with
  | none => exact hapart
  | some d =>
    dsimp only at h
    split at h
    · cases h
    · exact fieldFirst_of_no_collision (Bool.eq_false_iff.mpr (ite_error_eq_ok.mp h).1)

theorem performed_assign (tag : UInt16) (value : Bytes)
    (h : isFramingTag tag.toNat = false ∧ fieldFirst tag.toNat m.entries = true) :
    Performed m (m.assign tag.toNat value) (some ([], .set tag.toNat value)) := by
  have hentries : (m.assign tag.toNat value).entries =
      updateAt [] (upsertEntry (assignValue value) tag.toNat) m.entries := rfl
  refine .edit rfl hentries fun fields hfields => ?_
  cases hfields
  exact performs_upsertEntry (toNat_le_tagMax tag) h.1 h.2 (fun _ => rfl) itemLabel_assignValue

theorem performed_entrySetBytes {tag : UInt16}
    (h : m.entrySetBytes dict entry tag.toNat value = .ok m') :
    Performed m m' ((m.entryPath entry).map fun path => (path, .set tag.toNat value)) := by
  unfold entrySetBytes at h
  split at h
  · cases h
  rename_i path hpath
  rw [hpath]
  obtain ⟨hframing, h⟩ := ite_error_eq_ok.mp h
  split at h
  · cases h
  rename_i fields hfields
  obtain ⟨hcollision, ⟨⟩⟩ := ite_error_eq_ok.mp h
  refine .edit rfl rfl fun fields' hfields' => ?_
  cases hfields.symm.trans hfields'
  exact performs_upsertEntry (toNat_le_tagMax tag) (Bool.eq_false_iff.mpr hframing)
    (fieldFirst_of_no_collision (Bool.eq_false_iff.mpr hcollision)) (fun _ => rfl)
    itemLabel_assignScalar

/-! ## Pairs of the session -/

def NoTagOnBothSides (hooks : PairHooks) : Prop :=
  ∀ tag, hooks.dataTagForLength tag = 0 ∨ hooks.lengthTagForData tag = 0

theorem pairHooks_eq (dict : Option SessionDict) : ∃ pairs : List (UInt16 × UInt16),
    pairHooks dict = PairHooks.forTableView
      (setAll {} (pairs.map fun p => (p.1.toNat, p.2.toNat))) := by
  cases dict with
  | none => exact ⟨[], rfl⟩
  | some d => exact ⟨d.pairs, rfl⟩

theorem consistent_pairHooks (dict : Option SessionDict) : (pairHooks dict).Consistent := by
  obtain ⟨pairs, heq⟩ := pairHooks_eq dict
  rw [heq]
  exact PairHooks.consistent_forTableView (inverse_setAll _)

theorem lengthTag_ne (hsides : NoTagOnBothSides (pairHooks dict)) {dataTag : ℕ}
    (h : (pairHooks dict).lengthTagForData dataTag ≠ 0) :
    (pairHooks dict).lengthTagForData dataTag ≠ dataTag := by
  intro heq
  have hcounts : (pairHooks dict).dataTagForLength ((pairHooks dict).lengthTagForData dataTag) ≠
      0 := by
    obtain ⟨pairs, hpairs⟩ := pairHooks_eq dict
    rw [hpairs] at h ⊢
    exact PairHooks.dataTag_of_lengthTag (inverse_setAll _) h
  rw [heq] at hcounts
  exact (hsides dataTag).elim hcounts h

theorem dataPairLengthTag_le {pairs : List (UInt16 × UInt16)} (tag : ℕ) :
    (setAll {} (pairs.map fun p => (p.1.toNat, p.2.toNat))).dataPairLengthTag tag ≤
      tagMax := by
  have hall : ∀ t : LengthPairTable, (∀ d, t.dataPairLengthTag d ≤ tagMax) → ∀ d,
      (t.setAll (pairs.map fun p => (p.1.toNat, p.2.toNat))).dataPairLengthTag d ≤ tagMax := by
    induction pairs with
    | nil => exact fun t ht => ht
    | cons p pairs ih =>
      intro t ht
      refine ih _ fun d => ?_
      have hp := toNat_le_tagMax p.1
      have hd := ht d
      unfold setLengthPairDataTag
      dsimp only
      split
      · exact hd
      split <;> grind [setEntry]
  exact hall {} (fun _ => Nat.zero_le _) tag

theorem lengthTag_le_tagMax (dict : Option SessionDict) (tag : ℕ) :
    (pairHooks dict).lengthTagForData tag ≤ tagMax := by
  obtain ⟨pairs, heq⟩ := pairHooks_eq dict
  rw [heq, (PairHooks.lookups_forTableView _).2]
  unfold pairLookup
  split
  · exact standardLengthTag_le tag
  split
  · exact Nat.zero_le _
  rename_i lookup hlookup
  split
  · split at hlookup
    · cases hlookup
      exact dataPairLengthTag_le tag
    · cases hlookup
  · exact Nat.zero_le _

theorem performs_of_upsertPair (hsides : NoTagOnBothSides (pairHooks dict))
    (hlength : (pairHooks dict).lengthTagForData dataTag.toNat ≠ 0)
    (hframing : isFramingTag dataTag.toNat = false)
    (hframing' : isFramingTag ((pairHooks dict).lengthTagForData dataTag.toNat) = false)
    (hcollision : ¬(isGroupCollision dict fields ((pairHooks dict).lengthTagForData dataTag.toNat) =
      true ∨ isGroupCollision dict fields dataTag.toNat = true))
    (h : upsertPair ((pairHooks dict).lengthTagForData dataTag.toNat) dataTag.toNat value fields =
      .ok fields') :
    Performs (fun _ => fields')
      (.setPair ((pairHooks dict).lengthTagForData dataTag.toNat) dataTag.toNat value) fields := by
  rw [not_or, Bool.not_eq_true, Bool.not_eq_true] at hcollision
  have hne := lengthTag_ne hsides hlength
  obtain ⟨hitems, htags⟩ := performs_pair value ⟨lengthTag_le_tagMax dict _, hframing'⟩
    ⟨toNat_le_tagMax dataTag, hframing⟩ hne (fieldFirst_of_no_collision hcollision.1)
    (fieldFirst_of_no_collision hcollision.2)
  rw [upsertPair_eq hne h]
  exact ⟨hitems, htags⟩

theorem map_eq_ok {ε α β : Type} {x : Except ε α} {f : α → β} {b : β} (h : x.map f = .ok b) :
    ∃ a, x = .ok a ∧ b = f a := by
  cases x with
  | error e => cases h
  | ok a =>
    cases h
    exact ⟨a, rfl, rfl⟩

theorem performed_setData (hsides : NoTagOnBothSides (pairHooks dict))
    (h : m.setData dict dataTag.toNat bytes = .ok m') :
    Performed m m' (some ([], .setPair ((pairHooks dict).lengthTagForData dataTag.toNat)
      dataTag.toNat bytes)) := by
  simp only [setData, ite_error_eq_ok] at h
  obtain ⟨hframing, hlength, hframing', -, hcollision, -, h⟩ := h
  obtain ⟨fields, hpair, rfl⟩ := map_eq_ok h
  have hentries : fields = updateAt [] (fun _ => fields) m.entries := rfl
  refine .edit rfl hentries fun fields' hfields' => ?_
  cases hfields'
  exact performs_of_upsertPair hsides hlength (Bool.eq_false_iff.mpr hframing)
    (Bool.eq_false_iff.mpr hframing') hcollision hpair

theorem precheckEntryTag_ok (h : m.precheckEntryTag entry tag = .ok ()) :
    isFramingTag tag = false := by
  unfold precheckEntryTag at h
  split at h
  · cases h
  · exact Bool.eq_false_iff.mpr (ite_error_eq_ok.mp h).1

theorem checkBuilder_eq (h : m.checkBuilder builder = some b) : m.builders[builder]? = some b := by
  unfold checkBuilder at h
  split at h
  · exact h
  · cases h

theorem containerAt_entryPath {path : List (ℕ × ℕ)} {e : CapiEntry} {group : EntryNode}
    (hpath : m.entryPath entry = some path) (he : m.entryHandles[entry]? = some e)
    (hgroup : ((m.builders[e.builder]?).bind fun b => (m.resolveGroup b).map fun g => (b, g)) =
      some (b, group)) : containerAt path m.entries = group.containers[e.instanceIndex]? := by
  obtain ⟨e', he', hpath⟩ := Option.bind_eq_some_iff.mp hpath
  cases he.symm.trans he'
  obtain ⟨b', hb', hpath⟩ := Option.bind_eq_some_iff.mp hpath
  cases hpath
  obtain ⟨b'', hb'', hgroup⟩ := Option.bind_eq_some_iff.mp hgroup
  cases (checkBuilder_eq hb').symm.trans hb''
  obtain ⟨g, hg, heq⟩ := Option.map_eq_some_iff.mp hgroup
  cases heq
  obtain ⟨fields, hfields, hg⟩ := Option.bind_eq_some_iff.mp hg
  rw [containerAt_append, hfields]
  simp [containerAt, hg]

theorem performed_entrySetData (hsides : NoTagOnBothSides (pairHooks dict))
    (h : m.entrySetData dict entry dataTag.toNat bytes = .ok m') :
    Performed m m' ((m.entryPath entry).map fun path =>
      (path, .setPair ((pairHooks dict).lengthTagForData dataTag.toNat) dataTag.toNat bytes)) := by
  obtain ⟨⟨⟩, hprecheck, h⟩ := bind_eq_ok h
  have hframing := precheckEntryTag_ok hprecheck
  simp only [ite_error_eq_ok] at h
  obtain ⟨hlength, hframing', -, h⟩ := h
  split at h
  next path e hpath he =>
    split at h
    · cases h
    rename_i b group hgroup
    obtain ⟨-, h⟩ := ite_error_eq_ok.mp h
    split at h
    · cases h
    rename_i fields hfields
    obtain ⟨hcollision, h⟩ := ite_error_eq_ok.mp h
    obtain ⟨fields', hpair, rfl⟩ := map_eq_ok h
    rw [hpath]
    refine .edit rfl rfl fun fields'' hat => ?_
    rw [containerAt_entryPath hpath he hgroup, hfields] at hat
    cases hat
    exact performs_of_upsertPair hsides hlength hframing
      (Bool.eq_false_iff.mpr hframing') hcollision hpair
  · cases h

theorem performed_entryGroupBegin {groupTag : UInt16}
    (h : m.entryGroupBegin dict entry groupTag.toNat = .ok m') :
    Performed m m' ((m.entryPath entry).map fun path => (path, .beginGroup groupTag.toNat)) := by
  unfold entryGroupBegin at h
  split at h
  · cases h
  rename_i path hpath
  rw [hpath]
  simp only [ite_error_eq_ok] at h
  obtain ⟨hframing, -, h⟩ := h
  split at h
  · cases h
  cases h
  exact .edit rfl rfl fun fields _ =>
    performs_beginGroup (toNat_le_tagMax groupTag) (Bool.eq_false_iff.mpr hframing) fields

theorem performed_addEntry (h : m.addEntry builder = .ok m') :
    Performed m m' ((m.builders[builder]?).map fun b => (b.outer, .addEntry b.groupFieldIndex)) := by
  unfold addEntry at h
  split at h
  · cases h
  rename_i b hb
  rw [checkBuilder_eq hb]
  split at h
  · cases h
  cases h
  exact .edit rfl rfl fun fields _ => performs_addEntry b.groupFieldIndex fields

theorem performed_of_call (hsides : NoTagOnBothSides (pairHooks dict))
    (hapart : keepsApart dict m c = true) (h : m.call dict c = .ok m') :
    Performed m m' (requestedEdit dict m c) := by
  cases c with
  | setString tag value =>
    obtain ⟨⟨⟩, hcheck, h⟩ := bind_eq_ok h
    obtain ⟨-, ⟨⟩⟩ := ite_error_eq_ok.mp h
    exact performed_assign tag value (checkDict_ok hapart hcheck)
  | setBytes tag bytes =>
    change m.setBytes dict tag.toNat bytes = .ok m' at h
    simp only [setBytes, ite_error_eq_ok] at h
    obtain ⟨hframing, hcollision, ⟨⟩⟩ := h
    exact performed_assign tag bytes ⟨Bool.eq_false_iff.mpr hframing,
      fieldFirst_of_no_collision (Bool.eq_false_iff.mpr hcollision)⟩
  | setData dataTag bytes => exact performed_setData hsides h
  | setInt tag value =>
    obtain ⟨⟨⟩, hcheck, h⟩ := bind_eq_ok h
    cases h
    exact performed_assign tag (renderInt value) (checkDict_ok hapart hcheck)
  | setDouble tag text =>
    obtain ⟨⟨⟩, hcheck, h⟩ := bind_eq_ok h
    cases text with
    | none => cases h
    | some text =>
      cases h
      exact performed_assign tag text (checkDict_ok hapart hcheck)
  | setDecimal tag value =>
    obtain ⟨⟨⟩, hcheck, h⟩ := bind_eq_ok h
    dsimp [requestedEdit]
    cases htext : value.toChars with
    | none =>
      rw [htext] at h
      cases h
    | some text =>
      rw [htext] at h
      cases h
      exact performed_assign tag text (checkDict_ok hapart hcheck)
  | removeTag tag =>
    obtain ⟨-, ⟨⟩⟩ := ite_error_eq_ok.mp h
    have hentries : m.entries.eraseP (fun e => e.label.tag = tag.toNat) =
      updateAt [] (fun fields => fields.eraseP fun e => e.label.tag = tag.toNat) m.entries :=
      rfl
    exact .edit rfl hentries fun fields _ => performs_remove tag.toNat fields
  | groupBegin groupTag =>
    change m.groupBegin dict groupTag.toNat = .ok m' at h
    simp only [groupBegin, ite_error_eq_ok] at h
    obtain ⟨hframing, -, ⟨⟩⟩ := h
    exact .edit rfl rfl fun fields _ =>
      performs_beginGroup (toNat_le_tagMax groupTag) (Bool.eq_false_iff.mpr hframing) fields
  | addEntry builder => exact performed_addEntry h
  | entrySetString entry tag value =>
    obtain ⟨⟨⟩, -, h⟩ := bind_eq_ok h
    exact performed_entrySetBytes (ite_error_eq_ok.mp h).2
  | entrySetData entry dataTag bytes => exact performed_entrySetData hsides h
  | entrySetInt entry tag value => exact performed_entrySetBytes h
  | entrySetDouble entry tag text =>
    obtain ⟨⟨⟩, -, h⟩ := bind_eq_ok h
    cases text with
    | none => cases h
    | some text => exact performed_entrySetBytes h
  | entrySetDecimal entry tag value =>
    obtain ⟨⟨⟩, -, h⟩ := bind_eq_ok h
    dsimp [requestedEdit]
    cases htext : value.toChars with
    | none =>
      rw [htext] at h
      cases h
    | some text =>
      rw [htext] at h
      exact performed_entrySetBytes h
  | entryGroupBegin entry groupTag => exact performed_entryGroupBegin h
  | groupEnd builder =>
    change m.groupEnd builder = .ok m' at h
    unfold groupEnd at h
    split at h
    · cases h
    obtain ⟨-, ⟨⟩⟩ := ite_error_eq_ok.mp h
    exact .nothing rfl rfl

/-! ## Sequences of calls -/

def allKeepApart (dict : Option SessionDict) : OutboundMsg → List CapiCall → Bool
  | _, [] => true
  | m, c :: calls => keepsApart dict m c && allKeepApart dict (m.step dict c) calls

/-- The accumulator is the message built so far, with tags of a body. -/
structure Accumulates (msgType : Bytes) (m : OutboundMsg) (built : List Item) : Prop where
  msgType_eq : m.msgType = msgType
  items_eq : items m.entries = built
  tags : Rose.Everywhere BodyTag m.entries

theorem Accumulates.performed {built : List Item} (h : Accumulates msgType m built)
    {request : Option (List (ℕ × ℕ) × Edit)} (hdone : Performed m m' request) :
    Accumulates msgType m' (applyRequest request built) := by
  obtain ⟨hmsgType, hitems, htags⟩ := h
  cases hdone with
  | nothing hkeeps hentries => exact ⟨hkeeps.trans hmsgType, hentries ▸ hitems, hentries ▸ htags⟩
  | edit hkeeps hentries hedit =>
    refine ⟨hkeeps.trans hmsgType, ?_, ?_⟩
    · rw [hentries, ← hitems]
      exact map_updateAt itemLabel fun fields hfields => (hedit fields hfields).items_eq
    rw [hentries]
    exact htags.updateAt fun fields hfields =>
      (hedit fields hfields).tags (htags.containerAt hfields)

theorem Accumulates.step (hsides : NoTagOnBothSides (pairHooks dict)) {built : List Item}
    (h : Accumulates msgType m built) (hapart : keepsApart dict m c = true) :
    Accumulates msgType (m.step dict c) (editedBy dict m c built) := by
  unfold OutboundMsg.step editedBy
  cases hcall : m.call dict c with
  | error e => exact h
  | ok m' => exact h.performed (performed_of_call hsides hapart hcall)

theorem Accumulates.run (hsides : NoTagOnBothSides (pairHooks dict)) {items : List Item}
    (h : Accumulates msgType m items) {calls : List CapiCall}
    (hapart : allKeepApart dict m calls = true) :
    Accumulates msgType (m.run dict calls) (built dict m items calls) := by
  induction calls generalizing m items with
  | nil => exact h
  | cons c calls ih =>
    rw [allKeepApart, Bool.and_eq_true] at hapart
    exact ih (h.step hsides hapart.1) hapart.2

/-! ## Commit -/

theorem checkLengthData_of_mem (h : checkLengthDataInstances hooks instances = true) :
    ∀ inst ∈ instances, checkLengthData hooks {} inst = true := by
  induction instances with
  | nil => exact fun _ hinst => (nomatch hinst)
  | cons inst rest ih =>
    rw [checkLengthDataInstances, Bool.and_eq_true] at h
    exact List.forall_mem_cons.mpr ⟨h.1, ih h.2⟩

theorem checked_of_checkLengthData {c : LengthDataChecker}
    (h : checkLengthData hooks c entries = true) :
    c.passes hooks entries = true ∧ (∀ e ∈ entries, e.label.CleanFor hooks) ∧
      ∀ e ∈ entries, e.label.isGroup = true → ∀ inst ∈ e.containers, Checked hooks inst := by
  induction entries using forest_induction generalizing c with
  | nil => exact ⟨h, fun _ he => (nomatch he), fun _ he => (nomatch he)⟩
  | cons a instances rest ihinst ihrest =>
    rw [checkLengthData] at h
    simp only [Bool.and_eq_true, Bool.or_eq_true, label_node] at h
    obtain ⟨⟨⟨hvalue, hobserve⟩, hnode⟩, hrest⟩ := h
    obtain ⟨hpass, hclean, hinstances⟩ := ihrest hrest
    refine ⟨?_, List.forall_mem_cons.mpr ⟨?_, hclean⟩,
      List.forall_mem_cons.mpr ⟨fun hgroup => ?_, hinstances⟩⟩
    · rw [LengthDataChecker.passes, label_node, hobserve, hpass, Bool.true_and]
    · intro hscalar hdata b hb heq
      rw [label_node] at hscalar hdata hb
      subst heq
      rcases hvalue with hgroup | hvalue
      · exact absurd (hscalar.symm.trans hgroup) (by decide)
      · simp [sohOutsideData, hdata, hb] at hvalue
    rw [checkLengthDataNode] at hnode
    rw [label_node] at hgroup
    rw [hgroup, Bool.not_true, Bool.false_or] at hnode
    intro inst hinst
    obtain ⟨hpass, hclean, hnested⟩ := ihinst inst hinst (checkLengthData_of_mem hnode inst hinst)
    exact .mk hpass hclean hnested

theorem appendPayloadField_eq (h : appendPayloadField cap tag value out = some out') :
    out' = out ++ fieldBytes (tag, value) := by
  unfold appendPayloadField at h
  dsimp only at h
  split at h
  · cases h
  cases h
  simp [fieldBytes]

theorem serialiseInstances_eq (hinstances : ∀ inst ∈ instances, ∀ {out out' : Bytes},
      serialiseEntries cap inst out = some out' →
      out' = out ++ (treeFields inst).flatMap fieldBytes)
    (h : serialiseInstances cap instances out = some out') :
    out' = out ++ (instances.flatMap treeFields).flatMap fieldBytes := by
  induction instances generalizing out with
  | nil =>
    cases h
    exact (List.append_nil _).symm
  | cons inst rest ih =>
    obtain ⟨behind, hinst, hrest⟩ := Option.bind_eq_some_iff.mp h
    rw [List.forall_mem_cons] at hinstances
    rw [ih hinstances.2 hrest, hinstances.1 hinst, List.flatMap_cons, List.flatMap_append,
      List.append_assoc]

theorem serialiseEntries_eq (h : serialiseEntries cap entries out = some out') :
    out' = out ++ (treeFields entries).flatMap fieldBytes := by
  induction entries using forest_induction generalizing out out' with
  | nil =>
    cases h
    exact (List.append_nil _).symm
  | cons a instances rest ihinst ihrest =>
    obtain ⟨behind, hnode, hrest⟩ := Option.bind_eq_some_iff.mp h
    rw [ihrest hrest, treeFields_cons, List.flatMap_cons, List.flatMap_append]
    unfold EntryLabel.field
    rw [serialiseNode] at hnode
    split at hnode
    next hgroup =>
      obtain ⟨count, hcount, hnode⟩ := Option.bind_eq_some_iff.mp hnode
      rw [serialiseInstances_eq ihinst hnode, appendPayloadField_eq hcount, if_pos hgroup,
        if_pos hgroup]
      simp
    next hscalar =>
      rw [appendPayloadField_eq hnode, if_neg hscalar, if_neg hscalar]
      simp

theorem commit_ok {payload : Bytes} (h : m.commit dict = .ok payload) :
    Paired (pairHooks dict) (treeFields m.entries) ∧
      payload = ((35, m.msgType) :: treeFields m.entries).flatMap fieldBytes := by
  simp only [commit, ite_error_eq_ok] at h
  obtain ⟨-, -, hcheck, -, h⟩ := h
  split at h
  · cases h
  rename_i payload' hpayload
  cases h
  obtain ⟨hpass, hclean, hinstances⟩ := checked_of_checkLengthData (Bool.not_eq_false _ ▸ hcheck)
  refine ⟨(Checked.mk hpass hclean hinstances).paired, ?_⟩
  rw [serialiseEntries_eq hpayload, List.flatMap_cons,
    fieldBytes_eq (show renderU32 35 ++ [equalsSign] = ascii "35=" by decide)]

theorem createOutbound_ok (h : createOutbound dict msgType = .ok m) :
    Accumulates msgType m [] ∧ ∀ b ∈ msgType, b ≠ soh := by
  simp only [createOutbound, ite_error_eq_ok] at h
  obtain ⟨-, hmsgType, ⟨⟩⟩ := h
  rw [not_or] at hmsgType
  exact ⟨⟨rfl, rfl, everywhere_nil _⟩, fun b hb heq => hmsgType.2 (heq ▸ hb)⟩

/-- In a session in which no tag is both a Length and a Data tag, and with no value written to a
group, what `commit` returns is split into the MsgType and the fields of the message that the
successful calls built, none of them with a framing tag. -/
theorem payload_is_what_was_set (dict : Option SessionDict) (msgType : Bytes) (m : OutboundMsg)
    (calls : List CapiCall) (payload : Bytes) (hsides : NoTagOnBothSides (pairHooks dict))
    (hcreate : createOutbound dict msgType = .ok m) (hapart : allKeepApart dict m calls = true)
    (hcommit : (m.run dict calls).commit dict = .ok payload) :
    splitFields (pairHooks dict).dataTagForLength payload =
        (35, msgType) :: builtFields (built dict m [] calls) ∧
      (headerCut (pairHooks dict).dataTagForLength payload).malformedAt = none ∧
      ∀ f ∈ (35, msgType) :: builtFields (built dict m [] calls), isFramingTag f.1 = false := by
  obtain ⟨hempty, hmsgType⟩ := createOutbound_ok hcreate
  obtain ⟨htype, hitems, htags⟩ := hempty.run hsides hapart
  obtain ⟨hpaired, hpayload⟩ := commit_ok hcommit
  rw [htype] at hpayload
  rw [← hitems, builtFields_items]
  have hbody : ∀ f ∈ treeFields (m.run dict calls).entries,
      f.1 ≤ tagMax ∧ isFramingTag f.1 = false := by
    intro f hf
    obtain ⟨a, ha, n, rfl⟩ := exists_label_of_mem_preorder _ _ hf
    exact htags a ha
  have htags : ∀ f ∈ (35, msgType) :: treeFields (m.run dict calls).entries, f.1 ≤ tagMax :=
    List.forall_mem_cons.mpr ⟨show 35 ≤ tagMax by decide, fun f hf => (hbody f hf).1⟩
  obtain ⟨hsplit, hend⟩ := splitFields_paired (consistent_pairHooks dict) hmsgType hpaired htags
  rw [← hpayload] at hsplit hend
  refine ⟨hsplit, hend, List.forall_mem_cons.mpr ⟨?_, fun f hf => (hbody f hf).2⟩⟩
  exact show isFramingTag 35 = false by decide

theorem noTagOnBothSides_none : NoTagOnBothSides (pairHooks none) := by
  have hpairs : ∀ p ∈ standardLengthDataPairs, (pairHooks none).lengthTagForData p.1 = 0 := by
    decide +kernel
  intro tag
  by_cases hfind : standardLengthDataPairs.find? (·.1 = tag) = none
  · refine .inl ?_
    have hnone : standardDataTagForLength tag = 0 := by simp [standardDataTagForLength, hfind]
    simp [pairHooks, PairHooks.none, PairHooks.dataTagForLength, dataTagForLength, hnone]
  obtain ⟨p, hp⟩ := Option.ne_none_iff_exists'.mp hfind
  refine .inr ?_
  have htag : p.1 = tag := by simpa using List.find?_some hp
  rw [← htag]
  exact hpairs p (List.mem_of_find?_eq_some hp)

def bareMsg : OutboundMsg := { msgType := ascii "D" }

/-- A Data pair set twice, a removed field, a framing tag, and a group with a pair and a
group in its entry. -/
def nestedCalls : List CapiCall :=
  [.setString 58 (ascii "hi"), .setData 96 [97, soh, 98], .setString 8 (ascii "x"),
   .groupBegin 453, .addEntry 0, .entrySetString 0 448 (ascii "A"), .entrySetData 0 446 (ascii "t"),
   .entryGroupBegin 0 802, .addEntry 1, .entrySetInt 1 803 (-5), .groupEnd 1, .groupEnd 0,
   .setData 96 [soh, 99], .removeTag 58, .setInt 54 1]

def nestedPayload : Bytes :=
  fieldsOf ["35=D", "95=2"] ++ ascii "96=" ++ soh :: fieldsOf ["c", "453=1", "448=A", "445=1",
    "446=t", "802=1", "803=-5", "54=1"]

theorem nestedCalls_keepApart : allKeepApart none bareMsg nestedCalls = true := by
  decide +kernel

theorem nestedCalls_commit : (bareMsg.run none nestedCalls).commit none = .ok nestedPayload := by
  decide +kernel

theorem nested_payload_is_what_was_set :
    splitFields (pairHooks none).dataTagForLength nestedPayload =
      [(35, ascii "D"), (95, ascii "2"), (96, [soh, 99]), (453, ascii "1"), (448, ascii "A"),
       (445, ascii "1"), (446, ascii "t"), (802, ascii "1"), (803, ascii "-5"),
       (54, ascii "1")] := by
  have h := payload_is_what_was_set none (ascii "D") bareMsg nestedCalls nestedPayload
    noTagOnBothSides_none rfl nestedCalls_keepApart nestedCalls_commit
  exact h.1

/-- The calls of the one case that is not apart: a group, and a string with its tag. -/
def lostCalls : List CapiCall := [.groupBegin 453, .groupEnd 0, .setString 453 (ascii "x")]

/-- A value set on a group's tag is lost in a session without a dictionary: every call and `commit`
succeed, and the payload does not have it. `set_bytes` refuses the same write. -/
theorem value_set_on_group_tag_is_lost :
    NoTagOnBothSides (pairHooks none) ∧ createOutbound none (ascii "D") = .ok bareMsg ∧
      (∀ n < 3, ∀ c ∈ lostCalls[n]?,
        ((bareMsg.run none (lostCalls.take n)).call none c).isOk = true) ∧
      (bareMsg.run none lostCalls).commit none = .ok (fieldsOf ["35=D", "453=0"]) ∧
      builtFields (built none bareMsg [] lostCalls) = [(453, ascii "0"), (453, ascii "x")] ∧
      splitFields (pairHooks none).dataTagForLength (fieldsOf ["35=D", "453=0"]) =
        [(35, ascii "D"), (453, ascii "0")] ∧
      ((bareMsg.run none (lostCalls.take 2)).setBytes none 453 (ascii "x")).isOk = false := by
  refine ⟨noTagOnBothSides_none, rfl, ?_, ?_⟩ <;> decide +kernel

end Fixpp.Analysis.CapiPayload
