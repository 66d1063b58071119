import Fixpp.Model.BodyBuilder
import Fixpp.Analysis.PairedFields

/-!
# What a body builder commits is read back

A builder keeps every scalar value free of SOH, except the Data of a standard pair, and notes
whether a tag of its tree may be half of a pair; `commit` then checks the pairs of every
container. So the offset table over what it writes lists the tree in pre-order.
-/

namespace Fixpp.Model

open Foundation Writer List BuilderRun BodyBuilder

variable {P : EntryLabel → Prop} {entries : List EntryNode} {noTag delimiterTag : ℕ}
  {r : BuilderRun} {instances : List (List EntryNode)}

/-! ## The bytes of a tree -/

theorem serializeInstances_eq (instances : List (List EntryNode)) :
    serializeInstances instances = instances.flatMap serializeEntries := by
  induction instances with
  | nil => rw [serializeInstances, flatMap_nil]
  | cons inst rest ih => rw [serializeInstances, ih, flatMap_cons]

/-- A tree is written as its fields are, in pre-order. -/
theorem serializeEntries_eq (entries : List EntryNode) :
    serializeEntries entries = (treeFields entries).flatMap fieldBytes := by
  induction entries using Rose.forest_induction with
  | nil => rfl
  | cons a instances rest ihinst ihrest =>
    have hinst : instances.flatMap serializeEntries =
        (instances.flatMap treeFields).flatMap fieldBytes := by
      rw [flatMap_assoc]
      exact flatMap_congr ihinst
    rw [serializeEntries, serializeNode, serializeInstances_eq, treeFields_cons, ihrest, hinst,
      flatMap_cons, flatMap_append]
    unfold EntryLabel.field fieldBytes
    split <;> simp

theorem instancesSize_eq (instances : List (List EntryNode)) :
    instancesSize instances = (instances.map computeSize).sum := by
  induction instances with
  | nil => rw [instancesSize, map_nil, sum_nil]
  | cons inst rest ih => rw [instancesSize, ih, map_cons, sum_cons]

theorem length_serializeEntries (entries : List EntryNode) :
    (serializeEntries entries).length = computeSize entries := by
  induction entries using Rose.forest_induction with
  | nil => rfl
  | cons a instances rest ihinst ihrest =>
    have hinst : (instances.flatMap serializeEntries).length = instancesSize instances := by
      rw [length_flatMap, instancesSize_eq]
      exact congrArg sum (map_congr_left ihinst)
    rw [serializeEntries, serializeNode, computeSize, nodeSize, length_append, ihrest,
      serializeInstances_eq]
    split
    · simp only [length_append, length_cons, hinst, length_nil]
      omega
    simp only [length_append, length_cons, length_nil]
    omega

/-! ## Texts without SOH -/

theorem renderInt_clean (v : ℤ) : ∀ b ∈ renderInt v, b ≠ soh := by
  unfold renderInt
  split
  · rw [forall_mem_append]
    exact ⟨by decide, renderU32_clean _⟩
  · exact renderU32_clean _

theorem stripFraction_subset (frac : ℕ) (digits : Bytes) :
    (stripFraction frac digits).1 ⊆ digits := by
  induction frac generalizing digits with
  | zero => exact .refl _
  | succ frac ih =>
    unfold stripFraction
    split
    · exact List.Subset.trans (ih _) (dropLast_subset _)
    · exact .refl _

theorem pointedDigits_clean {digits : Bytes} (h : ∀ b ∈ digits, b ≠ soh) (frac : ℕ) :
    ∀ b ∈ pointedDigits frac digits, b ≠ soh := by
  unfold pointedDigits
  split
  · exact h
  split
  · rw [forall_mem_append, forall_mem_append]
    refine ⟨⟨by decide, fun b hb => ?_⟩, h⟩
    rw [eq_of_mem_replicate hb]
    decide
  · rw [forall_mem_append, forall_mem_append]
    exact ⟨⟨fun b hb => h b (mem_of_mem_take hb), by decide⟩, fun b hb => h b (mem_of_mem_drop hb)⟩

theorem toChars_clean {v : PodDecimal} {text : Bytes} (h : v.toChars = some text) :
    ∀ b ∈ text, b ≠ soh := by
  unfold PodDecimal.toChars at h
  split at h
  · cases h
  split at h
  · cases h
    decide
  cases h
  rw [forall_mem_append]
  refine ⟨?_, pointedDigits_clean (fun b hb => ?_) _⟩
  · split
    · decide
    · exact fun _ hb => (nomatch hb)
  · exact renderU32_clean _ b (stripFraction_subset _ _ hb)

theorem clean_of_isCleanFieldValue {sv : Bytes} (h : isCleanFieldValue sv = true) :
    ∀ b ∈ sv, b ≠ soh := by
  rintro b hb rfl
  have hsoh := all_eq_true.mp h soh hb
  exact absurd hsoh (by decide)

/-! ## What a builder keeps -/

/-- An entry of a builder: its tag is one, a value that holds an SOH is the Data of a
standard pair, and a tag of a standard pair has been noted. -/
structure EntryLabel.Sound (needed : Bool) (a : EntryLabel) : Prop where
  tag : a.tag ≤ tagMax
  clean : standardLengthTagForData a.tag = 0 → ∀ b ∈ a.valueBytes, b ≠ soh
  noted : isStandardPairTag a.tag = true → needed = true

variable {needed : Bool} {into : List EntryNode} {room tag : ℕ} {hooks : PairHooks}
    {b : BodyBuilder}

theorem EntryLabel.Sound.mono {needed' : Bool} (hneeded : needed = true → needed' = true)
    (a : EntryLabel) (h : a.Sound needed) : a.Sound needed' :=
  ⟨h.tag, h.clean, fun hstd => hneeded (h.noted hstd)⟩

/-- A builder for this MsgType and these pairs: every entry is sound, and an installed
callback makes the check necessary. -/
structure BodyBuilder.Sound (b : BodyBuilder) (msgType : Bytes) (hooks : PairHooks) : Prop where
  config : b.msgType = msgType ∧ b.hooks = hooks
  callback : hooks.lengthPair.isSome = true → b.pairCheckNeeded = true
  entries : Rose.Everywhere (EntryLabel.Sound b.pairCheckNeeded) b.entries

/-- An append keeps what is noted, and the entries sound. -/
structure Appended.Keeps (needed : Bool) (into : List EntryNode) (a : Appended) : Prop where
  noted : needed = true → a.pairCheckNeeded = true
  entries : Rose.Everywhere (EntryLabel.Sound needed) into →
    Rose.Everywhere (EntryLabel.Sound a.pairCheckNeeded) a.into

theorem Appended.Keeps.refused (e : Error) : Appended.Keeps needed into ⟨.error e, into, needed⟩ :=
  ⟨fun h => h, fun h => h⟩

theorem Appended.Keeps.trans {a a' : Appended} (h : Appended.Keeps needed into a)
    (h' : Appended.Keeps a.pairCheckNeeded a.into a') : Appended.Keeps needed into a' :=
  ⟨fun hnoted => h'.noted (h.noted hnoted), fun hinto => h'.entries (h.entries hinto)⟩

theorem Appended.Keeps.dropLast {a : Appended} (h : Appended.Keeps needed into a) :
    Appended.Keeps needed into { a with into := a.into.dropLast } := by
  refine ⟨h.noted, fun hinto => ?_⟩
  have hentries := h.entries hinto
  rw [Rose.everywhere_iff] at hentries ⊢
  exact fun t ht => hentries t (dropLast_subset _ ht)

theorem everywhere_snoc (h : Rose.Everywhere P entries) {a : EntryLabel} (ha : P a) :
    Rose.Everywhere P (entries ++ [.node a []]) := by
  rw [Rose.everywhere_append]
  exact ⟨h, Rose.everywhere_cons.mpr ⟨ha, fun _ hc => (nomatch hc), Rose.everywhere_nil P⟩⟩

variable (htag : tag ≤ tagMax)

include htag

theorem appendBytesField_keeps {value : Bytes}
    (hclean : standardLengthTagForData tag = 0 → ∀ b ∈ value, b ≠ soh) (needed : Bool)
    (into : List EntryNode) :
    Appended.Keeps needed into (appendBytesField room tag value needed into) := by
  have hnoted : needed = true → (needed || isStandardPairTag tag) = true :=
    fun h => by rw [h, Bool.true_or]
  unfold appendBytesField
  split
  · exact ⟨hnoted, .mono (.mono hnoted)⟩
  refine ⟨hnoted, fun hinto => ?_⟩
  refine everywhere_snoc (.mono (.mono hnoted) hinto) ?_
  exact ⟨htag, hclean, fun hstd => by rw [hstd, Bool.or_true]⟩

theorem appendIntField_keeps (v : ℤ) (needed : Bool) (into : List EntryNode) :
    Appended.Keeps needed into (appendIntField room tag v needed into) := by
  unfold appendIntField
  split
  · exact .refused _
  · exact appendBytesField_keeps htag (fun _ => renderInt_clean v) needed into

theorem appendStringField_keeps (v : Bytes) (needed : Bool) (into : List EntryNode) :
    Appended.Keeps needed into (appendStringField room tag v needed into) := by
  unfold appendStringField
  split
  · exact .refused _
  split
  · exact .refused _
  next hclean =>
  rw [Bool.not_eq_false] at hclean
  exact appendBytesField_keeps htag (fun _ => clean_of_isCleanFieldValue hclean) needed into

theorem appendDecimalField_keeps (v : PodDecimal) (needed : Bool) (into : List EntryNode) :
    Appended.Keeps needed into (appendDecimalField room tag v needed into) := by
  unfold appendDecimalField
  split
  · exact .refused _
  split
  · exact .refused _
  next text htext => exact appendBytesField_keeps htag (fun _ => toChars_clean htext) needed into

omit htag

theorem standardLengthTag_le (tag : ℕ) : standardLengthTagForData tag ≤ tagMax := by
  have hall : ∀ p ∈ standardLengthDataPairs, p.1 ≤ tagMax := by decide +kernel
  unfold standardLengthTagForData
  cases hfind : standardLengthDataPairs.find? (·.2 = tag) with
  | none => exact Nat.zero_le _
  | some p => exact hall p (mem_of_find?_eq_some hfind)

theorem lengthTagForData_none (h : PairHooks.none.lengthTagForData tag ≠ 0) :
    PairHooks.none.lengthTagForData tag = standardLengthTagForData tag := by
  unfold PairHooks.lengthTagForData PairHooks.none lengthTagForData at h ⊢
  split at h
  next hstd => rw [if_pos hstd]
  · exact absurd rfl h

include htag

theorem appendDataField_keeps (v : Bytes) (needed : Bool) (into : List EntryNode) :
    Appended.Keeps needed into (appendDataField room tag v needed into) := by
  unfold appendDataField
  split
  · exact .refused _
  dsimp only
  split
  · exact .refused _
  rename_i hpair
  have hlength := lengthTagForData_none hpair
  rw [hlength] at hpair ⊢
  split
  · exact .refused _
  have hint : Appended.Keeps needed into
      (appendIntField room (standardLengthTagForData tag) v.length needed into) :=
    appendIntField_keeps (standardLengthTag_le tag) v.length needed into
  generalize appendIntField room (standardLengthTagForData tag) v.length needed into =
    length at hint
  cases hlen : length.result with
  | error e => exact hint
  | ok _ =>
    have hdata : Appended.Keeps length.pairCheckNeeded length.into
        (appendBytesField (room - 1) tag v length.pairCheckNeeded length.into) :=
      appendBytesField_keeps htag (fun hzero => absurd hzero hpair) _ _
    dsimp only
    split
    · exact hint.trans hdata.dropLast
    · exact hint.trans hdata

theorem appendField_keeps (v : FieldValue) (needed : Bool) (into : List EntryNode) :
    Appended.Keeps needed into (appendField room tag v needed into) := by
  cases v with
  | string v => exact appendStringField_keeps htag v needed into
  | char c => exact appendStringField_keeps htag [c] needed into
  | int v => exact appendIntField_keeps htag v needed into
  | decimal v => exact appendDecimalField_keeps htag v needed into
  | data v => exact appendDataField_keeps htag v needed into

omit htag

/-! ## Calls and runs -/

section Calls

variable {msgType : Bytes} {hooks : PairHooks} {b : BodyBuilder} (h : b.Sound msgType hooks)

include h

theorem BodyBuilder.Sound.appendAt (path : List (ℕ × ℕ)) {append : Bool → List EntryNode → Appended}
    (hkeeps : ∀ needed into, Appended.Keeps needed into (append needed into)) :
    (b.appendAt path append).2.Sound msgType hooks := by
  unfold BodyBuilder.appendAt
  split
  · exact h
  rename_i into hinto
  obtain ⟨hnoted, hentries⟩ := hkeeps b.pairCheckNeeded into
  refine ⟨h.config, fun hcallback => hnoted (h.callback hcallback), ?_⟩
  refine .updateAt
    (.mono (.mono hnoted) h.entries) fun _ _ => ?_
  exact hentries (h.entries.containerAt hinto)

theorem BodyBuilder.Sound.noteTag (tag : ℕ) : (b.noteTag tag).Sound msgType hooks := by
  have hnoted : b.pairCheckNeeded = true → (b.noteTag tag).pairCheckNeeded = true :=
    fun hb => by simp [BodyBuilder.noteTag, hb]
  exact ⟨h.config, fun hcallback => hnoted (h.callback hcallback), .mono (.mono hnoted) h.entries⟩

theorem BodyBuilder.Sound.beginAt (path : List (ℕ × ℕ)) (htag : noTag ≤ tagMax)
    (delimiterTag room : ℕ) : (b.beginAt path noTag delimiterTag room).2.Sound msgType hooks := by
  have hnote := h.noteTag noTag
  unfold BodyBuilder.beginAt
  dsimp only
  split
  · exact hnote
  split
  · exact hnote
  split
  · exact ⟨hnote.config, hnote.callback, hnote.entries⟩
  refine ⟨hnote.config, hnote.callback, ?_⟩
  refine hnote.entries.updateAt fun f hf =>
    everywhere_snoc (hnote.entries.containerAt hf) ?_
  exact ⟨htag, fun _ _ hb => (nomatch hb), fun hstd => by
    simp [BodyBuilder.noteTag, hstd]⟩

theorem BodyBuilder.Sound.groupBegin (htag : noTag ≤ tagMax) (delimiterTag room : ℕ) :
    (b.groupBegin noTag delimiterTag room).2.Sound msgType hooks := by
  unfold BodyBuilder.groupBegin
  split
  · exact h
  · exact h.beginAt [] htag delimiterTag room

theorem BodyBuilder.Sound.entryGroupBegin (e : EntryHandle) (htag : noTag ≤ tagMax)
    (delimiterTag room : ℕ) :
    (b.entryGroupBegin e noTag delimiterTag room).2.Sound msgType hooks := by
  unfold BodyBuilder.entryGroupBegin
  split
  · exact h
  split
  · exact h
  split
  · exact h
  · exact h.beginAt e.path htag delimiterTag room

theorem BodyBuilder.Sound.set (e : EntryHandle) {tag : ℕ} (htag : tag ≤ tagMax) (v : FieldValue)
    (room : ℕ) : (b.set e tag v room).2.Sound msgType hooks := by
  unfold BodyBuilder.set
  split
  · exact h
  · exact h.appendAt e.path (appendField_keeps htag v)

omit h

theorem everywhere_addInstance (h : Rose.Everywhere P entries) (i : ℕ) :
    Rose.Everywhere P (entries.modify i addInstance) := by
  rw [Rose.everywhere_iff] at h ⊢
  refine Rose.forall_mem_modify h ?_
  rintro ⟨a, instances⟩ ht
  obtain ⟨ha, hinst⟩ := h _ (mem_of_getElem? ht)
  refine ⟨ha, ?_⟩
  change ∀ c ∈ instances ++ [[]], _
  rw [forall_mem_append]
  exact ⟨hinst, forall_mem_singleton.mpr (Rose.everywhere_nil P)⟩

include h

theorem BodyBuilder.Sound.addEntry (g : GroupHandle) (room : ℕ) :
    (b.addEntry g room).2.Sound msgType hooks := by
  unfold BodyBuilder.addEntry
  split
  · exact h
  split
  · exact h
  split
  · exact h
  exact ⟨h.config, h.callback, h.entries.updateAt fun f hf =>
    everywhere_addInstance (h.entries.containerAt hf) g.groupIdx⟩

theorem BodyBuilder.Sound.groupEnd (g : GroupHandle) : (b.groupEnd g).2.Sound msgType hooks := by
  unfold BodyBuilder.groupEnd
  split
  · exact h
  split
  · exact h
  · exact ⟨h.config, h.callback, h.entries⟩

omit h

theorem toNat_le_tagMax (tag : UInt16) : tag.toNat ≤ tagMax := by
  have := tag.toNat_lt
  unfold tagMax
  omega

theorem BuilderRun.sound_step (h : r.builder.Sound msgType hooks) (op : BuilderOp) :
    (r.step op).builder.Sound msgType hooks := by
  cases op with
  | field tag v room => exact h.appendAt [] (appendField_keeps (toNat_le_tagMax tag) v)
  | groupBegin noTag delimiterTag room => exact h.groupBegin (toNat_le_tagMax noTag) _ room
  | groupEnd group =>
    dsimp [step]
    split
    · exact h
    · exact h.groupEnd _
  | addEntry group room =>
    dsimp [step]
    split
    · exact h
    · exact h.addEntry _ room
  | set entry tag v room =>
    dsimp [step]
    split
    · exact h
    · exact h.set _ (toNat_le_tagMax tag) v room
  | entryGroupBegin entry noTag delimiterTag room =>
    dsimp [step]
    split
    · exact h
    · exact h.entryGroupBegin _ (toNat_le_tagMax noTag) _ room

theorem BuilderRun.sound_run (h : r.builder.Sound msgType hooks) (ops : List BuilderOp) :
    (r.run ops).builder.Sound msgType hooks := by
  induction ops generalizing r with
  | nil => exact h
  | cons op ops ih => exact ih (sound_step h op)

theorem BodyBuilder.sound_new : (BodyBuilder.new msgType hooks).Sound msgType hooks :=
  ⟨⟨rfl, rfl⟩, fun h => h, Rose.everywhere_nil _⟩

end Calls

/-! ## Commit -/

theorem validate_of_mem {pairs : Option PairHooks}
    (h : validateInstances pairs delimiterTag instances = true) :
    ∀ inst ∈ instances, validateEntries pairs {} inst = true := by
  induction instances with
  | nil => exact fun _ hinst => (nomatch hinst)
  | cons inst rest ih =>
    rw [validateInstances, Bool.and_eq_true, Bool.and_eq_true] at h
    exact forall_mem_cons.mpr ⟨h.1.2, ih h.2⟩

theorem checked_of_validate {c : LengthDataChecker}
    (hclean : Rose.Everywhere (EntryLabel.CleanFor hooks) entries)
    (h : validateEntries (some hooks) c entries = true) : c.passes hooks entries = true ∧
      ∀ e ∈ entries, e.label.isGroup = true → ∀ inst ∈ e.containers, Checked hooks inst := by
  induction entries using Rose.forest_induction generalizing c with
  | nil => exact ⟨h, fun _ he => (nomatch he)⟩
  | cons a instances rest ihinst ihrest =>
    rw [validateEntries, Bool.and_eq_true, Bool.and_eq_true] at h
    obtain ⟨⟨hobserve, hnode⟩, hrest⟩ := h
    obtain ⟨-, hcleaninst, hcleanrest⟩ := Rose.everywhere_cons.mp hclean
    obtain ⟨hpass, hinstances⟩ := ihrest hcleanrest hrest
    refine ⟨by rw [LengthDataChecker.passes, hobserve, hpass, Bool.true_and], ?_⟩
    refine forall_mem_cons.mpr ⟨fun hgroup => ?_, hinstances⟩
    have hgrammar : validateInstances (some hooks) a.delimiterTag instances = true := by
      rw [validateNode] at hnode
      simpa [show a.isGroup = true from hgroup] using hnode
    intro inst hinst
    obtain ⟨hpass, hnested⟩ := ihinst inst hinst (hcleaninst inst hinst)
      (validate_of_mem hgrammar inst hinst)
    exact .mk hpass (fun e he => (Rose.everywhere_iff.mp (hcleaninst inst hinst) e he).1) hnested

/-- A tag that no Length of the session counts is none of the standard Data tags. -/
theorem standardLengthTag_of_hooks (h : hooks.lengthTagForData tag = 0) :
    standardLengthTagForData tag = 0 := by
  unfold PairHooks.lengthTagForData lengthTagForData at h
  split at h
  · exact h
  next hstd =>
  rw [isStandardPairTag, Bool.or_eq_true, not_or] at hstd
  simpa using hstd.2

theorem no_pair_of_not_standard (hnone : hooks.lengthPair = none)
    (h : isStandardPairTag tag = false) :
    hooks.lengthTagForData tag = 0 ∧ hooks.dataTagForLength tag = 0 := by
  simp [PairHooks.lengthTagForData, PairHooks.dataTagForLength, lengthTagForData, dataTagForLength,
    hnone, h]

theorem validateInstances_congr {pairs pairs' : Option PairHooks}
    (h : ∀ inst ∈ instances, validateEntries pairs {} inst = validateEntries pairs' {} inst) :
    validateInstances pairs delimiterTag instances =
      validateInstances pairs' delimiterTag instances := by
  induction instances with
  | nil => rw [validateInstances, validateInstances]
  | cons inst rest ih =>
    obtain ⟨hinst, hrest⟩ := forall_mem_cons.mp h
    rw [validateInstances, validateInstances, hinst, ih hrest]

theorem validateEntries_plain (h : Rose.Everywhere (fun a => hooks.lengthTagForData a.tag = 0 ∧
      hooks.dataTagForLength a.tag = 0) entries) :
    validateEntries (some hooks) {} entries = validateEntries none {} entries := by
  induction entries using Rose.forest_induction with
  | nil => rw [validateEntries, validateEntries]; rfl
  | cons a instances rest ihinst ihrest =>
    obtain ⟨⟨hdata, hlength⟩, hinst, hrest⟩ := Rose.everywhere_cons.mp h
    have hidle : LengthDataChecker.observe hooks {} a.tag a.observedValue = (true, {}) := by
      simp [LengthDataChecker.observe, hdata, hlength]
    have hnode : validateInstances (some hooks) a.delimiterTag instances =
        validateInstances none a.delimiterTag instances :=
      validateInstances_congr fun inst hin => ihinst inst hin (hinst inst hin)
    rw [validateEntries, validateEntries]
    dsimp
    rw [hidle, Bool.true_and, validateNode, validateNode, hnode, ihrest hrest]

/-- The walk without the pair check accepts what the full walk accepts. -/
theorem BodyBuilder.Sound.validate_eq {msgType : Bytes} (h : b.Sound msgType hooks) :
    validateEntries (if b.pairCheckNeeded then some hooks else none) {} b.entries =
      validateEntries (some hooks) {} b.entries := by
  split
  · rfl
  rename_i hneeded
  have hnone : hooks.lengthPair = none := by
    by_contra hsome
    exact hneeded (h.callback (Option.isSome_iff_ne_none.mpr hsome))
  refine (validateEntries_plain (h.entries.mono fun a ha => ?_)).symm
  apply no_pair_of_not_standard hnone
  rw [Bool.eq_false_iff]
  exact fun hstd => hneeded (ha.noted hstd)

theorem BodyBuilder.Sound.field {msgType : Bytes} (h : b.Sound msgType hooks) {f : Field}
    (hf : f ∈ treeFields b.entries) : f.1 ≤ tagMax ∧
      (isStandardPairTag f.1 = true → b.pairCheckNeeded = true) ∧
      (standardLengthTagForData f.1 = 0 → ∀ x ∈ f.2, x ≠ soh) := by
  obtain ⟨a, ha, n, rfl⟩ := Rose.exists_label_of_mem_preorder _ _ hf
  have hsound := h.entries a ha
  refine ⟨hsound.tag, hsound.noted, fun hstd => ?_⟩
  unfold EntryLabel.field
  split
  · exact renderU32_clean n
  · exact hsound.clean hstd

theorem BodyBuilder.Sound.paired {msgType : Bytes} (h : b.Sound msgType hooks)
    (hvalid : validateEntries (if b.pairCheckNeeded then some hooks else none) {} b.entries =
      true) : Paired hooks (treeFields b.entries) := by
  rw [h.validate_eq] at hvalid
  have hclean : Rose.Everywhere (EntryLabel.CleanFor hooks) b.entries :=
    h.entries.mono fun a ha _ hdata => ha.clean (standardLengthTag_of_hooks hdata)
  obtain ⟨hpass, hinstances⟩ := checked_of_validate hclean hvalid
  exact (Checked.mk hpass (fun e he => (Rose.everywhere_iff.mp hclean e he).1) hinstances).paired

theorem commit_eq {outSize : ℕ} {body : Bytes} (h : b.commit outSize = .ok body) :
    validateEntries (if b.pairCheckNeeded then some b.hooks else none) {} b.entries = true ∧
      (∀ x ∈ b.msgType, x ≠ soh) ∧
      body = ((35, b.msgType) :: treeFields b.entries).flatMap fieldBytes ∧
      body.length ≤ bodyCap := by
  unfold commit at h
  generalize validateEntries (if b.pairCheckNeeded then some b.hooks else none) {} b.entries =
    valid at h ⊢
  split at h
  · cases h
  split at h
  · cases h
  rename_i hvalid
  rw [Bool.not_eq_false] at hvalid
  split at h
  · cases h
  rename_i hmsgType
  rw [not_or, Bool.not_eq_false] at hmsgType
  dsimp only at h
  split at h
  · cases h
  split at h
  · cases h
  have hlen : (ascii "35=" ++ b.msgType ++ soh :: serializeEntries b.entries).length =
      3 + b.msgType.length + 1 + computeSize b.entries := by
    rw [length_append, length_append, length_cons, length_serializeEntries]
    change 3 + _ + _ = _
    omega
  rw [take_of_length_le (Nat.le_of_eq hlen)] at h
  cases h
  refine ⟨hvalid, clean_of_isCleanFieldValue hmsgType.2, ?_, by omega⟩
  rw [flatMap_cons, ← serializeEntries_eq,
    fieldBytes_eq (show renderU32 35 ++ [equalsSign] = ascii "35=" by decide)]
  simp

/-- A commit may skip the pair check. It gives the result and destination of one that checks the
pairs of every container; the size it computes first is the number of bytes it writes; and if it
fails, it wrote none. -/
theorem commit_shortcut (msgType : Bytes) (hooks : PairHooks) (ops : List BuilderOp) (out : Bytes) :
    let b := (BuilderRun.run ⟨.new msgType hooks, [], []⟩ ops).builder
    b.commitInto out = { b with pairCheckNeeded := true }.commitInto out ∧
      (serializeEntries b.entries).length = computeSize b.entries ∧
      ∀ e, (b.commitInto out).1 = .error e → (b.commitInto out).2 = out := by
  intro b
  have hsound : b.Sound msgType hooks := sound_run sound_new ops
  have hcommit : b.commit out.length = { b with pairCheckNeeded := true }.commit out.length := by
    unfold commit
    rw [hsound.config.2, hsound.validate_eq, if_pos rfl]
  refine ⟨by unfold commitInto; rw [hcommit], length_serializeEntries _, ?_⟩
  intro e h
  unfold commitInto at h ⊢
  cases hresult : b.commit out.length with
  | error e => rfl
  | ok body =>
    rw [hresult] at h
    cases h

/-- Behind any calls on a builder with any pair table, the offset table over the committed bytes
lists the MsgType and then the tree in pre-order. -/
theorem committed_body_reads_back (msgType : Bytes) (pairs : List (ℕ × ℕ)) (ops : List BuilderOp)
    (outSize : ℕ) (body : Bytes) :
    let hooks := PairHooks.forTableView (LengthPairTable.setAll {} pairs)
    let builder := (BuilderRun.run ⟨BodyBuilder.new msgType hooks, [], []⟩ ops).builder
    let table := OffsetTable.build defaultMaxOffsetEntries hooks.dataTagForLength body
    builder.commit outSize = .ok body →
      table.status = .ok ∧ tableFields table body = (35, msgType) :: treeFields builder.entries := by
  intro hooks builder table h
  have hsound : builder.Sound msgType hooks := sound_run sound_new ops
  obtain ⟨hvalid, hmsgType, hbody, hcap⟩ := commit_eq h
  rw [hsound.config.1] at hmsgType hbody
  rw [hsound.config.2] at hvalid
  have hsmall : body.length < 2 ^ 32 := Nat.lt_of_le_of_lt hcap (by decide)
  have hentries : ((35, msgType) :: treeFields builder.entries).length ≤ defaultMaxOffsetEntries := by
    refine Nat.le_trans (length_le_flatMap_fieldBytes _) ?_
    rw [← hbody]
    exact Nat.le_trans hcap (by decide)
  refine build_paired (PairHooks.consistent_forTableView (LengthPairTable.inverse_setAll pairs))
    hmsgType (hsound.paired hvalid) ?_ hbody hsmall hentries
  exact forall_mem_cons.mpr ⟨show 35 ≤ tagMax by decide, fun f hf => (hsound.field hf).1⟩

/-- A body with a text, a Data value that holds an SOH, a group with a pair of the
dictionary, and a group inside its entry; one call is refused. -/
def nestedBodyOps : List BuilderOp :=
  [.field 58 (.string (ascii "hi")) 2, .field 8 (.string (ascii "x")) 2,
   .field 96 (.data [97, soh, 98]) 2, .groupBegin 453 448 2, .addEntry 0 1,
   .set 0 448 (.char 65) 1, .set 0 5001 (.int 2) 1, .set 0 5002 (.string (ascii "ab")) 1,
   .entryGroupBegin 0 802 523 2, .addEntry 1 1, .set 1 523 (.decimal ⟨-1250, -3⟩) 1,
   .groupEnd 1, .groupEnd 0]

def nestedBody : Bytes :=
  fieldsOf ["35=D", "58=hi", "95=3"] ++ ascii "96=a" ++ soh :: fieldsOf ["b", "453=1", "448=A",
    "5001=2", "5002=ab", "802=1", "523=-1.25"]

def nestedBodyHooks : PairHooks := PairHooks.forTableView (LengthPairTable.setAll {} [(5001, 5002)])

def nestedBodyBuilder : BodyBuilder :=
  (BuilderRun.run ⟨BodyBuilder.new (ascii "D") nestedBodyHooks, [], []⟩ nestedBodyOps).builder

theorem nestedBodyBuilder_commits : nestedBodyBuilder.commit 4000 = .ok nestedBody := by
  decide +kernel

theorem committed_nested_body_reads_back :
    let table := .build defaultMaxOffsetEntries nestedBodyHooks.dataTagForLength
      nestedBody
    nestedBodyBuilder.commit 4000 = .ok nestedBody ∧ table.status = .ok ∧
      tableFields table nestedBody =
        [(35, ascii "D"), (58, ascii "hi"), (95, ascii "3"), (96, [97, soh, 98]),
         (453, ascii "1"), (448, ascii "A"), (5001, ascii "2"), (5002, ascii "ab"),
         (802, ascii "1"), (523, ascii "-1.25")] := by
  have h := committed_body_reads_back (ascii "D") [(5001, 5002)] nestedBodyOps 4000 nestedBody
    nestedBodyBuilder_commits
  exact ⟨nestedBodyBuilder_commits, h⟩

end Fixpp.Model
