import Fixpp.Model.LengthPairs

/-!
# The pairs of a loaded dictionary

Both loaders pair a field of type Length with a field of a data type. So in the table view of a
loaded dictionary no tag is the Data tag of one pair and the Length tag of another
(`TableSource.unchained`). A FIXT route table may chain (`split_differs`).
-/

namespace Fixpp.Model

/-! ## Typing of the pairs found -/

/-- Every pair goes from a Length tag to a tag of a data type. -/
def PairsTyped (typeOf : ℕ → FieldDataType) (pairs : List (ℕ × ℕ)) : Prop :=
  ∀ p ∈ pairs, typeOf p.1 = .length ∧ (typeOf p.2).isData = true

variable {pairs forward : List (ℕ × ℕ)} {name : String} {info : GlobalFieldInfo}
    {doc : XmlDocument} {w : PairWalk}

theorem PairsTyped.snoc {typeOf : ℕ → FieldDataType} {l d : ℕ} (h : PairsTyped typeOf pairs)
    (hl : typeOf l = .length) (hd : (typeOf d).isData = true) :
    PairsTyped typeOf (pairs ++ [(l, d)]) := by
  intro p hp
  rcases List.mem_append.mp hp with hin | hin
  · exact h p hin
  rw [List.mem_singleton.mp hin]
  exact ⟨hl, hd⟩

def XmlDocument.typeOf (doc : XmlDocument) (tag : ℕ) : FieldDataType :=
  ((doc.fields.find? (·.tag = tag)).map (·.type)).getD .other

theorem find_of_distinct {α : Type} {key : α → ℕ} {xs : List α} (h : (xs.map key).Nodup) {x : α}
    (hx : x ∈ xs) : xs.find? (fun y => key y = key x) = some x := by
  induction xs with
  | nil => cases hx
  | cons y ys ih =>
    rw [List.map_cons, List.nodup_cons] at h
    rcases List.mem_cons.mp hx with rfl | hin
    · simp
    have hne : key y ≠ key x := by
      intro heq
      apply h.1
      rw [heq]
      exact List.mem_map_of_mem hin
    rw [List.find?_cons_of_neg (by simpa using hne)]
    exact ih h.2 hin

theorem XmlDocument.typeOf_of_byName (doc : XmlDocument) (h : doc.byName name = some info) :
    doc.typeOf info.tag = info.type := by
  have hmem : info ∈ doc.fields := List.mem_of_find?_eq_some h
  simp [XmlDocument.typeOf, find_of_distinct doc.distinct hmem]

/-- What a walk keeps: the field before it has the type it is taken for, and the
pairs found are typed. -/
structure XmlDocument.WalkTyped (doc : XmlDocument) (w : PairWalk) : Prop where
  prev : w.prevIsLength = true → ∃ name info, doc.byName name = some info ∧
    info.tag = w.prevTag ∧ info.type = .length
  forward : PairsTyped doc.typeOf w.forward

theorem XmlDocument.byTag_bind_byName (doc : XmlDocument) (h : doc.byName name = some info) :
    (doc.byTag info.tag).bind doc.byName = some info := by
  have hmem : info ∈ doc.fields := List.mem_of_find?_eq_some h
  have hname : info.name = name := by simpa using List.find?_some h
  simp [XmlDocument.byTag, find_of_distinct doc.distinct hmem, hname, h]

theorem XmlDocument.pairsTyped_markPair (doc : XmlDocument) {dataTag : ℕ}
    (h : PairsTyped doc.typeOf forward) (hinfo : doc.byName name = some info)
    (hlength : info.type = .length) (hdata : (doc.typeOf dataTag).isData = true) :
    PairsTyped doc.typeOf (doc.markPair forward info.tag dataTag) := by
  unfold XmlDocument.markPair
  rw [doc.byTag_bind_byName hinfo]
  split
  · exact h
  dsimp only
  split
  · exact h
  · exact h.snoc (by rw [doc.typeOf_of_byName hinfo, hlength]) hdata

theorem XmlDocument.WalkTyped.visit (h : doc.WalkTyped w) (name : String) :
    doc.WalkTyped (doc.visit w name) := by
  unfold XmlDocument.visit
  cases hinfo : doc.byName name with
  | none => exact ⟨by simp, h.forward⟩
  | some info =>
    refine ⟨fun hlength => ⟨name, info, hinfo, rfl, by simpa using hlength⟩, ?_⟩
    dsimp only
    split
    next hpair =>
      rw [Bool.and_eq_true] at hpair
      obtain ⟨prevName, prev, hprev, htag, hlength⟩ := h.prev hpair.1
      rw [← htag]
      apply doc.pairsTyped_markPair h.forward hprev hlength
      rw [doc.typeOf_of_byName hinfo]
      exact hpair.2
    · exact h.forward

theorem XmlDocument.WalkTyped.walkChild (h : doc.WalkTyped w) (strict : Bool) (node : XmlNode) :
    doc.WalkTyped (doc.walkChild strict w node) := by
  cases node with
  | misc => exact h
  | element label name children =>
    simp only [XmlDocument.walkChild]
    split
    · exact h.visit name
    split
    · exact ⟨by simp, h.forward⟩
    · exact h

theorem XmlDocument.WalkTyped.foldl {α : Type} {step : PairWalk → α → PairWalk}
    (hstep : ∀ w x, doc.WalkTyped w → doc.WalkTyped (step w x)) (xs : List α)
    (h : doc.WalkTyped w) : doc.WalkTyped (xs.foldl step w) := by
  induction xs generalizing w with
  | nil => exact h
  | cons x xs ih => exact ih (hstep w x h)

theorem XmlDocument.pairsTyped_walk (h : PairsTyped doc.typeOf forward) (strict : Bool)
    (container : List XmlNode) : PairsTyped doc.typeOf (doc.walk strict forward container) :=
  (XmlDocument.WalkTyped.foldl (fun _ node hw => hw.walkChild strict node) container
    ⟨by simp, h⟩).forward

theorem XmlDocument.pairsTyped_foldl_walk (strict : Bool) (containers : List (List XmlNode))
    (h : PairsTyped doc.typeOf forward) :
    PairsTyped doc.typeOf (containers.foldl (doc.walk strict) forward) := by
  induction containers generalizing forward with
  | nil => exact h
  | cons container containers ih => exact ih (XmlDocument.pairsTyped_walk h strict container)

theorem XmlDocument.pairsTyped_detect (doc : XmlDocument) :
    PairsTyped doc.typeOf doc.detectLengthPairRelation := by
  have hprimary : doc.WalkTyped ((doc.fields.map (·.name)).foldl doc.visit {}) :=
    .foldl (fun _ name hw => hw.visit name) _
      ⟨by simp, by intro p hp; cases hp⟩
  exact XmlDocument.pairsTyped_foldl_walk true _
    (XmlDocument.pairsTyped_foldl_walk false _ hprimary.forward)

def OrchestraDocument.typeOf (doc : OrchestraDocument) (tag : ℕ) : FieldDataType :=
  ((doc.fields.find? (·.tag = tag)).map (·.type)).getD .other

namespace OrchestraDocument

variable {doc : OrchestraDocument}

/-- The pairs that fields declare by their `lengthId`. -/
def declared (infos : List OrchestraFieldInfo) : List (ℕ × ℕ) :=
  infos.filterMap fun info => info.lengthId.map (·, info.tag)

/-- The `lengthId` of a field, if there is one, names a Length field for a data field. -/
def Refers (doc : OrchestraDocument) (info : OrchestraFieldInfo) : Prop :=
  ∀ l ∈ info.lengthId, l ≠ 0 ∧ info.tag ≠ 0 ∧ info.type.isData = true ∧
    ∃ f ∈ doc.fields, f.tag = l ∧ f.type = .length

theorem find_eq_length_iff (l : ℕ) : (doc.fields.find? (·.tag = l)).map (·.type) = some .length ↔
    ∃ f ∈ doc.fields, f.tag = l ∧ f.type = .length := by
  constructor
  · intro h
    obtain ⟨f, hf, htype⟩ := Option.map_eq_some_iff.mp h
    exact ⟨f, List.mem_of_find?_eq_some hf, by simpa using List.find?_some hf, htype⟩
  · rintro ⟨f, hf, rfl, htype⟩
    rw [find_of_distinct doc.distinct hf, Option.map_some, htype]

theorem resolveField_ok_iff (info : OrchestraFieldInfo) (hforward : (forward.map Prod.fst).Nodup) :
    doc.resolveField forward info = .ok pairs ↔ pairs = forward ++ declared [info] ∧
      doc.Refers info ∧ ((forward ++ declared [info]).map Prod.fst).Nodup := by
  unfold resolveField
  cases hid : info.lengthId with
  | none => simp [Refers, declared, hid, hforward, @eq_comm _ pairs]
  | some l =>
    have hone : declared [info] = [(l, info.tag)] := by simp [declared, hid]
    have hfresh : ((forward ++ [(l, info.tag)]).map Prod.fst).Nodup ↔
        forward.any (·.1 = l) = false := by
      simp [List.nodup_append, hforward]
    simp only [Refers, hone, hid, hfresh, ne_eq, find_eq_length_iff, Option.mem_def,
      Option.some.injEq, forall_eq']
    grind

theorem foldlM_resolveField_ok_iff (infos : List OrchestraFieldInfo)
    (hforward : (forward.map Prod.fst).Nodup) :
    infos.foldlM doc.resolveField forward = .ok pairs ↔ pairs = forward ++ declared infos ∧
      (∀ info ∈ infos, doc.Refers info) ∧ ((forward ++ declared infos).map Prod.fst).Nodup := by
  induction infos generalizing forward with
  | nil => simp [declared, hforward, @eq_comm _ pairs, pure, Except.pure]
  | cons info infos ih =>
    have hsplit : declared (info :: infos) = declared [info] ++ declared infos :=
      List.filterMap_append (l := [info])
    rw [List.foldlM_cons, hsplit, ← List.append_assoc, List.forall_mem_cons]
    cases hfirst : doc.resolveField forward info with
    | error e =>
      constructor
      · intro h
        cases h
      rintro ⟨-, ⟨hrefers, -⟩, hnodup⟩
      rw [List.map_append] at hnodup
      cases hfirst.symm.trans ((resolveField_ok_iff info hforward).mpr
        ⟨rfl, hrefers, hnodup.of_append_left⟩)
    | ok forward' =>
      obtain ⟨rfl, hrefers, hnodup⟩ := (resolveField_ok_iff info hforward).mp hfirst
      rw [and_iff_right hrefers]
      exact ih hnodup

theorem resolve_ok_iff : doc.resolveLengthPairRelation = .ok pairs ↔
    pairs = declared doc.fields ∧ (∀ info ∈ doc.fields, doc.Refers info) ∧
      ((declared doc.fields).map Prod.fst).Nodup :=
  foldlM_resolveField_ok_iff doc.fields List.nodup_nil

theorem pairsTyped_resolve (hres : doc.resolveLengthPairRelation = .ok pairs) :
    PairsTyped doc.typeOf pairs := by
  obtain ⟨rfl, hrefers, -⟩ := resolve_ok_iff.mp hres
  intro p hp
  obtain ⟨info, hinfo, hpair⟩ := List.mem_filterMap.mp hp
  obtain ⟨l, hl, rfl⟩ := Option.map_eq_some_iff.mp hpair
  obtain ⟨-, -, hdata, f, hf, rfl, hlength⟩ := hrefers info hinfo l hl
  simp [typeOf, find_of_distinct doc.distinct, hinfo, hf, hdata, hlength]

/-- An Orchestra document is accepted if and only if every `lengthId` makes a pair of a Length field
and a data field and no Length field is named twice. The pairs are then the declared ones. The order
in which the fields are visited does not matter. -/
theorem orchestra_pairs_exact (doc : OrchestraDocument) :
    (∀ pairs, doc.resolveLengthPairRelation = .ok pairs ↔ pairs = declared doc.fields ∧
      (∀ info ∈ doc.fields, doc.Refers info) ∧ ((declared doc.fields).map Prod.fst).Nodup) ∧
    ∀ (other : OrchestraDocument) (pairs : List (ℕ × ℕ)), other.fields.Perm doc.fields →
      doc.resolveLengthPairRelation = .ok pairs →
        ∃ pairs', other.resolveLengthPairRelation = .ok pairs' ∧ pairs'.Perm pairs := by
  refine ⟨fun pairs => resolve_ok_iff, ?_⟩
  intro other pairs hperm hres
  obtain ⟨rfl, hrefers, hnodup⟩ := resolve_ok_iff.mp hres
  have hpairs : (declared other.fields).Perm (declared doc.fields) := hperm.filterMap _
  refine ⟨_, resolve_ok_iff.mpr ⟨rfl, ?_, ?_⟩, hpairs⟩
  · intro info hinfo l hl
    obtain ⟨hl0, htag, hdata, f, hf, hlength⟩ := hrefers info (hperm.subset hinfo) l hl
    exact ⟨hl0, htag, hdata, f, hperm.symm.subset hf, hlength⟩
  · exact ((hpairs.map Prod.fst).nodup_iff).mpr hnodup

end OrchestraDocument

/-! ## The dictionaries of the loaders -/

/-- The row of a tag: it counts the Data tag that was found for it. -/
def fieldRefOf (pairs : List (ℕ × ℕ)) (tag : ℕ) : FieldRef :=
  { tag := tag, lengthPairDataTag := (pairs.lookup tag).getD 0 }

theorem mem_of_lookup_getD {tag : ℕ} (h : (pairs.lookup tag).getD 0 ≠ 0) :
    (tag, (pairs.lookup tag).getD 0) ∈ pairs := by
  induction pairs with
  | nil => simp at h
  | cons p pairs ih =>
    obtain ⟨l, d⟩ := p
    by_cases heq : tag = l
    · subst heq
      simp
    have hbeq : (tag == l) = false := by simpa using heq
    rw [List.lookup_cons, hbeq] at h ⊢
    exact List.mem_cons_of_mem _ (ih h)

def Dictionary.ofPairs {typeOf : ℕ → FieldDataType} {pairs : List (ℕ × ℕ)}
    (h : PairsTyped typeOf pairs) (tags headerTags : List ℕ) : Dictionary where
  fields := tags.map (fieldRefOf pairs)
  headerTags := headerTags
  typed := by
    refine ⟨typeOf, ?_⟩
    intro f hf hne
    obtain ⟨tag, -, rfl⟩ := List.mem_map.mp hf
    exact h _ (mem_of_lookup_getD hne)

/-- What the QuickFIX loader makes of a document whose messages have these tags. -/
def XmlDocument.dictionary (doc : XmlDocument) (tags headerTags : List ℕ) : Dictionary :=
  Dictionary.ofPairs doc.pairsTyped_detect tags headerTags

/-- What the Orchestra loader makes of a document it accepts. -/
def OrchestraDocument.dictionary (doc : OrchestraDocument) {pairs : List (ℕ × ℕ)}
    (h : doc.resolveLengthPairRelation = .ok pairs) (tags headerTags : List ℕ) : Dictionary :=
  Dictionary.ofPairs (OrchestraDocument.pairsTyped_resolve h) tags headerTags

/-! ## The table of the pairs -/

def LengthPairTable.Within (t : LengthPairTable) (pairs : List (ℕ × ℕ)) : Prop :=
  ∀ l, t.lengthPairDataTag l ≠ 0 → (l, t.lengthPairDataTag l) ∈ pairs

theorem LengthPairTable.setLengthPairDataTag_cases (t : LengthPairTable) (l d k : ℕ) :
    (t.setLengthPairDataTag l d).lengthPairDataTag k = t.lengthPairDataTag k ∨
    (t.setLengthPairDataTag l d).lengthPairDataTag k = 0 ∨
    (k = l ∧ (t.setLengthPairDataTag l d).lengthPairDataTag k = d) := by
  unfold LengthPairTable.setLengthPairDataTag
  split
  · exact .inl rfl
  dsimp only
  split
  · unfold setEntry
    split
    · exact .inr (.inl rfl)
    split
    · exact .inr (.inr ⟨‹_›, rfl⟩)
    · exact .inl rfl
  · unfold setEntry
    split
    · exact .inr (.inr ⟨‹_›, rfl⟩)
    · exact .inl rfl

theorem LengthPairTable.Within.setAll {t : LengthPairTable} {known : List (ℕ × ℕ)}
    (h : t.Within known) (pairs : List (ℕ × ℕ)) (hpairs : ∀ p ∈ pairs, p ∈ known) :
    (t.setAll pairs).Within known := by
  induction pairs generalizing t with
  | nil => exact h
  | cons p pairs ih =>
    have hp := hpairs p List.mem_cons_self
    refine ih ?_ (fun q hq => hpairs q (List.mem_cons_of_mem _ hq))
    intro k hk
    rcases t.setLengthPairDataTag_cases p.1 p.2 k with hsame | hzero | ⟨rfl, hnew⟩
    · rw [hsame] at hk ⊢
      exact h k hk
    · exact absurd hzero hk
    rw [hnew]
    exact hp

theorem Dictionary.within_asTableView (d : Dictionary) : d.asTableView.Within d.pairs :=
  .setAll (fun _ hl => absurd rfl hl) d.pairs (fun _ hp => hp)

/-! ## Chains -/

theorem isStandardPairTag_of_pair {p : ℕ × ℕ} (h : p ∈ standardLengthDataPairs) :
    standardDataTagForLength p.2 = 0 ∧ isStandardPairTag p.2 = true := by
  have hall : ∀ p ∈ standardLengthDataPairs,
      standardDataTagForLength p.2 = 0 ∧ isStandardPairTag p.2 = true := by decide +kernel
  exact hall p h

theorem standardDataTag_unchained {t : ℕ} (h : standardDataTagForLength t ≠ 0) :
    standardDataTagForLength (standardDataTagForLength t) = 0 ∧
      isStandardPairTag (standardDataTagForLength t) = true := by
  unfold standardDataTagForLength at h
  cases hfind : standardLengthDataPairs.find? (·.1 = t) with
  | none => simp [hfind] at h
  | some p =>
    have hdata : standardDataTagForLength t = p.2 := by
      simp [standardDataTagForLength, hfind]
    rw [hdata]
    exact isStandardPairTag_of_pair (List.mem_of_find?_eq_some hfind)

/-- A lookup chains only where its dictionary pairs do: a standard pair and a pair
outside the standard ones share no tag. -/
theorem dataTagForLength_unchained {lookup : ℕ → ℕ}
    (h : ∀ t, lookup t ≠ 0 → lookup (lookup t) = 0) :
    DictHooks.Unchained (dataTagForLength (some lookup)) := by
  intro t ht
  by_cases hstd : isStandardPairTag t = true
  · have heq : dataTagForLength (some lookup) t = standardDataTagForLength t := by
      simp [dataTagForLength, hstd]
    rw [heq] at ht ⊢
    obtain ⟨hzero, hpair⟩ := standardDataTag_unchained ht
    simp [dataTagForLength, hpair, hzero]
  rw [Bool.not_eq_true] at hstd
  have heq : dataTagForLength (some lookup) t =
      if lookup t ≠ 0 ∧ isStandardPairTag (lookup t) = false then lookup t else 0 := by
    simp [dataTagForLength, hstd]
  rw [heq] at ht ⊢
  split at ht
  next hdata =>
    rw [if_pos hdata]
    simp [dataTagForLength, hdata.2, h t hdata.1]
  · exact absurd rfl ht

theorem dictHooks_none_unchained : DictHooks.none.Unchained := by
  exact dataTagForLength_unchained (fun _ hne => absurd rfl hne)

theorem forTableView_unchained {t : LengthPairTable}
    (h : ∀ l, t.lengthPairDataTag l ≠ 0 → t.lengthPairDataTag (t.lengthPairDataTag l) = 0) :
    (DictHooks.forTableView t).Unchained := by
  unfold DictHooks.forTableView
  split
  · exact dataTagForLength_unchained h
  · exact dictHooks_none_unchained

/-- A table of typed pairs does not chain: the Data tag of a pair is of a data
type, so it is no Length. -/
theorem Dictionary.asTableView_unchained (d : Dictionary) :
    (DictHooks.forTableView d.asTableView).Unchained := by
  obtain ⟨typeOf, htyped⟩ := d.typed
  have hpair : ∀ l, d.asTableView.lengthPairDataTag l ≠ 0 →
      typeOf l = .length ∧ (typeOf (d.asTableView.lengthPairDataTag l)).isData = true := by
    intro l hl
    obtain ⟨f, hf, heq⟩ := List.mem_map.mp (d.within_asTableView l hl)
    obtain ⟨htag, hdata⟩ := Prod.mk.inj heq
    rw [← hdata, ← htag]
    exact htyped f hf (by rw [hdata]; exact hl)
  apply forTableView_unchained
  intro l hl
  by_contra hchain
  have hlength := (hpair _ hchain).1
  have hdata := (hpair l hl).2
  rw [hlength] at hdata
  cases hdata

theorem TableSource.unchained {source : TableSource}
    (h : ∀ d s, source = .fixtRoutePairs d s → source.hooks.Unchained) : source.hooks.Unchained := by
  cases source with
  | none => exact dictHooks_none_unchained
  | dictionary d => exact d.asTableView_unchained
  | fixtRoute d => exact d.asTableView_unchained
  | fixtRoutePairs d s => exact h d s rfl

end Fixpp.Model
