import Fixpp.Model.FieldTree
import Fixpp.Analysis.FieldRendering
import Fixpp.Analysis.FieldSplit

/-!
# Fields whose pairs are in order

`length_data_checker` looks at the containers of a tree one by one; the readers see the fields
of the whole tree in a row. Both meet at `Paired`: every Length is followed by the Data it
counts and every other value is free of SOH (`Checked.paired`, `splitFields_paired`,
`build_paired`).
-/

namespace Fixpp.Model

open Foundation Writer List LengthPairTable EntryLabel

variable {l d count n tag : ℕ} {c : LengthDataChecker} {entries : List EntryNode}
  {rest : List Field} {carry : PendingData} {lead : Field} {frame : Bytes}

/-! ## Pairs both ways -/

def PairHooks.Consistent (hooks : PairHooks) : Prop :=
  ∀ t, hooks.dataTagForLength t ≠ 0 → hooks.lengthTagForData (hooks.dataTagForLength t) ≠ 0

structure LengthPairTable.Inverse (t : LengthPairTable) : Prop where
  forward : ∀ l, t.lengthPairDataTag l ≠ 0 → t.dataPairLengthTag (t.lengthPairDataTag l) = l
  backward : ∀ d, t.dataPairLengthTag d ≠ 0 → t.lengthPairDataTag (t.dataPairLengthTag d) = d
  zero : t.lengthPairDataTag 0 = 0 ∧ t.dataPairLengthTag 0 = 0

variable {t : LengthPairTable} {hooks : PairHooks} {value : Bytes} {f : Field}
    {fields : List Field}

theorem LengthPairTable.Inverse.set (h : t.Inverse) (l d : ℕ) :
    (t.setLengthPairDataTag l d).Inverse := by
  obtain ⟨hforward, hbackward, hzero⟩ := h
  unfold setLengthPairDataTag
  by_cases hskip : l = 0 ∨ d = 0
  · rw [if_pos hskip]
    exact ⟨hforward, hbackward, hzero⟩
  rw [if_neg hskip]
  constructor <;> grind [setEntry]

theorem LengthPairTable.inverse_setAll (pairs : List (ℕ × ℕ)) :
    (setAll {} pairs).Inverse := by
  have hall : ∀ t : LengthPairTable, t.Inverse → (t.setAll pairs).Inverse := by
    induction pairs with
    | nil => exact fun t ht => ht
    | cons p pairs ih => exact fun t ht => ih _ (ht.set p.1 p.2)
  exact hall {} ⟨fun _ h => absurd rfl h, fun _ h => absurd rfl h, rfl, rfl⟩

/-- Registrations that may run out of memory, the last one first: the table behind them and
the pairs that were taken, in the same order. -/
def LengthPairTable.registered : List (ℕ × ℕ × PairFate) → LengthPairTable × List (ℕ × ℕ)
  | [] => ({}, [])
  | (l, d, fate) :: earlier =>
    let (t, taken) := registered earlier
    let (t', returns) := t.register l d fate
    (t', if l ≠ 0 ∧ d ≠ 0 ∧ returns then (l, d) :: taken else taken)

theorem LengthPairTable.register_failed (t : LengthPairTable) {fate : PairFate}
    (h : (t.register l d fate).2 = false) : (t.register l d fate).1 = t := by
  unfold register at h ⊢
  dsimp only at h ⊢
  split_ifs at h ⊢ with hskip hforward hinverse
  · rfl
  have hback : setEntry (setEntry t.lengthPairDataTag l d) l (t.lengthPairDataTag l) =
      t.lengthPairDataTag := by
    funext k
    grind [setEntry]
  rw [hback]

theorem LengthPairTable.Inverse.set_iff (h : t.Inverse) {k e : ℕ} (hl : l ≠ 0) (hd : d ≠ 0)
    (he : e ≠ 0) : (t.setLengthPairDataTag l d).lengthPairDataTag k = e ↔
      (if l = k ∨ d = e then (l, d) = (k, e) else t.lengthPairDataTag k = e) := by
  obtain ⟨hforward, hbackward, hzero⟩ := h
  unfold setLengthPairDataTag
  rw [if_neg (not_or.mpr ⟨hl, hd⟩)]
  grind [setEntry]

/-- Behind any registrations of which some run out of memory: each map undoes the other; a Length
tag counts a Data tag exactly when the last registration taken with one of them is that of both; and
a failed one changes neither map. -/
theorem LengthPairTable.pair_maps_stay_inverse (calls : List (ℕ × ℕ × PairFate)) :
    let (t, taken) := LengthPairTable.registered calls
    (∀ l d, l ≠ 0 → d ≠ 0 → (t.lengthPairDataTag l = d ↔ t.dataPairLengthTag d = l)) ∧
      (∀ l d, d ≠ 0 → (t.lengthPairDataTag l = d ↔
        taken.find? (fun p => p.1 = l ∨ p.2 = d) = some (l, d))) ∧
      ∀ l d fate, (t.register l d fate).2 = false → (t.register l d fate).1 = t := by
  suffices h : (registered calls).1.Inverse ∧ ∀ l d, d ≠ 0 →
      ((registered calls).1.lengthPairDataTag l = d ↔
        (registered calls).2.find? (fun p => p.1 = l ∨ p.2 = d) = some (l, d)) by
    refine ⟨fun l d hl hd => ⟨?_, ?_⟩, h.2, fun l d fate => register_failed _⟩
    · rintro rfl
      exact h.1.forward l hd
    rintro rfl
    exact h.1.backward d hl
  induction calls with
  | nil => exact ⟨⟨fun _ h => absurd rfl h, fun _ h => absurd rfl h, rfl, rfl⟩, by
      simp [registered, eq_comm]⟩
  | cons call earlier ih =>
    obtain ⟨l, d, fate⟩ := call
    obtain ⟨hinverse, hforce⟩ := ih
    simp only [registered]
    cases hreturns : ((registered earlier).1.register l d fate).2 with
    | false =>
      rw [register_failed _ hreturns, if_neg (by simp)]
      exact ⟨hinverse, hforce⟩
    | true =>
      by_cases hskip : l = 0 ∨ d = 0
      · rw [if_neg (by tauto), register, if_pos hskip]
        exact ⟨hinverse, hforce⟩
      have htaken : ((registered earlier).1.register l d fate).1 =
          (registered earlier).1.setLengthPairDataTag l d := by
        unfold register at hreturns ⊢
        dsimp only at hreturns ⊢
        split_ifs at hreturns ⊢
        rfl
      rw [not_or] at hskip
      rw [htaken, if_pos ⟨hskip.1, hskip.2, rfl⟩]
      refine ⟨hinverse.set l d, fun k e he => ?_⟩
      rw [hinverse.set_iff hskip.1 hskip.2 he, find?_cons]
      by_cases hshared : l = k ∨ d = e
      · simp [hshared]
      · simpa [hshared] using hforce k e he

theorem standardTags_of_pair {p : ℕ × ℕ} (h : p ∈ standardLengthDataPairs) :
    (standardDataTagForLength p.1 ≠ 0 ∧ standardLengthTagForData p.2 ≠ 0) ∧
      isStandardPairTag p.1 = true ∧ isStandardPairTag p.2 = true := by
  have hall : ∀ p ∈ standardLengthDataPairs,
      (standardDataTagForLength p.1 ≠ 0 ∧ standardLengthTagForData p.2 ≠ 0) ∧
        isStandardPairTag p.1 = true ∧ isStandardPairTag p.2 = true := by decide +kernel
  exact hall p h

theorem standardLengthTag_of_data (l : ℕ) (h : standardDataTagForLength l ≠ 0) :
    standardLengthTagForData (standardDataTagForLength l) ≠ 0 ∧
      isStandardPairTag (standardDataTagForLength l) = true := by
  unfold standardDataTagForLength at h ⊢
  cases hfind : standardLengthDataPairs.find? (·.1 = l) with
  | none => simp [hfind] at h
  | some p =>
    obtain ⟨⟨-, htag⟩, -, hpair⟩ := standardTags_of_pair (mem_of_find?_eq_some hfind)
    exact ⟨htag, hpair⟩

theorem standardDataTag_of_length (d : ℕ) (h : standardLengthTagForData d ≠ 0) :
    standardDataTagForLength (standardLengthTagForData d) ≠ 0 ∧
      isStandardPairTag (standardLengthTagForData d) = true := by
  unfold standardLengthTagForData at h ⊢
  cases hfind : standardLengthDataPairs.find? (·.2 = d) with
  | none => simp [hfind] at h
  | some p =>
    obtain ⟨⟨htag, -⟩, hpair, -⟩ := standardTags_of_pair (mem_of_find?_eq_some hfind)
    exact ⟨htag, hpair⟩

/-- A lookup of either side: the standard pairs, then the callback. -/
def pairLookup (standard : ℕ → ℕ) (callback : Option (ℕ → ℕ)) (tag : ℕ) : ℕ :=
  if isStandardPairTag tag then standard tag
  else match callback with
    | none => 0
    | some lookup => if lookup tag ≠ 0 ∧ isStandardPairTag (lookup tag) = false then lookup tag else 0

/-- What one side finds, the other side finds again: the standard pairs by themselves, the
others since they are looked up in inverse maps. -/
theorem pairLookup_back {standard standard' lookup lookup' : ℕ → ℕ} {installed : Bool}
    (hstandard : ∀ t, standard t ≠ 0 →
      standard' (standard t) ≠ 0 ∧ isStandardPairTag (standard t) = true)
    (hinverse : ∀ t, lookup t ≠ 0 → lookup' (lookup t) = t) (hzero : lookup 0 = 0) {t : ℕ}
    (h : pairLookup standard (if installed then some lookup else none) t ≠ 0) :
    pairLookup standard' (if installed then some lookup' else none)
      (pairLookup standard (if installed then some lookup else none) t) ≠ 0 := by
  unfold pairLookup at h ⊢
  by_cases hpair : isStandardPairTag t = true
  · rw [if_pos hpair] at h ⊢
    obtain ⟨hback, htag⟩ := hstandard t h
    rw [if_pos htag]
    exact hback
  rw [if_neg hpair] at h ⊢
  cases installed with
  | false => exact absurd rfl h
  | true =>
    simp only [if_true] at h ⊢
    split at h
    next hfound =>
      have ht : t ≠ 0 := by
        rintro rfl
        exact hfound.1 hzero
      rw [if_pos hfound, if_neg (by rw [hfound.2]; decide), hinverse t hfound.1,
        if_pos ⟨ht, Bool.eq_false_iff.mpr hpair⟩]
      exact ht
    · exact absurd rfl h

theorem PairHooks.lookups_forTableView (t : LengthPairTable) :
    (forTableView t).dataTagForLength = pairLookup standardDataTagForLength
        (if t.hasNonstandardPair then some t.lengthPairDataTag else Option.none) ∧
      (forTableView t).lengthTagForData = pairLookup standardLengthTagForData
        (if t.hasNonstandardPair then some t.dataPairLengthTag else Option.none) := by
  unfold PairHooks.dataTagForLength PairHooks.lengthTagForData forTableView
  cases t.hasNonstandardPair <;> exact ⟨rfl, rfl⟩

theorem PairHooks.consistent_forTableView (h : t.Inverse) :
    (PairHooks.forTableView t).Consistent := by
  intro l hl
  rw [(lookups_forTableView t).1] at hl ⊢
  rw [(lookups_forTableView t).2]
  exact pairLookup_back standardLengthTag_of_data h.forward h.zero.1 hl

theorem PairHooks.dataTag_of_lengthTag (h : t.Inverse)
    (hd : (PairHooks.forTableView t).lengthTagForData d ≠ 0) :
    (PairHooks.forTableView t).dataTagForLength ((PairHooks.forTableView t).lengthTagForData d) ≠
      0 := by
  rw [(lookups_forTableView t).2] at hd ⊢
  rw [(lookups_forTableView t).1]
  exact pairLookup_back standardDataTag_of_length h.backward h.zero.2 hd

/-! ## Paired fields -/

/-- Every Length is followed by the Data it counts, every other field is of no pair and
ends at the next SOH. -/
inductive Paired (hooks : PairHooks) : List Field → Prop
  | nil : Paired hooks []
  | plain {f : Field} {rest : List Field} (hdata : hooks.lengthTagForData f.1 = 0)
      (hlength : hooks.dataTagForLength f.1 = 0) (hclean : ∀ b ∈ f.2, b ≠ soh)
      (h : Paired hooks rest) : Paired hooks (f :: rest)
  | pair {l d : Field} {rest : List Field} (hdata : hooks.lengthTagForData l.1 = 0)
      (htag : hooks.dataTagForLength l.1 = d.1) (hne : d.1 ≠ 0) (hclean : ∀ b ∈ l.2, b ≠ soh)
      (hcount : parseBoundedU32 0 l.2 = d.2.length) (h : Paired hooks rest) :
      Paired hooks (l :: d :: rest)

theorem Paired.append {a b : List Field} (ha : Paired hooks a) (hb : Paired hooks b) :
    Paired hooks (a ++ b) := by
  induction ha with
  | nil => exact hb
  | plain hdata hlength hclean _ ih => exact .plain hdata hlength hclean ih
  | pair hdata htag hne hclean hcount _ ih => exact .pair hdata htag hne hclean hcount ih

theorem Paired.flatMap {α : Type} {g : α → List Field} {l : List α}
    (h : ∀ x ∈ l, Paired hooks (g x)) : Paired hooks (l.flatMap g) := by
  induction l with
  | nil => exact .nil
  | cons x l ih =>
    rw [flatMap_cons]
    exact (h x mem_cons_self).append (ih fun y hy => h y (mem_cons_of_mem _ hy))

/-! ## What the checker passes -/

def EntryLabel.field (a : EntryLabel) (instances : ℕ) : Field :=
  (a.tag, if a.isGroup then renderU32 instances else a.valueBytes)

/-- The fields of a tree in pre-order: a group's count field, then its instances. -/
def treeFields (entries : List EntryNode) : List Field :=
  Rose.preorder EntryLabel.field EntryLabel.isGroup entries

theorem treeFields_cons (a : EntryLabel) (instances : List (List EntryNode))
    (rest : List EntryNode) : treeFields (.node a instances :: rest) = a.field instances.length ::
        ((if a.isGroup then instances.flatMap treeFields else []) ++ treeFields rest) := by
  unfold treeFields
  rw [Rose.preorder_cons]

/-- The checker over the rest of a container. -/
def LengthDataChecker.passes (hooks : PairHooks) : LengthDataChecker → List EntryNode → Bool
  | c, [] => c.finish
  | c, e :: rest =>
    let observed := c.observe hooks e.label.tag e.label.observedValue
    observed.1 && passes hooks observed.2 rest

/-- The value of a scalar entry that no Length counts is free of SOH. -/
def EntryLabel.CleanFor (hooks : PairHooks) (a : EntryLabel) : Prop :=
  a.isGroup = false → hooks.lengthTagForData a.tag = 0 → ∀ b ∈ a.valueBytes, b ≠ soh

/-- Every container of the tree passes a checker of its own, and its values are clean. -/
inductive Checked (hooks : PairHooks) : List EntryNode → Prop
  | mk {entries : List EntryNode} (hpass : LengthDataChecker.passes hooks {} entries = true)
      (hclean : ∀ e ∈ entries, e.label.CleanFor hooks)
      (hinstances : ∀ e ∈ entries, e.label.isGroup = true → ∀ inst ∈ e.containers,
        Checked hooks inst) : Checked hooks entries

theorem checkedCount_spec (h : checkedCount count value = some n) :
    parseBoundedU32 count value = n ∧ ∀ b ∈ value, b ≠ soh := by
  induction value generalizing count with
  | nil =>
    cases h
    exact ⟨rfl, fun _ hb => (nomatch hb)⟩
  | cons c rest ih =>
    unfold checkedCount at h
    split at h
    · cases h
    rename_i hok
    rw [not_or] at hok
    obtain ⟨hparse, hclean⟩ := ih h
    unfold parseBoundedU32
    rw [if_neg hok.1, if_neg hok.2]
    refine ⟨hparse, forall_mem_cons.mpr ⟨?_, hclean⟩⟩
    exact (ne_of_isDigit (Bool.not_eq_false _ ▸ hok.1)).2

/-- What the checker took a field for. -/
inductive Observed (hooks : PairHooks) (c : LengthDataChecker) (tag : ℕ) (value : Bytes) :
    LengthDataChecker → Prop
  | counted {c' : LengthDataChecker} (hawaits : c.awaitedData ≠ 0) (htag : tag = c.awaitedData)
      (hne : value ≠ []) (hlen : value.length = c.awaitedLen) (hidle : c'.awaitedData = 0)
      (hfailed : c'.failed = false) : Observed hooks c tag value c'
  | plain (hidle : c.awaitedData = 0) (hdata : hooks.lengthTagForData tag = 0)
      (hlength : hooks.dataTagForLength tag = 0) : Observed hooks c tag value c
  | length {c' : LengthDataChecker} {count : ℕ} (hidle : c.awaitedData = 0)
      (hdata : hooks.lengthTagForData tag = 0) (hlength : hooks.dataTagForLength tag ≠ 0)
      (hne : value ≠ []) (hcount : checkedCount 0 value = some count)
      (hawaits : c'.awaitedData = hooks.dataTagForLength tag) (hlen : c'.awaitedLen = count)
      (hfailed : c'.failed = false) : Observed hooks c tag value c'

theorem observed_of_observe (hfailed : c.failed = false) (h : (c.observe hooks tag value).1 = true) :
    Observed hooks c tag value (c.observe hooks tag value).2 := by
  unfold LengthDataChecker.observe at h ⊢
  rw [if_neg (by rw [hfailed]; decide)] at h ⊢
  split at h
  next hawaits =>
    rw [if_pos hawaits]
    obtain ⟨htag, hne, hlen⟩ := of_decide_eq_true h
    refine .counted hawaits htag hne hlen rfl ?_
    simp [htag, hne, hlen]
  next hidle =>
  rw [if_neg hidle]
  rw [not_not] at hidle
  split at h
  · cases h
  rename_i hdata
  rw [if_neg hdata]
  rw [not_not] at hdata
  dsimp only at h ⊢
  split at h
  next hlength =>
    rw [if_pos hlength]
    cases hcount : checkedCount 0 value with
    | none =>
      rw [hcount] at h
      cases h
    | some count =>
      rw [hcount] at h
      dsimp only at h ⊢
      split at h
      · cases h
      next hgood =>
      rw [if_neg hgood]
      rw [not_or] at hgood
      exact .length hidle hdata hlength hgood.1 hcount rfl rfl hfailed
  next hlength =>
    rw [if_neg hlength]
    rw [not_not] at hlength
    exact .plain hidle hdata hlength

theorem renderU32_clean (n : ℕ) : ∀ b ∈ renderU32 n, b ≠ soh :=
  fun _ hb => (ne_of_isDigit (isDigit_of_mem_renderU32 hb)).2

/-- A container that passes, from any state of its checker: paired fields, or the Data the
checker waits for and then paired fields. The instances of its groups are paired already. -/
theorem paired_of_passes
    (hinstances : ∀ e ∈ entries, e.label.isGroup = true → ∀ inst ∈ e.containers,
      Paired hooks (treeFields inst)) (hclean : ∀ e ∈ entries, e.label.CleanFor hooks)
    (hfailed : c.failed = false) (h : c.passes hooks entries = true) :
    (c.awaitedData = 0 → Paired hooks (treeFields entries)) ∧
    (c.awaitedData ≠ 0 → ∃ value rest, treeFields entries = (c.awaitedData, value) :: rest ∧
      value.length = c.awaitedLen ∧ Paired hooks rest) := by
  induction entries generalizing c with
  | nil =>
    have hidle : c.awaitedData = 0 := by
      simpa [LengthDataChecker.passes, LengthDataChecker.finish, hfailed] using h
    exact ⟨fun _ => .nil, fun hne => absurd hidle hne⟩
  | cons e rest ih =>
    obtain ⟨a, instances⟩ := e
    rw [forall_mem_cons] at hinstances hclean
    obtain ⟨hgroup, hinstances⟩ := hinstances
    obtain ⟨hscalar, hclean⟩ := hclean
    rw [LengthDataChecker.passes, Bool.and_eq_true] at h
    obtain ⟨hobserve, hrest⟩ := h
    have hnext := fun hf => ih hinstances hclean (c := (c.observe hooks a.tag a.observedValue).2)
      hf hrest
    rw [treeFields_cons]
    simp only [Rose.label_node, Rose.containers_node] at hgroup hscalar hobserve
    have hspec := observed_of_observe hfailed hobserve
    generalize (c.observe hooks a.tag a.observedValue).2 = c' at hnext hspec
    cases hspec with
    | counted hawaits htag hne hlen hidle hfailed' =>
      -- a group is observed with an empty value, so this is a scalar
      have hkind : a.isGroup = false := by
        by_contra hisgroup
        rw [Bool.not_eq_false] at hisgroup
        exact hne (by rw [observedValue, if_pos hisgroup])
      refine ⟨fun hzero => absurd hzero hawaits, fun _ => ?_⟩
      rw [observedValue, if_neg (by rw [hkind]; decide)] at hlen
      refine ⟨a.valueBytes, treeFields rest, ?_, hlen, (hnext hfailed').1 hidle⟩
      simp [field, hkind, htag]
    | plain hidle hdata hlength =>
      refine ⟨fun _ => ?_, fun hne => absurd hidle hne⟩
      refine .plain hdata hlength ?_ (.append ?_ ((hnext hfailed).1 hidle))
      · unfold field
        split
        · exact renderU32_clean _
        next hkind => exact hscalar (Bool.not_eq_true _ ▸ hkind) hdata
      · split
        next hkind => exact .flatMap (hgroup hkind)
        · exact .nil
    | length hidle hdata hlength hne hcount hawaits hlen hfailed' =>
      have hkind : a.isGroup = false := by
        by_contra hisgroup
        rw [Bool.not_eq_false] at hisgroup
        exact hne (by rw [observedValue, if_pos hisgroup])
      rw [observedValue, if_neg (by rw [hkind]; decide)] at hcount
      obtain ⟨hparse, hdigits⟩ := checkedCount_spec hcount
      refine ⟨fun _ => ?_, fun hne => absurd hidle hne⟩
      obtain ⟨value, fields, hfields, hvalue, hpaired⟩ :=
        (hnext hfailed').2 (by rw [hawaits]; exact hlength)
      have hfield : a.field instances.length = (a.tag, a.valueBytes) := by
        simp [field, hkind]
      rw [hkind, hfield, hfields, hawaits]
      exact .pair hdata rfl hlength hdigits (by rw [hparse, hvalue, hlen]) hpaired

theorem Checked.paired (h : Checked hooks entries) : Paired hooks (treeFields entries) := by
  induction h with
  | mk hpass hclean _ ih => exact (paired_of_passes ih hclean rfl hpass).1 rfl

/-! ## Reading paired fields -/

/-- What a reader that carries `tag` and `count` may have in front of it: paired fields,
with a carry that none of them takes up; the Data of the carry and then paired fields; or a
first field without a carry. -/
inductive ReadyFor (hooks : PairHooks) : ℕ → ℕ → List Field → Prop
  | between {tag count : ℕ} {fields : List Field}
      (hidle : tag ≠ 0 → hooks.lengthTagForData tag ≠ 0) (h : Paired hooks fields) :
      ReadyFor hooks tag count fields
  | counted {d : Field} {rest : List Field} (hne : d.1 ≠ 0) (h : Paired hooks rest) :
      ReadyFor hooks d.1 d.2.length (d :: rest)
  | lead {count : ℕ} {f : Field} {rest : List Field} (hclean : ∀ b ∈ f.2, b ≠ soh)
      (h : Paired hooks rest) : ReadyFor hooks 0 count (f :: rest)

theorem endsRight_of_idle (hidle : tag ≠ 0 → hooks.lengthTagForData tag ≠ 0)
    (hdata : hooks.lengthTagForData f.1 = 0) (hclean : ∀ b ∈ f.2, b ≠ soh) :
    ¬(tag ≠ 0 ∧ tag = f.1) ∧ EndsRight ⟨tag, count⟩ f := by
  have hneq : ¬(tag ≠ 0 ∧ tag = f.1) := by
    rintro ⟨hne, rfl⟩
    exact hidle hne hdata
  unfold EndsRight
  rw [if_neg hneq]
  exact ⟨hneq, hclean⟩

/-- One field. Its value ends right, and a reader that arms its carry with the field's own pair, or
leaves it alone behind a counted value, is ready for the rest. The count it reads matters only where
it is the length of the next value. -/
theorem ReadyFor.step (hcons : hooks.Consistent) (h : ReadyFor hooks tag count (f :: rest)) :
    EndsRight ⟨tag, count⟩ f ∧ ∀ tag' count' : ℕ, (tag' = hooks.dataTagForLength f.1 ∧
        (tag' ≠ 0 → ∀ d ∈ rest.head?, parseBoundedU32 0 f.2 = d.2.length → count' = d.2.length)) ∨
        (tag ≠ 0 ∧ tag = f.1 ∧ tag' = 0) →
      ReadyFor hooks tag' count' rest := by
  have harmed : ∀ tag' : ℕ, tag' = hooks.dataTagForLength f.1 ∨ tag' = 0 → tag' ≠ 0 →
      hooks.lengthTagForData tag' ≠ 0 := by
    rintro tag' (rfl | rfl) hne
    · exact hcons f.1 hne
    · exact absurd rfl hne
  have hpairs : ∀ tag' count' : ℕ, (tag' = hooks.dataTagForLength f.1 ∧
        (tag' ≠ 0 → ∀ d ∈ rest.head?, parseBoundedU32 0 f.2 = d.2.length → count' = d.2.length)) ∨
        (tag ≠ 0 ∧ tag = f.1 ∧ tag' = 0) → Paired hooks rest →
      ReadyFor hooks tag' count' rest :=
    fun tag' count' hnext hrest =>
      .between (harmed tag' (hnext.imp (fun h => h.1) fun h => h.2.2)) hrest
  cases h with
  | counted hne hrest =>
    refine ⟨?_, fun tag' count' hnext => hpairs tag' count' hnext hrest⟩
    unfold EndsRight
    rw [if_pos ⟨hne, rfl⟩]
  | lead hclean hrest =>
    refine ⟨?_, fun tag' count' hnext => hpairs tag' count' hnext hrest⟩
    exact hclean
  | between hidle hfields =>
    cases hfields with
    | plain hdata hlength hclean hrest =>
      refine ⟨(endsRight_of_idle hidle hdata hclean).2, fun tag' count' hnext => ?_⟩
      exact hpairs tag' count' hnext hrest
    | @pair _ d fields hdata htag hne hclean hcount hrest =>
      have hends : ¬(tag ≠ 0 ∧ tag = f.1) ∧ EndsRight ⟨tag, count⟩ f :=
        endsRight_of_idle hidle hdata hclean
      refine ⟨hends.2, fun tag' count' hnext => ?_⟩
      rcases hnext with ⟨rfl, hlen⟩ | ⟨hne', heq, -⟩
      · rw [htag] at hlen ⊢
        rw [hlen hne d rfl hcount]
        exact .counted hne hrest
      · exact absurd ⟨hne', heq⟩ hends.1

theorem ReadyFor.readable (hcons : hooks.Consistent) (htags : ∀ f ∈ fields, f.1 ≤ tagMax)
    {carry : LengthDataCarry} (h : ReadyFor hooks carry.dataTag carry.count fields) :
    Readable hooks.dataTagForLength carry fields := by
  induction fields generalizing carry with
  | nil => trivial
  | cons f rest ih =>
    rw [forall_mem_cons] at htags
    obtain ⟨hends, hnext⟩ := h.step hcons
    refine ⟨htags.1, hends, ih htags.2 (hnext _ _ (.inl ⟨rfl, fun hpair d _ hcount => ?_⟩))⟩
    exact (if_pos hpair).trans hcount

theorem splitFields_paired (hcons : hooks.Consistent) (hlead : ∀ b ∈ lead.2, b ≠ soh)
    (hfields : Paired hooks fields) (htags : ∀ f ∈ lead :: fields, f.1 ≤ tagMax) :
    splitFields hooks.dataTagForLength ((lead :: fields).flatMap fieldBytes) = lead :: fields ∧
      (headerCut hooks.dataTagForLength ((lead :: fields).flatMap fieldBytes)).malformedAt = none :=
  splitFields_rendered (ReadyFor.readable hcons htags (.lead hlead hfields))

/-! ## The offset table of paired fields -/

theorem carriedRead_rendered (count : Bytes → ℕ) (hooks : DictHooks) (n : ℕ) (htag : f.1 ≤ tagMax)
    (hend : EndsRight ⟨carry.tag, carry.len⟩ f) (rest : Bytes) :
    carriedRead count hooks n carry (fieldBytes f ++ rest) =
      some ({ tag := f.1, start := n - (f.2 ++ soh :: rest).length
              stop := n - (f.2 ++ soh :: rest).length + f.2.length }, rest,
        nextCarry count hooks carry f.1 f.2) := by
  have hvalue : carriedValue carry f.1 (f.2 ++ soh :: rest) = some (f.2, soh :: rest) :=
    carriedValue_iff.mpr ⟨rfl, hend, .inr ⟨rest, rfl⟩⟩
  unfold carriedRead
  rw [fieldBytes_append, readTag_rendered htag]
  dsimp only
  rw [hvalue]
  rfl

theorem length_lt_fieldBytes (f : Field) : f.2.length < (fieldBytes f).length := by
  simp only [fieldBytes, length_append, length_cons]
  omega

theorem tableCount_eq {m : ℕ} (hn : n < 2 ^ 32) (hvalue : value.length < n)
    (hcount : parseBoundedU32 0 value = m) (hm : m < n) : tableCount n value = m := by
  have hmin := min_declaredLength_zero hn value hvalue
  rw [hcount] at hmin
  unfold tableCount
  omega

def TableReady (hooks : PairHooks) (carry : PendingData) (fields : List Field) : Prop :=
  ReadyFor hooks carry.tag carry.len fields ∧ ∀ f ∈ fields, f.1 ≤ tagMax

theorem TableReady.next {hooks : PairHooks} (hcons : hooks.Consistent) (hn : n < 2 ^ 32) {f : Field}
    (h : TableReady hooks carry (f :: rest))
    (hlen : (fieldBytes f ++ rest.flatMap fieldBytes).length ≤ n) :
    TableReady hooks (nextCarry (tableCount n) hooks.dataTagForLength carry f.1 f.2) rest := by
  obtain ⟨-, hnext⟩ := h.1.step hcons
  rw [length_append] at hlen
  have hf := length_lt_fieldBytes f
  refine ⟨hnext _ _ ?_, (forall_mem_cons.mp h.2).2⟩
  unfold nextCarry
  by_cases hcounted : carry.tag ≠ 0 ∧ carry.tag = f.1
  · rw [if_pos hcounted]
    exact .inr ⟨hcounted.1, hcounted.2, rfl⟩
  rw [if_neg hcounted]
  refine .inl ?_
  by_cases hpair : hooks.dataTagForLength f.1 ≠ 0
  · rw [if_pos hpair]
    refine ⟨rfl, fun _ d hd hcount => tableCount_eq hn (by omega) hcount ?_⟩
    cases rest with
    | nil => cases hd
    | cons d' rest =>
      cases hd
      have hd := length_lt_fieldBytes d
      rw [flatMap_cons, length_append] at hlen
      omega
  · rw [if_neg hpair]
    rw [not_not] at hpair
    exact ⟨hpair.symm, fun hne => absurd rfl hne⟩

theorem TableReady.cut (hcons : hooks.Consistent) (hlen : frame.length < 2 ^ 32) {fuel : ℕ}
    (h : TableReady hooks carry fields) (hfuel : fields.length ≤ fuel)
    (hsuffix : fields.flatMap fieldBytes <:+ frame) :
    let c := (carriedRead (tableCount frame.length) hooks.dataTagForLength frame.length).cut fuel
      carry (fields.flatMap fieldBytes)
    c.items.map (fun f => (f.tag, f.value frame)) = fields ∧ c.stuck = none := by
  refine Reader.cut_written fieldBytes_ne_nil (fun carry f rest hready hsuffix => ?_) fields h hfuel
    hsuffix
  obtain ⟨hend, -⟩ := hready.1.step hcons
  have hread := carriedRead_rendered (tableCount frame.length) hooks.dataTagForLength frame.length
    (hready.2 f mem_cons_self) hend (rest.flatMap fieldBytes)
  refine ⟨_, _, hread, ?_, hready.next hcons hlen hsuffix.length_le⟩
  have hvalue : f.2 ++ soh :: rest.flatMap fieldBytes <:+ frame := by
    rw [fieldBytes_append] at hsuffix
    exact List.IsSuffix.trans ⟨renderU32 f.1 ++ [equalsSign], by simp⟩ hsuffix
  unfold FieldSpan.value
  rw [← suffix_iff_eq_drop.mp hvalue, Nat.add_sub_cancel_left, take_left]

def tableFields (table : OffsetTable) (frame : Bytes) : List Field :=
  table.entries.map fun e => (e.tag, e.span.value frame)

theorem build_paired (hcons : hooks.Consistent) (hlead : ∀ b ∈ lead.2, b ≠ soh)
    (hfields : Paired hooks fields) (htags : ∀ f ∈ lead :: fields, f.1 ≤ tagMax)
    (hframe : frame = (lead :: fields).flatMap fieldBytes) (hlen : frame.length < 2 ^ 32) {cap : ℕ}
    (hcap : (lead :: fields).length ≤ cap) :
    (OffsetTable.build cap hooks.dataTagForLength frame).status = .ok ∧
      tableFields (OffsetTable.build cap hooks.dataTagForLength frame) frame = lead :: fields := by
  have hready : TableReady hooks {} (lead :: fields) := ⟨.lead hlead hfields, htags⟩
  have hfuel : (lead :: fields).length ≤ frame.length := by
    rw [hframe]
    exact length_le_flatMap_fieldBytes _
  obtain ⟨hitems, hstuck⟩ := hready.cut hcons hlen hfuel (hframe ▸ suffix_refl _)
  rw [← hframe] at hitems hstuck
  have hcount := congrArg length hitems
  rw [length_map] at hcount
  obtain ⟨hentries, hfits, -⟩ := buildLoop_eq cap hooks.dataTagForLength frame.length frame.length
    [] {} frame (Nat.zero_le _)
  simp only [nil_append, length_nil, Nat.sub_zero, Nat.zero_add] at hentries hfits
  have hok := (hfits (by omega)).1 hstuck
  rw [take_of_length_le (by omega)] at hentries
  unfold tableFields OffsetTable.build OffsetTable.buildEnd
  dsimp only
  rw [hok, if_pos rfl, hentries, map_map]
  refine ⟨rfl, ?_⟩
  conv_rhs => rw [← hitems]
  apply map_congr_left
  intro f hf
  obtain ⟨hstart, hstop⟩ := carriedRead_within f hf
  have hspan := span_ofSpan hlen hstart hstop
  rw [Function.comp_apply, hspan]
  rfl

end Fixpp.Model
