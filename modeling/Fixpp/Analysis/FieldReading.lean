import Fixpp.Model.FieldReaders
import Fixpp.Model.OutboundFrame

/-!
# Reading a field

What the digit loop of a tag and the reading of a value take off the front of the
bytes, and what the header scan makes of the fields it cuts
(`scanFrameHeader_eq`).
-/

namespace Fixpp.Model

open Foundation List

variable {digits frame : Bytes} {b : UInt8} {started : Bool}

/-! ## The tag -/

/-- The tag and the bytes behind the equals sign the digit loop stopped at. -/
def TagStop.field : TagStop → Option (ℕ × Bytes)
  | .at tag (b :: value) => if b = equalsSign then some (tag, value) else none
  | _ => none

theorem isDigit_soh : isDigit soh = false := rfl

theorem readTag_true (bytes : Bytes) (tag : ℕ) :
    readTag true tag bytes = (scanTag tag bytes).field := by
  induction bytes generalizing tag with
  | nil => rfl
  | cons b rest ih =>
    unfold readTag scanTag
    by_cases heq : b = equalsSign
    · simp [heq, TagStop.field]
    by_cases hsoh : b = soh
    · simp [hsoh, TagStop.field, isDigit_soh, show ¬soh = equalsSign by decide]
    by_cases hdigit : isDigit b = false
    · simp [heq, hsoh, hdigit, TagStop.field]
    simp only [heq, hsoh, hdigit, if_false, or_self]
    cases accumulateTagDigit tag b with
    | none => rfl
    | some tag' => exact ih tag'

variable {tag tag' : ℕ} {bytes rest value v : Bytes} {carry carry' : LengthDataCarry}
    {hooks : DictHooks}

theorem length_of_scanTag (h : scanTag tag bytes = .at tag' rest) : rest.length ≤ bytes.length := by
  induction bytes generalizing tag with
  | nil =>
    cases h
    exact Nat.le_refl _
  | cons b bytes ih =>
    unfold scanTag at h
    split at h
    · cases h
      exact Nat.le_refl _
    split at h
    · cases h
    split at h
    · cases h
    · exact Nat.le_succ_of_le (ih h)

/-- The header scan reads a tag as the other readers do: an equals sign with a
digit in front of it. -/
theorem readTag_eq (b : UInt8) (bytes : Bytes) : readTag false 0 (b :: bytes) =
      match scanTag 0 (b :: bytes) with
      | .at tag (e :: value) =>
        if e ≠ equalsSign ∨ value.length + 1 = (b :: bytes).length then none
        else some (tag, value)
      | _ => none := by
  unfold readTag scanTag
  by_cases heq : b = equalsSign
  · simp [heq]
  by_cases hsoh : b = soh
  · simp [hsoh, isDigit_soh, show ¬soh = equalsSign by decide]
  by_cases hdigit : isDigit b = false
  · simp [heq, hsoh, hdigit]
  simp only [heq, hsoh, hdigit, Bool.true_eq_false, if_false, or_self]
  cases accumulateTagDigit 0 b with
  | none => rfl
  | some tag =>
    dsimp only
    rw [readTag_true]
    cases hstop : scanTag tag bytes with
    | nonDigit => rfl
    | outOfRange => rfl
    | «at» tag' rest =>
      cases rest with
      | nil => rfl
      | cons e value =>
        have hlen := length_of_scanTag hstop
        have hne : ¬value.length + 1 = (b :: bytes).length := by
          simp only [length_cons] at hlen ⊢
          omega
        by_cases he : e = equalsSign
        · simp only [TagStop.field, he, hne, ne_eq, not_true, or_self, if_true, if_false]
        · simp [TagStop.field, he]

/-! ## The digits of a tag -/

def tagFrom (tag : ℕ) (digits : Bytes) : Option ℕ :=
  digits.foldl (fun acc c => acc.bind fun tag =>
    if isDigit c then accumulateTagDigit tag c else none) (some tag)

theorem looseTag_eq (digits : Bytes) : looseTag digits = tagFrom 0 digits := rfl

theorem parseOutboundTag_eq (digits : Bytes) : parseOutboundTag digits =
    if digits = [] ∨ digits.head? = some 48 then none else tagFrom 0 digits := rfl

theorem tagFrom_cons (tag : ℕ) (c : UInt8) (digits : Bytes) : tagFrom tag (c :: digits) =
    if isDigit c then (accumulateTagDigit tag c).bind fun tag' => tagFrom tag' digits else none := by
  have hnone : ∀ ds : Bytes, ds.foldl (fun acc c => acc.bind fun tag =>
      if isDigit c then accumulateTagDigit tag c else none) none = (none : Option ℕ) := by
    intro ds
    induction ds with
    | nil => rfl
    | cons d ds ih => exact ih
  unfold tagFrom
  rw [foldl_cons, Option.bind_some]
  split
  · cases accumulateTagDigit tag c with
    | none => exact hnone digits
    | some tag' => rfl
  · exact hnone digits

theorem tagFrom_cons_iff {c : UInt8} : tagFrom tag (c :: digits) = some tag' ↔
      isDigit c = true ∧ ∃ t, accumulateTagDigit tag c = some t ∧ tagFrom t digits = some tag' := by
  rw [tagFrom_cons, Option.ite_none_right_eq_some, Option.bind_eq_some_iff]

theorem isDigit_of_tagFrom (h : tagFrom tag digits = some tag') :
    ∀ b ∈ digits, isDigit b = true := by
  induction digits generalizing tag with
  | nil =>
    intro b hb
    cases hb
  | cons c digits ih =>
    obtain ⟨hc, t, -, hrest⟩ := tagFrom_cons_iff.mp h
    exact forall_mem_cons.mpr ⟨hc, ih hrest⟩

theorem ne_of_isDigit (h : isDigit b = true) : b ≠ equalsSign ∧ b ≠ soh := by
  constructor
  · rintro rfl
    exact absurd h (by decide)
  rintro rfl
  exact absurd h (by decide)

theorem readTag_cons_iff :
    readTag started tag (b :: bytes) = some (tag', value) ↔
      (b = equalsSign ∧ started = true ∧ tag = tag' ∧ bytes = value) ∨
      isDigit b = true ∧ ∃ t, accumulateTagDigit tag b = some t ∧
        readTag true t bytes = some (tag', value) := by
  rw [readTag]
  by_cases heq : b = equalsSign
  · subst heq
    cases started <;> simp [show isDigit equalsSign = false from rfl]
  cases hdigit : isDigit b with
  | false => simp [heq]
  | true => cases accumulateTagDigit tag b <;> simp [heq]

theorem readTag_started_iff : readTag started tag bytes = some (tag', value) ↔
      ∃ digits, (started = true ∨ digits ≠ []) ∧ bytes = digits ++ equalsSign :: value ∧
        tagFrom tag digits = some tag' := by
  induction bytes generalizing started tag with
  | nil => simp [readTag]
  | cons b bytes ih =>
    rw [readTag_cons_iff]
    constructor
    · rintro (⟨rfl, hstarted, rfl, rfl⟩ | ⟨hb, t, hacc, hread⟩)
      · exact ⟨[], .inl hstarted, rfl, rfl⟩
      obtain ⟨digits, -, rfl, htag⟩ := ih.mp hread
      exact ⟨b :: digits, .inr (by simp), rfl, tagFrom_cons_iff.mpr ⟨hb, t, hacc, htag⟩⟩
    rintro ⟨digits, hstarted, hbytes, htag⟩
    cases digits with
    | nil =>
      cases hbytes
      cases htag
      exact .inl ⟨rfl, hstarted.resolve_right (by simp), rfl, rfl⟩
    | cons c digits =>
      obtain ⟨rfl, hrest⟩ := cons.inj hbytes
      obtain ⟨hb, t, hacc, htag⟩ := tagFrom_cons_iff.mp htag
      exact .inr ⟨hb, t, hacc, ih.mpr ⟨digits, .inl rfl, hrest, htag⟩⟩

theorem readTag_iff : readTag false 0 bytes = some (tag, value) ↔
      ∃ digits, digits ≠ [] ∧ bytes = digits ++ equalsSign :: value ∧
        tagFrom 0 digits = some tag := by
  simp [readTag_started_iff]

theorem suffix_of_readTag (h : readTag false 0 bytes = some (tag, value)) : value <:+ bytes := by
  obtain ⟨digits, -, rfl, -⟩ := readTag_iff.mp h
  exact (suffix_cons _ _).trans (suffix_append _ _)

theorem length_of_readTag (h : readTag false 0 bytes = some (tag, value)) :
    value.length + 2 ≤ bytes.length := by
  obtain ⟨digits, hne, rfl, -⟩ := readTag_iff.mp h
  have hpos := length_pos_iff.mpr hne
  rw [length_append, length_cons]
  omega

theorem span_digits (h : ∀ b ∈ digits, isDigit b = true) :
    (digits ++ equalsSign :: rest).span (fun b => b ≠ equalsSign ∧ b ≠ soh) =
      (digits, equalsSign :: rest) := by
  have hall : ∀ b ∈ digits, decide (b ≠ equalsSign ∧ b ≠ soh) = true := by
    intro b hb
    exact decide_eq_true (ne_of_isDigit (h b hb))
  have hstop : decide (equalsSign ≠ equalsSign ∧ equalsSign ≠ soh) = false := by decide
  rw [span_eq_takeWhile_dropWhile, takeWhile_append_of_pos hall,
    dropWhile_append_of_pos hall, takeWhile_cons, dropWhile_cons, hstop]
  simp

/-! ## The value -/

theorem countedValue_iff {count : ℕ} : countedValue bytes count = some (v, rest) ↔
      v ++ rest = bytes ∧ v.length = count ∧ ∃ tail, rest = soh :: tail := by
  constructor
  · intro h
    unfold countedValue at h
    split at h
    next b tail hdrop =>
      split at h
      next hb =>
        cases h
        have hlen := congrArg length hdrop
        simp only [length_drop, length_cons] at hlen
        refine ⟨by rw [← hdrop, take_append_drop], ?_, tail, by rw [hb]⟩
        rw [length_take]
        omega
      · cases h
    · cases h
  · rintro ⟨rfl, rfl, tail, rfl⟩
    simp [countedValue]

theorem append_of_splitValue (bytes : Bytes) :
    (splitValue bytes).1 ++ (splitValue bytes).2 = bytes := by
  unfold splitValue
  rw [span_eq_takeWhile_dropWhile]
  exact takeWhile_append_dropWhile

theorem rest_of_splitValue (bytes : Bytes) :
    (splitValue bytes).2 = [] ∨ ∃ rest, (splitValue bytes).2 = soh :: rest := by
  unfold splitValue
  rw [span_eq_takeWhile_dropWhile]
  have hhead := head?_dropWhile_not (fun b : UInt8 => decide (b ≠ soh)) bytes
  cases hdrop : bytes.dropWhile fun b => decide (b ≠ soh) with
  | nil => exact .inl rfl
  | cons b rest =>
    rw [hdrop] at hhead
    exact .inr ⟨rest, by rw [show b = soh by simpa using hhead]⟩

theorem not_soh_of_splitValue (bytes : Bytes) : ∀ b ∈ (splitValue bytes).1, b ≠ soh := by
  intro b hb
  unfold splitValue at hb
  rw [span_eq_takeWhile_dropWhile] at hb
  have htaken := mem_takeWhile_imp hb
  exact of_decide_eq_true htaken

theorem splitValue_append (hv : ∀ b ∈ v, b ≠ soh) (hrest : rest = [] ∨ ∃ tail, rest = soh :: tail) :
    splitValue (v ++ rest) = (v, rest) := by
  have hall : ∀ b ∈ v, decide (b ≠ soh) = true := fun b hb => decide_eq_true (hv b hb)
  unfold splitValue
  rw [span_eq_takeWhile_dropWhile, takeWhile_append_of_pos hall, dropWhile_append_of_pos hall]
  rcases hrest with rfl | ⟨tail, rfl⟩
  · simp
  · simp

def LengthDataCarry.next (hooks : DictHooks) (carry : LengthDataCarry) (f : Field) :
    LengthDataCarry :=
  { dataTag := hooks f.1
    count := if hooks f.1 ≠ 0 then parseBoundedU32 0 f.2 else carry.count }

/-- The value of a field ends where the reader looks for its end. -/
def EndsRight (carry : LengthDataCarry) (f : Field) : Prop :=
  if carry.dataTag ≠ 0 ∧ carry.dataTag = f.1 then f.2.length = carry.count
  else ∀ b ∈ f.2, b ≠ soh

/-- The value of a field, counted or not: it ends right, and an SOH or, when it is not
counted, the end of the frame follows. -/
theorem valueAt_iff {dataTag count : ℕ} :
    (if dataTag ≠ 0 ∧ dataTag = tag then countedValue value count else some (splitValue value)) =
        some (v, rest) ↔
      v ++ rest = value ∧ EndsRight ⟨dataTag, count⟩ (tag, v) ∧
        (rest = [] ∧ ¬(dataTag ≠ 0 ∧ dataTag = tag) ∨ ∃ tail, rest = soh :: tail) := by
  unfold EndsRight
  split
  next hcounted => simp only [countedValue_iff, not_not.mpr hcounted, and_false, false_or]
  rename_i hplain
  rw [Option.some.injEq]
  constructor
  · intro h
    have happend := append_of_splitValue value
    have hclean := not_soh_of_splitValue value
    have hrest := rest_of_splitValue value
    rw [h] at happend hclean hrest
    exact ⟨happend, hclean, hrest.imp_left fun hnil => ⟨hnil, hplain⟩⟩
  · rintro ⟨rfl, hclean, hrest⟩
    exact splitValue_append hclean (hrest.imp_left And.left)

theorem readValue_iff : carry.readValue hooks tag value = some (v, rest, carry') ↔
      v ++ rest = value ∧ EndsRight carry (tag, v) ∧
        (rest = [] ∧ ¬(carry.dataTag ≠ 0 ∧ carry.dataTag = tag) ∨ ∃ tail, rest = soh :: tail) ∧
        carry' = carry.next hooks (tag, v) := by
  rw [← and_assoc, ← and_assoc, and_assoc (b := EndsRight _ _), ← valueAt_iff]
  unfold LengthDataCarry.readValue
  dsimp only
  split
  next hnone => simp [hnone]
  next v' rest' hsome =>
  rw [hsome]
  constructor
  · intro h
    cases h
    exact ⟨rfl, rfl⟩
  rintro ⟨hvalue, rfl⟩
  cases hvalue
  rfl

theorem append_of_readValue (h : carry.readValue hooks tag value = some (v, rest, carry')) :
    v ++ rest = value :=
  (readValue_iff.mp h).1

theorem rest_of_readValue (h : carry.readValue hooks tag value = some (v, rest, carry')) :
    rest = [] ∨ ∃ rest', rest = soh :: rest' :=
  (readValue_iff.mp h).2.2.1.imp_left And.left

theorem value_eq_of_suffix (hsuffix : value <:+ frame) (happend : v ++ rest = value) :
    FieldSpan.value frame
      { tag := tag, start := frame.length - value.length, stop := frame.length - rest.length } = v := by
  have hdrop := suffix_iff_eq_drop.mp hsuffix
  have hle := hsuffix.length_le
  have hlen := congrArg length happend
  rw [length_append] at hlen
  have htake : frame.length - rest.length - (frame.length - value.length) = v.length := by omega
  unfold FieldSpan.value
  rw [← hdrop, htake, ← happend, take_left]

/-! ## What the header scan keeps of its cut -/

/-- The scan behind a field: the member of the field is set. The carry is no part of
what the scan returns. -/
def HeaderScanState.readSpan (frame : Bytes) (st : HeaderScanState) (f : FieldSpan) :
    HeaderScanState :=
  { header := st.header.setMember f.tag (f.value frame) (st.fieldNo + 1) st.seen34
    carry := {}
    prevTag := f.tag
    fieldNo := st.fieldNo + 1
    seen34 := st.seen34 || f.tag == 34 }

@[simp] theorem FrameHeader.fault_setMember (h : FrameHeader) (tag : ℕ) (value : Bytes)
    (fieldNo : ℕ) (seen34 : Bool) : (h.setMember tag value fieldNo seen34).fault = h.fault := by
  unfold FrameHeader.setMember
  split <;> first | rfl | (split <;> rfl)

theorem headerRead_some (hsuffix : b :: bytes <:+ frame)
    (htag : readTag false 0 (b :: bytes) = some (tag, value))
    (hv : carry.readValue hooks tag value = some (v, rest, carry')) : let f : FieldSpan :=
      { tag := tag, start := frame.length - value.length, stop := frame.length - rest.length }
    headerRead hooks frame.length carry (b :: bytes) = some (f, rest.drop 1, carry') ∧
      rest.drop 1 <:+ frame ∧ (rest.drop 1).length ≤ bytes.length ∧ f.value frame = v := by
  have hvalue := (suffix_of_readTag htag).trans hsuffix
  have happend := append_of_readValue hv
  refine ⟨by simp only [headerRead, htag, hv], ?_, ?_, value_eq_of_suffix hvalue happend⟩
  · exact (drop_suffix 1 rest).trans ((happend ▸ suffix_append v rest).trans hvalue)
  have hlen := length_of_readTag htag
  have hsum := congrArg length happend
  rw [length_append] at hsum
  rw [length_drop]
  rw [length_cons] at hlen
  omega

/-- The header scan returns the members of the fields of its cut, with a fault if and
only if the cut stuck. -/
theorem scanFields_eq (hooks : DictHooks) (fuel : ℕ) (st st' : HeaderScanState) (bytes : Bytes)
    (hfuel : bytes.length ≤ fuel) (hsuffix : bytes <:+ frame) (hheader : st.header = st'.header)
    (hno : st.fieldNo = st'.fieldNo) (hseen : st.seen34 = st'.seen34)
    (hfault : st.header.fault = .none) :
    let c := (headerRead hooks frame.length).cut fuel st.carry bytes
    ∃ fault lengthTag, scanFields hooks fuel st bytes =
        { (c.items.foldl (.readSpan frame) st').header with
          fault := fault, faultLengthTag := lengthTag } ∧
      (fault = .none ↔ c.stuck = none) := by
  induction fuel generalizing st st' bytes with
  | zero =>
    have hnil : bytes = [] := eq_nil_of_length_eq_zero (by omega)
    subst hnil
    refine ⟨.none, st.header.faultLengthTag, ?_, by simp⟩
    simp [scanFields, hheader, ← hfault]
  | succ fuel ih =>
    cases bytes with
    | nil =>
      refine ⟨.none, st.header.faultLengthTag, ?_, by simp⟩
      simp [scanFields, hheader, ← hfault]
    | cons b bytes =>
      unfold scanFields
      cases htag : readTag false 0 (b :: bytes) with
      | none =>
        have hread : headerRead hooks frame.length st.carry (b :: bytes) = none := by
          simp [headerRead, htag]
        rw [Reader.cut_of_none hread]
        refine ⟨.malformedTag, st.header.faultLengthTag, ?_, by simp⟩
        simp [hheader]
      | some field =>
        obtain ⟨tag, value⟩ := field
        dsimp only
        cases hv : st.carry.readValue hooks tag value with
        | none =>
          have hread : headerRead hooks frame.length st.carry (b :: bytes) = none := by
            simp [headerRead, htag, hv]
          rw [Reader.cut_of_none hread]
          refine ⟨.lengthDataMismatch, st.prevTag, ?_, by simp⟩
          simp [hheader]
        | some r =>
          obtain ⟨hread, hrest, hshort, hval⟩ := headerRead_some hsuffix htag hv
          rw [length_cons] at hfuel
          rw [Reader.cut_of_some hread]
          apply ih _ _ _ (by omega) hrest
          · simp [HeaderScanState.readSpan, hval, hheader, hno, hseen]
          · simp [HeaderScanState.readSpan, hno]
          · simp [HeaderScanState.readSpan, hseen]
          · simp [FrameHeader.fault_setMember, hfault]

theorem scanFrameHeader_eq (hooks : DictHooks) (frame : Bytes) : ∃ fault lengthTag,
      scanFrameHeader hooks frame =
        { ((headerCut hooks frame).fields.foldl (HeaderScanState.readSpan frame) {}).header with
          fault := fault, faultLengthTag := lengthTag } ∧
      (fault = .none ↔ (headerCut hooks frame).malformedAt = none) := by
  obtain ⟨fault, lengthTag, hscan, hfault⟩ := scanFields_eq hooks frame.length {} {} frame
    (Nat.le_refl _) (suffix_refl _) rfl rfl rfl rfl
  refine ⟨fault, lengthTag, hscan, ?_⟩
  rw [hfault]
  simp [headerCut]

end Fixpp.Model
