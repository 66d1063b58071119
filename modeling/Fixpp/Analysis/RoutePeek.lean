import Fixpp.Analysis.FieldReading

/-!
# The route peek and the header scan

The header scan cuts a frame into fields up to the first it cannot read. The peek is a walk over
that same list (`walkFields_eq`): it reads the first three fields and those in front of the
first field whose tag is no header tag.
-/

namespace Fixpp.Model

open Foundation

/-- A field as the header scan meets it: read to its end, with a count that does not fit
its value, or without a readable tag. -/
inductive SeenField
  | read (tag : ℕ) (value : Bytes)
  | badValue (tag : ℕ)
  | badTag
  deriving DecidableEq, Repr

def SeenField.ofStuck (bytes : Bytes) : SeenField :=
  match readTag false 0 bytes with
  | none => .badTag
  | some (tag, _) => .badValue tag

def seenOf (frame : Bytes) (c : Cut FieldSpan UInt8) : List SeenField :=
  c.items.map (fun f => .read f.tag (f.value frame)) ++ (c.stuck.map SeenField.ofStuck).toList

/-- The fields of a frame as the header scan meets them. -/
def seenFields (hooks : DictHooks) (frame : Bytes) : List SeenField :=
  seenOf frame ((headerRead hooks frame.length).cut frame.length {} frame)

def SeenField.wellFormed : SeenField → Bool
  | .read _ _ => true
  | _ => false

def SeenField.valueOf (tag : ℕ) : SeenField → Option Bytes
  | .read t v => if t = tag then some v else none
  | _ => none

def SeenField.stops (table : RouteTable) : SeenField → Bool
  | .read tag _ | .badValue tag => !table.isWalked tag
  | .badTag => false

/-- The fields in front of the stop, all of them if there is none. -/
def beforeStop (table : RouteTable) (fields : List SeenField) : List SeenField :=
  fields.takeWhile fun f => !f.stops table

/-! ## The walk, over the fields of the scan -/

/-- The loop of `walk_fixt_header` over fields instead of bytes. -/
def walkSeen {σ : Type} (table : RouteTable) (onField : OnField σ) :
    ℕ → Bool → List SeenField → σ → Bool × σ
  | _, _, [], acc => (true, acc)
  | fieldNo, pastStop, f :: fields, acc =>
    if pastStop && decide (msgTypeField ≤ fieldNo) then (true, acc)
    else if (pastStop || f.stops table) && decide (msgTypeField < fieldNo + 1) then (true, acc)
    else match f with
      | .read tag v =>
        walkSeen table onField (fieldNo + 1) (pastStop || f.stops table) fields
          (onField (fieldNo + 1) tag v (pastStop || f.stops table) acc)
      | _ => (false, acc)

section Walk

variable {σ : Type} {hooks : DictHooks} {table : RouteTable} {onField : OnField σ} {frame : Bytes}
    (m : ℕ) (p : Bool) (f : SeenField) (fields : List SeenField) (acc : σ)

theorem walkSeen_badTag :
    walkSeen table onField m p (.badTag :: fields) acc = (p && decide (msgTypeField ≤ m), acc) := by
  cases hp : p && decide (msgTypeField ≤ m) with
  | true => simp [walkSeen, hp]
  | false =>
    have hlt : (p && decide (msgTypeField < m + 1)) = false := by
      rw [← hp]
      simp only [Nat.lt_succ_iff]
    simp [walkSeen, SeenField.stops, hp]

theorem walkFields_eq (fuel : ℕ) (carry : LengthDataCarry) (m : ℕ) (p : Bool) (bytes : Bytes)
    (acc : σ) (hfuel : bytes.length ≤ fuel) (hsuffix : bytes <:+ frame) :
    walkFields hooks table onField fuel carry m p bytes acc = walkSeen table onField m p
        (seenOf frame ((headerRead hooks frame.length).cut fuel carry bytes)) acc := by
  induction fuel generalizing carry m p bytes acc with
  | zero =>
    obtain rfl : bytes = [] := List.eq_nil_of_length_eq_zero (by omega)
    simp [walkFields, seenOf, walkSeen]
  | succ fuel ih =>
    cases bytes with
    | nil => simp [walkFields, seenOf, walkSeen]
    | cons b bytes =>
      cases htag : readTag false 0 (b :: bytes) with
      | none =>
        have hread : headerRead hooks frame.length carry (b :: bytes) = none := by
          simp [headerRead, htag]
        have hseen : seenOf frame ⟨[], some (b :: bytes)⟩ = [.badTag] := by
          simp [seenOf, SeenField.ofStuck, htag]
        rw [Reader.cut_of_none hread, hseen, walkSeen_badTag]
        unfold walkFields
        cases hp : p && decide (msgTypeField ≤ m) <;> simp [htag]
      | some field =>
        obtain ⟨tag, value⟩ := field
        unfold walkFields
        cases hv : carry.readValue hooks tag value with
        | none =>
          have hread : headerRead hooks frame.length carry (b :: bytes) = none := by
            simp [headerRead, htag, hv]
          have hseen : seenOf frame ⟨[], some (b :: bytes)⟩ = [.badValue tag] := by
            simp [seenOf, SeenField.ofStuck, htag]
          rw [Reader.cut_of_none hread, hseen]
          simp only [htag, hv, walkSeen, SeenField.stops]
          rfl
        | some r =>
          obtain ⟨v, rest, carry'⟩ := r
          obtain ⟨hread, hrest, hshort, hval⟩ := headerRead_some hsuffix htag hv
          rw [List.length_cons] at hfuel
          have hseen : seenOf frame (Cut.cons
                { tag := tag, start := frame.length - value.length,
                  stop := frame.length - rest.length }
                ((headerRead hooks frame.length).cut fuel carry' (rest.drop 1))) =
              .read tag v :: seenOf frame
                ((headerRead hooks frame.length).cut fuel carry' (rest.drop 1)) := by
            simp [seenOf, hval]
          rw [Reader.cut_of_some hread, hseen]
          simp only [htag, hv, walkSeen, SeenField.stops]
          rw [ih carry' (m + 1) _ _ _ (by omega) hrest]
          rfl

theorem walkFixtHeader_eq : walkFixtHeader frame hooks table onField acc =
    walkSeen table onField 0 false (seenFields hooks frame) acc :=
  walkFields_eq frame.length {} 0 false frame acc (Nat.le_refl _) (List.suffix_refl _)

/-- The fields in front of the stop, for a walk that may be past it. -/
def walkLeft (table : RouteTable) (pastStop : Bool) (fields : List SeenField) : List SeenField :=
  if pastStop then [] else beforeStop table fields

theorem walkLeft_cons : walkLeft table p (f :: fields) =
      if p || f.stops table then [] else f :: walkLeft table p fields := by
  cases p <;> cases hf : f.stops table <;> simp [walkLeft, beforeStop, hf]

theorem walkSeen_cons (table : RouteTable) (onField : OnField σ) (m : ℕ) (p : Bool) (f : SeenField)
    (fields : List SeenField) (acc : σ) :
    (msgTypeField ≤ m ∧ (p || f.stops table) = true ∧
        walkSeen table onField m p (f :: fields) acc = (true, acc)) ∨
      ((msgTypeField ≤ m → (p || f.stops table) = false) ∧
        ((∃ tag v, f = .read tag v ∧ walkSeen table onField m p (f :: fields) acc =
            walkSeen table onField (m + 1) (p || f.stops table) fields
              (onField (m + 1) tag v (p || f.stops table) acc)) ∨
          (f.wellFormed = false ∧
            walkSeen table onField m p (f :: fields) acc = (false, acc)))) := by
  by_cases hstop : msgTypeField ≤ m ∧ (p || f.stops table) = true
  · refine .inl ⟨hstop.1, hstop.2, ?_⟩
    simp [walkSeen, hstop.1, hstop.2]
  refine .inr ⟨fun hm => by simpa [hm] using hstop, ?_⟩
  have hp : ¬((p && decide (msgTypeField ≤ m)) = true) := by
    intro hp
    simp only [Bool.and_eq_true, decide_eq_true_eq] at hp
    exact hstop ⟨hp.2, by simp [hp.1]⟩
  have hstop' : ¬(((p || f.stops table) && decide (msgTypeField < m + 1)) = true) := by
    intro h
    rw [Bool.and_eq_true, decide_eq_true_eq] at h
    exact hstop ⟨Nat.lt_succ_iff.mp h.2, h.1⟩
  cases f with
  | read tag v => exact .inl ⟨tag, v, rfl, by rw [walkSeen, if_neg hp, if_neg hstop']⟩
  | badValue tag =>
    exact .inr ⟨rfl, by rw [walkSeen, if_neg hp, if_neg hstop']; rintro _ _ ⟨⟩⟩
  | badTag => exact .inr ⟨rfl, by rw [walkSeen, if_neg hp, if_neg hstop']; rintro _ _ ⟨⟩⟩

theorem walkSeen_fst (table : RouteTable) (onField : OnField σ) (m : ℕ) (p : Bool)
    (fields : List SeenField) (acc : σ) :
    (walkSeen table onField m p fields acc).1 = true ↔
      (∀ f ∈ fields.take (msgTypeField - m), f.wellFormed = true) ∧
        ∀ f ∈ (walkLeft table p fields).drop (msgTypeField - m), f.wellFormed = true := by
  induction fields generalizing m p acc with
  | nil => cases p <;> simp [walkSeen, walkLeft, beforeStop]
  | cons f fields ih =>
    rw [walkLeft_cons]
    rcases walkSeen_cons table onField m p f fields acc with
      ⟨hm, hstop, hw⟩ | ⟨hgo, ⟨tag, v, rfl, hw⟩ | ⟨hf, hw⟩⟩
    · rw [hw, hstop, Nat.sub_eq_zero_of_le hm]
      simp
    · rw [hw, ih]
      rcases Nat.lt_or_ge m msgTypeField with hm | hm
      · obtain ⟨k, hk⟩ : ∃ k, msgTypeField - m = k + 1 := ⟨msgTypeField - m - 1, by omega⟩
        rw [hk, show msgTypeField - (m + 1) = k by omega]
        cases hstop : p || (SeenField.read tag v).stops table with
        | true => simp [walkLeft, SeenField.wellFormed]
        | false =>
          obtain ⟨rfl, -⟩ := Bool.or_eq_false_iff.mp hstop
          simp [SeenField.wellFormed]
      · have hp := hgo hm
        obtain ⟨rfl, -⟩ := Bool.or_eq_false_iff.mp hp
        rw [hp, Nat.sub_eq_zero_of_le hm, Nat.sub_eq_zero_of_le (Nat.le_succ_of_le hm)]
        simp [SeenField.wellFormed]
    · rw [hw]
      rcases Nat.lt_or_ge m msgTypeField with hm | hm
      · obtain ⟨k, hk⟩ : ∃ k, msgTypeField - m = k + 1 := ⟨msgTypeField - m - 1, by omega⟩
        simp [hk, hf]
      · simp [hgo hm, Nat.sub_eq_zero_of_le hm, hf]

/-! ## What the peek keeps of the fields -/

def FixtRoutePeek.appl (peek : FixtRoutePeek) : Option Bytes :=
  if peek.header1128 then some peek.applVerId else none

def thirdMsgType (acc : FixtRoutePeek × Bool) : Option Bytes :=
  if acc.2 then some acc.1.msgType else none

/-- The MsgType in the third field of a frame of which `m` fields are read. -/
def thirdField : Option Bytes :=
  (if m < msgTypeField then fields[msgTypeField - (m + 1)]? else none).bind (·.valueOf msgTypeTag)

theorem thirdField_cons : thirdField m (f :: fields) =
      if m + 1 = msgTypeField then f.valueOf msgTypeTag else thirdField (m + 1) fields := by
  unfold thirdField
  rcases Nat.lt_trichotomy (m + 1) msgTypeField with hm | hm | hm
  · have hk : msgTypeField - (m + 1) = msgTypeField - (m + 1 + 1) + 1 := by omega
    rw [if_pos hm, if_pos (Nat.lt_of_succ_lt hm), if_neg (Nat.ne_of_lt hm), hk,
      List.getElem?_cons_succ]
  · simp [← hm]
  rw [if_neg (Nat.not_lt.mpr (Nat.le_of_lt_succ hm)), if_neg (Nat.lt_asymm hm),
    if_neg (Nat.ne_of_gt hm)]

theorem thirdField_of_le {m : ℕ} (hm : msgTypeField ≤ m) (fields : List SeenField) :
    thirdField m fields = none := by
  rw [thirdField, if_neg (Nat.not_lt.mpr hm)]
  rfl

theorem appl_peekField (no tag : ℕ) (v : Bytes) (p : Bool) (acc : FixtRoutePeek × Bool) :
    (peekField no tag v p acc).1.appl =
      acc.1.appl.or (if p then none else (SeenField.read tag v).valueOf applVerIdTag) := by
  obtain ⟨⟨msgType, applVerId, readable, admin, one⟩, third⟩ := acc
  unfold peekField FixtRoutePeek.appl SeenField.valueOf
  by_cases hthird : no = msgTypeField ∧ tag = msgTypeTag
  · rw [if_pos hthird]
    cases p <;> cases one <;> simp [hthird.2, msgTypeTag, applVerIdTag]
  rw [if_neg hthird]
  by_cases htag : tag = applVerIdTag <;> cases p <;> cases one <;> simp [htag]

theorem third_peekField (no tag : ℕ) (v : Bytes) (p : Bool) (acc : FixtRoutePeek × Bool) :
    thirdMsgType (peekField no tag v p acc) =
      if no = msgTypeField ∧ tag = msgTypeTag then some v else thirdMsgType acc := by
  unfold peekField thirdMsgType
  dsimp only
  by_cases hthird : no = msgTypeField ∧ tag = msgTypeTag
  · rw [if_pos hthird, if_pos hthird]
    split <;> rfl
  rw [if_neg hthird, if_neg hthird]
  split <;> rfl

theorem appl_walkSeen (table : RouteTable) (m : ℕ) (p : Bool) (fields : List SeenField)
    (acc : FixtRoutePeek × Bool) (h : (walkSeen table peekField m p fields acc).1 = true) :
    (walkSeen table peekField m p fields acc).2.1.appl =
      acc.1.appl.or ((walkLeft table p fields).findSome? (·.valueOf applVerIdTag)) := by
  induction fields generalizing m p acc with
  | nil => cases p <;> simp [walkSeen, walkLeft, beforeStop]
  | cons f fields ih =>
    rw [walkLeft_cons]
    rcases walkSeen_cons table peekField m p f fields acc with
      ⟨hm, hstop, hw⟩ | ⟨-, ⟨tag, v, rfl, hw⟩ | ⟨hf, hw⟩⟩
    · simp [hw, hstop]
    · rw [hw] at h ⊢
      rw [ih _ _ _ h, appl_peekField, Option.or_assoc]
      cases hstop : p || (SeenField.read tag v).stops table with
      | true => simp [walkLeft]
      | false =>
        obtain ⟨rfl, -⟩ := Bool.or_eq_false_iff.mp hstop
        cases hv : (SeenField.read tag v).valueOf applVerIdTag <;> simp [hv]
    · rw [hw] at h
      cases h

theorem third_walkSeen (acc : FixtRoutePeek × Bool)
    (h : (walkSeen table peekField m p fields acc).1 = true) :
    thirdMsgType (walkSeen table peekField m p fields acc).2 =
      (thirdField m fields).or (thirdMsgType acc) := by
  induction fields generalizing m p acc with
  | nil => simp [walkSeen, thirdField]
  | cons f fields ih =>
    rcases walkSeen_cons table peekField m p f fields acc with
      ⟨hm, hstop, hw⟩ | ⟨-, ⟨tag, v, rfl, hw⟩ | ⟨hf, hw⟩⟩
    · simp [hw, thirdField_of_le hm]
    · rw [hw] at h ⊢
      rw [ih _ _ _ h, third_peekField, thirdField_cons]
      by_cases hm : m + 1 = msgTypeField
      · rw [if_pos hm, thirdField_of_le (Nat.le_of_eq hm.symm)]
        by_cases htag : tag = msgTypeTag <;> simp [hm, htag, SeenField.valueOf]
      · rw [if_neg hm, if_neg (fun hn => hm hn.1)]
    · rw [hw] at h
      cases h

theorem repeated_walkSeen (acc : Bool) (h : (walkSeen table repeatsField m p fields acc).1 = true) :
    (walkSeen table repeatsField m p fields acc).2 =
      (acc || ((walkLeft table p fields).drop (msgTypeField - m)).any
        fun f => (f.valueOf msgTypeTag).isSome) := by
  induction fields generalizing m p acc with
  | nil => cases p <;> simp [walkSeen, walkLeft, beforeStop]
  | cons f fields ih =>
    rw [walkLeft_cons]
    rcases walkSeen_cons table repeatsField m p f fields acc with
      ⟨hm, hstop, hw⟩ | ⟨hgo, ⟨tag, v, rfl, hw⟩ | ⟨hf, hw⟩⟩
    · simp [hw, hstop]
    · rw [hw] at h ⊢
      rw [ih _ _ _ h]
      rcases Nat.lt_or_ge m msgTypeField with hm | hm
      · obtain ⟨k, hk⟩ : ∃ k, msgTypeField - m = k + 1 := ⟨msgTypeField - m - 1, by omega⟩
        have hno : ¬msgTypeField < m + 1 := by omega
        rw [hk, show msgTypeField - (m + 1) = k by omega]
        cases hstop : p || (SeenField.read tag v).stops table with
        | true => simp [walkLeft, repeatsField, hno]
        | false =>
          obtain ⟨rfl, -⟩ := Bool.or_eq_false_iff.mp hstop
          simp [repeatsField, hno]
      · have hp := hgo hm
        obtain ⟨rfl, -⟩ := Bool.or_eq_false_iff.mp hp
        have hno : msgTypeField < m + 1 := by omega
        have htag : ((SeenField.read tag v).valueOf msgTypeTag).isSome = (tag == msgTypeTag) := by
          by_cases htag : tag = msgTypeTag <;> simp [SeenField.valueOf, htag]
        rw [hp, Nat.sub_eq_zero_of_le hm, Nat.sub_eq_zero_of_le (Nat.le_succ_of_le hm)]
        simp [repeatsField, hno, htag, Bool.or_assoc]
    · rw [hw] at h
      cases h

end Walk

/-! ## What the header scan keeps of the fields -/

def FrameHeader.thirdMsgType (h : FrameHeader) : Option Bytes :=
  if h.msgTypeIsThird then some h.faultRefMsgType else none

theorem third_setMember (h : FrameHeader) (tag : ℕ) (v : Bytes) (no : ℕ) (seen34 : Bool) :
    (h.setMember tag v no seen34).thirdMsgType =
      if no = msgTypeField ∧ tag = msgTypeTag then some v else h.thirdMsgType := by
  unfold FrameHeader.setMember FrameHeader.thirdMsgType
  split <;> simp_all [msgTypeField, msgTypeTag] <;> split <;> simp_all

theorem third_readSpans (frame : Bytes) (spans : List FieldSpan) (st : HeaderScanState) :
    (spans.foldl (HeaderScanState.readSpan frame) st).header.thirdMsgType =
      (thirdField st.fieldNo (spans.map fun f => .read f.tag (f.value frame))).or
        st.header.thirdMsgType := by
  induction spans generalizing st with
  | nil => simp [thirdField]
  | cons f spans ih =>
    have hthird : (st.readSpan frame f).header.thirdMsgType =
        if st.fieldNo + 1 = msgTypeField ∧ f.tag = msgTypeTag then some (f.value frame)
        else st.header.thirdMsgType := third_setMember _ _ _ _ _
    have hno : (st.readSpan frame f).fieldNo = st.fieldNo + 1 := rfl
    rw [List.foldl_cons, ih, List.map_cons, thirdField_cons, hthird, hno]
    by_cases hm : st.fieldNo + 1 = msgTypeField
    · rw [if_pos hm, thirdField_of_le (Nat.le_of_eq hm.symm)]
      by_cases htag : f.tag = msgTypeTag <;> simp [hm, htag, SeenField.valueOf]
    · rw [if_neg hm, if_neg (fun hn => hm hn.1)]

theorem valueOf_ofStuck (tag : ℕ) (bytes : Bytes) : (SeenField.ofStuck bytes).valueOf tag = none := by
  unfold SeenField.ofStuck
  split <;> rfl

theorem third_scanFrameHeader (hooks : DictHooks) (frame : Bytes) :
    (scanFrameHeader hooks frame).thirdMsgType = thirdField 0 (seenFields hooks frame) := by
  obtain ⟨fault, lengthTag, hscan, -⟩ := scanFrameHeader_eq hooks frame
  have hthird := third_readSpans frame (headerCut hooks frame).fields {}
  have hinit : ({} : HeaderScanState).header.thirdMsgType = none := rfl
  rw [hinit, Option.or_none] at hthird
  rw [hscan]
  refine .trans hthird ?_
  unfold thirdField seenFields seenOf headerCut
  generalize (headerRead hooks frame.length).cut frame.length {} frame = c
  rw [if_pos (by decide), if_pos (by decide), List.getElem?_append]
  split
  · rfl
  next hlen =>
    rw [List.getElem?_eq_none (Nat.not_lt.mp hlen)]
    cases hstuck : c.stuck with
    | none => rfl
    | some bytes =>
      rw [Option.map_some, Option.toList_some, List.getElem?_singleton]
      split
      · exact (valueOf_ofStuck _ _).symm
      · rfl

theorem peekFixtRoute_eq (table : RouteTable) (hooks : DictHooks) (frame : Bytes) :
    let r := walkSeen table peekField 0 false (seenFields hooks frame) ({}, false)
    peekFixtRoute frame hooks table =
      if r.1 = true ∧ r.2.2 = true then
        { r.2.1 with readable := true, admin := isFixtAdminMsgtype r.2.1.msgType }
      else {} := by
  rw [peekFixtRoute, walkFixtHeader_eq]
  generalize walkSeen table peekField 0 false (seenFields hooks frame) ({}, false) = r
  obtain ⟨_ | _, peek, _ | _⟩ := r <;> rfl

/-- The peek finds a frame readable if and only if the scan sees 35 as the third field and the first
three fields, and those in front of the stop, are well formed. Both then report one MsgType, the
ApplVerID is that of the first 1128 in front of the stop, and a MsgType is repeated if and only if a
35 stands behind the third field and in front of the stop. -/
theorem route_peek_agrees_with_scan (table : RouteTable) (hooks : DictHooks) (frame : Bytes) :
    let hdr := scanFrameHeader hooks frame
    let peek := peekFixtRoute frame hooks table
    let fields := seenFields hooks frame
    let header := beforeStop table fields
    (peek.readable = true ↔ hdr.msgTypeIsThird = true ∧ (∀ f ∈ fields.take 3, f.wellFormed = true) ∧
        ∀ f ∈ header.drop 3, f.wellFormed = true) ∧
    (peek.readable = true → peek.msgType = hdr.faultRefMsgType ∧
      peek.appl = header.findSome? (·.valueOf applVerIdTag) ∧
      (fixtHeaderRepeatsMsgType frame hooks table = true ↔
        ∃ f ∈ header.drop 3, (f.valueOf msgTypeTag).isSome = true)) := by
  intro hdr peek fields header
  have hscan : hdr.thirdMsgType = thirdField 0 fields := third_scanFrameHeader hooks frame
  have hpeek : peek = _ := peekFixtRoute_eq table hooks frame
  have hread : _ ↔ _ := walkSeen_fst table peekField 0 false fields ({}, false)
  have happl := appl_walkSeen table 0 false fields ({}, false)
  -- a walk without a fault has the MsgType the scan has
  have hthird : (walkSeen table peekField 0 false fields ({}, false)).1 = true →
      thirdMsgType (walkSeen table peekField 0 false fields ({}, false)).2 = hdr.thirdMsgType := by
    intro h
    rw [third_walkSeen 0 false fields _ h, hscan]
    exact Option.or_none
  have hrepeats : (walkSeen table repeatsField 0 false fields false).1 = true →
      (fixtHeaderRepeatsMsgType frame hooks table = true ↔
        ∃ f ∈ header.drop 3, (f.valueOf msgTypeTag).isSome = true) := by
    intro h
    rw [fixtHeaderRepeatsMsgType, walkFixtHeader_eq, repeated_walkSeen 0 false _ _ h,
      Bool.false_or, List.any_eq_true]
    rfl
  rw [walkSeen_fst, ← hread] at hrepeats
  generalize walkSeen table peekField 0 false fields ({}, false) = r
    at hread hpeek hthird happl hrepeats
  have hmsg : r.1 = true → r.2.2 = hdr.msgTypeIsThird ∧
      (r.2.2 = true → r.2.1.msgType = hdr.faultRefMsgType) := by
    intro h
    have heq := hthird h
    unfold thirdMsgType FrameHeader.thirdMsgType at heq
    cases hr : r.2.2 <;> cases hh : hdr.msgTypeIsThird <;> simp_all
  by_cases hok : r.1 = true ∧ r.2.2 = true
  · rw [if_pos hok] at hpeek
    have hfields := hread.mp hok.1
    refine ⟨iff_of_true (by rw [hpeek]) ⟨(hmsg hok.1).1 ▸ hok.2, hfields.1, hfields.2⟩, fun _ => ?_⟩
    refine ⟨by rw [hpeek]; exact (hmsg hok.1).2 hok.2, ?_, hrepeats hok.1⟩
    rw [hpeek]
    exact happl hok.1
  rw [if_neg hok] at hpeek
  have hfalse : ¬peek.readable = true := by
    rw [hpeek]
    exact Bool.false_ne_true
  refine ⟨iff_of_false hfalse fun h => hok ?_, fun h => absurd h hfalse⟩
  have hw := hread.mpr ⟨h.2.1, h.2.2⟩
  exact ⟨hw, (hmsg hw).1.trans h.1⟩

end Fixpp.Model
