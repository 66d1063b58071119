import Fixpp.Analysis.LengthPairTables
import Fixpp.Analysis.FieldReading

/-!
# One field split for all readers

The offset table and the field iterator read a field alike up to how they saturate a count;
`carriedRead` has the count as a parameter. It agrees round by round with the header scan
wherever no Data tag is a Length tag.
-/

namespace Fixpp.Model

open Foundation OffsetTable FieldIterator List

variable {c b : UInt8} {carry : PendingData} {value v rest : Bytes} {span : FieldSpan}

/-! ## The count -/

theorem digitValue_le (h : ¬isDigit c = false) : digitValue c ≤ 9 := by
  simp only [isDigit, Bool.and_eq_false_iff, decide_eq_false_iff_not, not_or, not_not] at h
  have hle : c.toNat ≤ 57 := h.2
  unfold digitValue
  omega

/-- What keeps the 32-bit count of the table from wrapping over `m` more digits:
the frame is long enough for the bound to be exact, or so short that few digits are
left. -/
def CountSafe (n acc m : ℕ) : Prop := 9 ≤ n ∨ (m ≤ 8 ∧ acc < 10 ^ (8 - m))

variable {n tag : ℕ} {bytes frame : Bytes} {count : Bytes → ℕ} {hooks : DictHooks}
    {it : FieldIterator}

theorem min_accumulateBounded {acc acc' m : ℕ} (hn : 0 < n) (hlt : n < 2 ^ 32)
    (hc : digitValue c ≤ 9) (hacc : min acc n = min acc' n) (hsafe : CountSafe n acc (m + 1)) :
    min (accumulateBounded acc c n) n = min (acc' * 10 + digitValue c) n ∧
      CountSafe n (accumulateBounded acc c n) m := by
  have hsmall : 9 ≤ n ∨ acc < 10 ^ 8 := by
    rcases hsafe with hn' | ⟨hm, hacc'⟩
    · exact .inl hn'
    refine .inr (Nat.lt_of_lt_of_le hacc' ?_)
    exact Nat.pow_le_pow_right (by decide) (by omega)
  have hcount : min (accumulateBounded acc c n) n = min (acc' * 10 + digitValue c) n := by
    unfold accumulateBounded
    generalize digitValue c = d at hc
    by_cases hd : d ≤ n
    · have hbound : (n + 2 ^ 32 - d) % 2 ^ 32 = n - d := by omega
      split
      · omega
      rw [Nat.mod_eq_of_lt (by omega)]
      omega
    · -- the bound wraps, and the digit is added whatever the count
      have hbound : (n + 2 ^ 32 - d) % 2 ^ 32 = n + 2 ^ 32 - d := by omega
      rw [hbound, if_neg (by omega), Nat.mod_eq_of_lt (by omega)]
      omega
  refine ⟨hcount, ?_⟩
  rcases hsafe with hn' | ⟨hm, hacc'⟩
  · exact .inl hn'
  by_cases hn' : 9 ≤ n
  · exact .inl hn'
  refine .inr ⟨by omega, ?_⟩
  have hpow : 10 ^ (8 - m) = 10 ^ (8 - (m + 1)) * 10 := by
    rw [← Nat.pow_succ]
    congr 1
    omega
  unfold accumulateBounded
  split <;> omega

/-- The table and the header scan count alike up to the size of the frame: no
counted value is longer than that. -/
theorem min_declaredLength (hn : 0 < n) (hlt : n < 2 ^ 32) (value : Bytes) {acc acc' : ℕ}
    (hsafe : CountSafe n acc value.length) (hacc : min acc n = min acc' n) :
    min (declaredLength n acc value) n = min (parseBoundedU32 acc' value) n := by
  induction value generalizing acc acc' with
  | nil => exact hacc
  | cons c rest ih =>
    unfold declaredLength parseBoundedU32
    by_cases hdigit : isDigit c = false
    · rw [if_pos hdigit, if_pos hdigit]
      exact hacc
    rw [if_neg hdigit, if_neg hdigit]
    have hc := digitValue_le hdigit
    obtain ⟨hstep, hsafe'⟩ := min_accumulateBounded hn hlt hc hacc hsafe
    split
    · apply ih hsafe'
      unfold seqnumMax at *
      omega
    · exact ih hsafe' hstep

theorem min_declaredLength_zero (hlt : n < 2 ^ 32) (value : Bytes) (hvalue : value.length < n) :
    min (declaredLength (min n seqnumMax) 0 value) n = min (parseBoundedU32 0 value) n := by
  have hcap : min n seqnumMax = n := by
    unfold seqnumMax
    omega
  have hsafe : CountSafe n 0 value.length := by
    by_cases hn : 9 ≤ n
    · exact .inl hn
    · exact .inr ⟨by omega, Nat.pow_pos (by decide)⟩
  rw [hcap]
  exact min_declaredLength (by omega) hlt value hsafe rfl

/-! ## One way to read a field -/

/-- The value of field `tag` and the bytes from its SOH on, by the count of the
field before where that field counts `tag`. -/
def carriedValue (carry : PendingData) (tag : ℕ) (value : Bytes) : Option (Bytes × Bytes) :=
  if carry.tag ≠ 0 ∧ carry.tag = tag then countedValue value carry.len
  else some (splitValue value)

/-- The carry behind a field of the table or the iterator: a counted value does not
arm it. -/
def nextCarry (count : Bytes → ℕ) (hooks : DictHooks) (carry : PendingData) (tag : ℕ)
    (value : Bytes) : PendingData :=
  if carry.tag ≠ 0 ∧ carry.tag = tag then {}
  else if hooks tag ≠ 0 then { tag := hooks tag, len := count value } else {}

/-- How the table and the iterator read a field, with their way to read a count. -/
def carriedRead (count : Bytes → ℕ) (hooks : DictHooks) (n : ℕ) :
    Reader PendingData FieldSpan UInt8 :=
  fun carry bytes =>
    match readTag false 0 bytes with
    | none => none
    | some (tag, value) =>
      match carriedValue carry tag value with
      | none => none
      | some (v, rest) =>
        some ({ tag := tag, start := n - value.length, stop := n - value.length + v.length },
          rest.drop 1, nextCarry count hooks carry tag v)

theorem carriedValue_iff :
    carriedValue carry tag value = some (v, rest) ↔
      v ++ rest = value ∧ EndsRight ⟨carry.tag, carry.len⟩ (tag, v) ∧
        (rest = [] ∧ ¬(carry.tag ≠ 0 ∧ carry.tag = tag) ∨ ∃ tail, rest = soh :: tail) :=
  valueAt_iff

theorem carriedRead_eq_some {carry' : PendingData}
    (h : carriedRead count hooks n carry bytes = some (span, rest, carry')) :
    ∃ tag value v tail, readTag false 0 bytes = some (tag, value) ∧
      carriedValue carry tag value = some (v, tail) ∧ v ++ tail = value ∧
      span = ⟨tag, n - value.length, n - value.length + v.length⟩ ∧ rest = tail.drop 1 ∧
      carry' = nextCarry count hooks carry tag v := by
  unfold carriedRead at h
  split at h
  · cases h
  rename_i tag value htag
  split at h
  · cases h
  rename_i v tail hv
  cases h
  exact ⟨tag, value, v, tail, htag, hv, (carriedValue_iff.mp hv).1, rfl, rfl, rfl⟩

theorem countedValue_congr {a b : ℕ} (hlen : bytes.length ≤ n) (h : min a n = min b n) :
    countedValue bytes a = countedValue bytes b := by
  by_cases ha : a < n
  · have heq : a = b := by omega
    rw [heq]
  have hdrop : ∀ k, n ≤ k → countedValue bytes k = none := by
    intro k hk
    unfold countedValue
    rw [drop_eq_nil_of_le (by omega)]
  rw [hdrop a (by omega), hdrop b (by omega)]

/-- A field takes at least three bytes: a digit, an equals sign and an SOH, which
only the last field of a frame may lack. -/
theorem carriedRead_takes (count : Bytes → ℕ) (hooks : DictHooks) (n : ℕ) :
    (carriedRead count hooks n).Takes 3 := by
  intro carry bytes span rest carry' h
  obtain ⟨tag, value, v, tail, htag, -, happend, -, rfl, -⟩ := carriedRead_eq_some h
  have hlen := length_of_readTag htag
  rw [← happend, length_append] at hlen
  cases tail with
  | nil => exact .inr ⟨rfl, by omega⟩
  | cons e tail =>
    rw [length_cons] at hlen
    rw [drop_one, tail_cons]
    exact .inl (by omega)

/-! ## The header scan -/

theorem headerRead_eq (hooks : DictHooks) (n : ℕ) (carry : LengthDataCarry) (bytes : Bytes) :
    headerRead hooks n carry bytes =
      match readTag false 0 bytes with
      | none => none
      | some (tag, value) =>
        match carriedValue { tag := carry.dataTag, len := carry.count } tag value with
        | none => none
        | some (v, rest) =>
          some ({ tag := tag, start := n - value.length, stop := n - rest.length }, rest.drop 1,
            { dataTag := hooks tag
              count := if hooks tag ≠ 0 then parseBoundedU32 0 v else carry.count }) := by
  unfold headerRead LengthDataCarry.readValue carriedValue
  cases readTag false 0 bytes with
  | none => rfl
  | some field =>
    obtain ⟨tag, value⟩ := field
    dsimp only
    cases (if carry.dataTag ≠ 0 ∧ carry.dataTag = tag then countedValue value carry.count
      else some (splitValue value)) with
    | none => rfl
    | some r => rfl

/-- The carries of the two ways over the bytes that are left: the same Data tag is
counted, if any, by the same number up to the size of the frame. -/
structure SameCarry (hooks : DictHooks) (n : ℕ) (bytes : Bytes) (carry : PendingData)
    (carry' : LengthDataCarry) : Prop where
  within : bytes.length ≤ n
  tag : carry.tag = carry'.dataTag
  len : carry.tag ≠ 0 → min carry.len n = min carry'.count n
  armed : carry.tag ≠ 0 → ∃ t, hooks t = carry.tag

/-- The two ways read the same field, and keep the same carry where no Data tag is
a Length tag. -/
theorem carriedRead_agree (hcount : ∀ value : Bytes, value.length < n →
      min (count value) n = min (parseBoundedU32 0 value) n) (hchain : hooks.Unchained) :
    (carriedRead count hooks n).Agree (headerRead hooks n) (SameCarry hooks n) := by
  intro carry carry' b bytes hcarry
  rw [headerRead_eq]
  unfold carriedRead
  cases htag : readTag false 0 (b :: bytes) with
  | none => exact .inl ⟨rfl, rfl⟩
  | some field =>
    obtain ⟨tag, value⟩ := field
    have hlen := length_of_readTag htag
    have hwithin := hcarry.within
    have hvalue : carriedValue carry tag value =
        carriedValue { tag := carry'.dataTag, len := carry'.count } tag value := by
      unfold carriedValue
      rw [hcarry.tag]
      split
      next hcounted =>
        have hne : carry.tag ≠ 0 := by
          rw [hcarry.tag]
          exact hcounted.1
        exact countedValue_congr (by omega) (hcarry.len hne)
      · rfl
    dsimp only
    rw [← hvalue]
    cases hv : carriedValue carry tag value with
    | none => exact .inl ⟨rfl, rfl⟩
    | some r =>
      obtain ⟨v, rest⟩ := r
      have happend := (carriedValue_iff.mp hv).1
      have hsum : v.length + rest.length = value.length := by
        rw [← happend, length_append]
      have hstop : n - rest.length = n - value.length + v.length := by omega
      dsimp only
      rw [hstop]
      refine .inr ⟨_, _, _, _, rfl, rfl, ?_⟩
      have hrest : (rest.drop 1).length ≤ n := by
        rw [length_drop]
        omega
      unfold nextCarry
      split
      next hcounted =>
        -- the counted tag is the Data tag of the Length before it
        obtain ⟨t, ht⟩ := hcarry.armed hcounted.1
        have hzero : hooks tag = 0 := by
          rw [← hcounted.2, ← ht]
          apply hchain
          rw [ht]
          exact hcounted.1
        exact ⟨hrest, by simp [hzero], fun h => absurd rfl h, fun h => absurd rfl h⟩
      · split
        next hne =>
          refine ⟨hrest, rfl, fun _ => ?_, fun _ => ⟨tag, rfl⟩⟩
          exact hcount v (by omega)
        next hzero =>
        have hzero' : hooks tag = 0 := by simpa using hzero
        exact ⟨hrest, by simp [hzero'], fun h => absurd rfl h, fun h => absurd rfl h⟩

/-! ## The offset table -/

abbrev tableCount (n : ℕ) : Bytes → ℕ := declaredLength (min n seqnumMax) 0

theorem readField_eq (hooks : DictHooks) (n : ℕ) (carry : PendingData) (b : UInt8) (bytes : Bytes) :
    (carriedRead (tableCount n) hooks n carry (b :: bytes) = none ∧
      ∃ status, readField hooks n carry (b :: bytes) = .error status ∧ status.isMalformed = true) ∨
    ∃ r, carriedRead (tableCount n) hooks n carry (b :: bytes) = some r ∧
      readField hooks n carry (b :: bytes) = .ok r := by
  unfold readField carriedRead
  rw [readTag_eq]
  cases scanTag 0 (b :: bytes) with
  | nonDigit => exact .inl ⟨rfl, _, rfl, rfl⟩
  | outOfRange => exact .inl ⟨rfl, _, rfl, rfl⟩
  | «at» tag rest =>
    cases rest with
    | nil => exact .inl ⟨rfl, _, rfl, rfl⟩
    | cons e value =>
      dsimp only
      by_cases htag : e ≠ equalsSign ∨ value.length + 1 = (b :: bytes).length
      · rw [if_pos htag, if_pos htag]
        exact .inl ⟨rfl, _, rfl, rfl⟩
      rw [if_neg htag, if_neg htag]
      unfold carriedValue nextCarry
      by_cases hcounted : carry.tag ≠ 0 ∧ carry.tag = tag
      · have hcounted' : carry.tag ≠ 0 ∧ tag = carry.tag := ⟨hcounted.1, hcounted.2.symm⟩
        simp only [if_pos hcounted, if_pos hcounted', countedValue]
        cases hdrop : value.drop carry.len with
        | nil =>
          refine .inl ⟨rfl, .invalidFieldFormat, ?_, rfl⟩
          split <;> rfl
        | cons f rest =>
          have hlen := congrArg length hdrop
          simp only [length_drop, length_cons] at hlen
          rw [if_neg (by omega)]
          dsimp only
          by_cases hsoh : f = soh
          · refine .inr ⟨_, ?_, by rw [if_neg (not_not.mpr hsoh)]⟩
            rw [if_pos hsoh]
            dsimp only
            rw [length_take, drop_one, tail_cons, Nat.min_eq_left (by omega)]
          · rw [if_neg hsoh, if_pos hsoh]
            exact .inl ⟨rfl, _, rfl, rfl⟩
      · have hcounted' : ¬(carry.tag ≠ 0 ∧ tag = carry.tag) := by
          rintro ⟨hne, heq⟩
          exact hcounted ⟨hne, heq.symm⟩
        simp only [if_neg hcounted, if_neg hcounted']
        exact .inr ⟨_, rfl, rfl⟩

/-- What a build makes of a frame, from the cut of the shared way: every field up to
the cap, and the status of the first malformed field before it. -/
theorem buildLoop_eq (cap : ℕ) (hooks : DictHooks) (n fuel : ℕ) (entries : List OffsetTable.Entry)
    (carry : PendingData) (bytes : Bytes) (hcap : entries.length ≤ cap) :
    let c := (carriedRead (tableCount n) hooks n).cut fuel carry bytes
    let e := buildLoop cap hooks n fuel entries carry bytes
    e.entries = entries ++ (c.items.take (cap - entries.length)).map OffsetTable.Entry.ofSpan ∧
      (entries.length + c.items.length ≤ cap → (c.stuck = none → e.status = .ok) ∧
        ∀ rest, c.stuck = some rest → e.status.isMalformed = true ∧ e.stop = rest) ∧
      (cap < entries.length + c.items.length → e.status = .offsetTableFull) := by
  induction fuel generalizing entries carry bytes with
  | zero => cases bytes <;> simp [Reader.cut, buildLoop, hcap]
  | succ fuel ih =>
    cases bytes with
    | nil => simp [buildLoop, hcap]
    | cons b bytes =>
      rcases readField_eq hooks n carry b bytes with
        ⟨hnone, status, hfield, hbad⟩ | ⟨⟨span, rest, carry'⟩, hsome, hfield⟩
      · rw [Reader.cut_of_none hnone]
        simp only [buildLoop, hfield]
        refine ⟨by simp, fun _ => ⟨by simp, fun rest h => ?_⟩, fun h => ?_⟩
        · cases h
          exact ⟨hbad, rfl⟩
        simp only [length_nil] at h
        omega
      rw [Reader.cut_of_some hsome]
      simp only [buildLoop, hfield]
      by_cases hfull : entries.length ≥ cap
      · have hroom : cap - entries.length = 0 := by omega
        simp only [if_pos hfull, hroom, take_zero, map_nil, append_nil,
          Cut.items_cons, length_cons]
        refine ⟨trivial, fun h => ?_, fun _ => trivial⟩
        omega
      simp only [if_neg hfull]
      have hroom : cap - entries.length = cap - (entries.length + 1) + 1 := by omega
      have hnext := ih (entries ++ [OffsetTable.Entry.ofSpan span]) carry' rest
        (by rw [length_append, length_singleton]; omega)
      simp only [length_append, length_singleton] at hnext
      obtain ⟨hentries, hok, hover⟩ := hnext
      simp only [Cut.items_cons, Cut.stuck_cons, length_cons, hroom, take_succ_cons, map_cons]
      refine ⟨?_, ?_, ?_⟩
      · rw [hentries, append_assoc]
        rfl
      · intro h
        exact hok (by omega)
      intro h
      exact hover (by omega)

/-! ## The field iterator -/

theorem FieldIterator.fault_recordFault (it : FieldIterator) {kind : FieldFault} (lengthTag : ℕ)
    (h : kind ≠ .none) : (it.recordFault kind lengthTag).fault ≠ .none := by
  unfold recordFault
  split
  · exact h
  · assumption

@[simp] theorem FieldIterator.pos_recordFault (it : FieldIterator) (kind : FieldFault)
    (lengthTag : ℕ) : (it.recordFault kind lengthTag).pos = it.pos := by
  unfold recordFault
  split <;> rfl

theorem FieldIterator.readValue_keeps (hooks : DictHooks) (n : ℕ) (it : FieldIterator) (tag : ℕ)
    (value : Bytes) : (it.readValue hooks n tag value).pos = it.pos ∧
      (it.fault ≠ .none → (it.readValue hooks n tag value).fault ≠ .none) := by
  have hmismatch : FieldFault.lengthDataMismatch ≠ .none := by decide
  unfold readValue
  dsimp only
  split
  · split
    · exact ⟨pos_recordFault _ _ _, fun _ => fault_recordFault _ _ hmismatch⟩
    split
    · split
      · exact ⟨pos_recordFault _ _ _, fun _ => fault_recordFault _ _ hmismatch⟩
      · exact ⟨rfl, id⟩
    · exact ⟨pos_recordFault _ _ _, fun _ => fault_recordFault _ _ hmismatch⟩
  · split <;> exact ⟨rfl, id⟩

theorem FieldIterator.readValue_of_none (h : carriedValue it.prevData tag value = none) :
    (it.readValue hooks n tag value).fault ≠ .none := by
  have hmismatch : FieldFault.lengthDataMismatch ≠ .none := by decide
  unfold carriedValue at h
  split at h
  next hcounted =>
    have hcounted' : it.prevData.tag ≠ 0 ∧ tag = it.prevData.tag := ⟨hcounted.1, hcounted.2.symm⟩
    unfold countedValue at h
    unfold readValue
    simp only [if_pos hcounted']
    split
    · exact fault_recordFault _ _ hmismatch
    cases hdrop : value.drop it.prevData.len with
    | nil => exact fault_recordFault _ _ hmismatch
    | cons e rest =>
      rw [hdrop] at h
      dsimp only at h ⊢
      split at h
      · cases h
      next hsoh =>
      rw [if_pos hsoh]
      exact fault_recordFault _ _ hmismatch
  · cases h

theorem FieldIterator.readValue_of_some (h : carriedValue it.prevData tag value = some (v, rest)) :
    it.readValue hooks n tag value =
      { it with
        cur := { tag := tag, start := n - value.length, stop := n - value.length + v.length }
        next := rest.drop 1
        prevData := nextCarry (parseBoundedU32 0) hooks it.prevData tag v } := by
  obtain ⟨rfl, hends, hrest⟩ := carriedValue_iff.mp h
  unfold readValue nextCarry
  by_cases hcounted : it.prevData.tag ≠ 0 ∧ it.prevData.tag = tag
  · have hcounted' : it.prevData.tag ≠ 0 ∧ tag = it.prevData.tag := ⟨hcounted.1, hcounted.2.symm⟩
    obtain ⟨tail, rfl⟩ := hrest.resolve_left fun hnil => hnil.2 hcounted
    have hlen : v.length = it.prevData.len := (if_pos hcounted).mp hends
    simp only [if_pos hcounted, if_pos hcounted', ← hlen]
    simp
  have hcounted' : ¬(it.prevData.tag ≠ 0 ∧ tag = it.prevData.tag) := by
    rintro ⟨hne, heq⟩
    exact hcounted ⟨hne, heq.symm⟩
  simp only [carriedValue, if_neg hcounted, Option.some.injEq] at h
  simp only [if_neg hcounted, if_neg hcounted', h]
  split <;> rfl

theorem FieldIterator.advance_cases (hooks : DictHooks) (n : ℕ) (hpos : it.pos = b :: bytes) :
    (∃ tag value, readTag false 0 it.pos = some (tag, value) ∧
      it.advance hooks n = it.readValue hooks n tag value) ∨
    readTag false 0 it.pos = none ∧ (it.advance hooks n).fault ≠ .none ∧
      (it.advance hooks n).pos = it.pos := by
  have hbad : FieldFault.malformedTag ≠ .none := by decide
  have hstop : ({ it.recordFault .malformedTag 0 with done := true } : FieldIterator).fault ≠ .none ∧
      ({ it.recordFault .malformedTag 0 with done := true } : FieldIterator).pos = it.pos :=
    ⟨fault_recordFault _ _ hbad, pos_recordFault _ _ _⟩
  have htag := readTag_eq b bytes
  unfold advance
  rw [← hpos] at htag
  rw [hpos]
  dsimp only
  rw [← hpos, htag]
  cases scanTag 0 it.pos with
  | nonDigit => exact .inr ⟨rfl, hstop⟩
  | outOfRange => exact .inr ⟨rfl, hstop⟩
  | «at» tag rest =>
    cases rest with
    | nil => exact .inr ⟨rfl, hstop⟩
    | cons e value =>
      dsimp only
      by_cases he : e ≠ equalsSign
      · rw [if_pos (.inl he), if_pos he]
        exact .inr ⟨rfl, hstop⟩
      rw [if_neg he]
      by_cases hempty : value.length + 1 = it.pos.length
      · rw [if_pos (.inr hempty), if_pos hempty]
        obtain ⟨hkeep, hfault⟩ := readValue_keeps hooks n
          (it.recordFault .malformedTag 0) tag value
        rw [pos_recordFault] at hkeep
        exact .inr ⟨rfl, hfault (fault_recordFault _ _ hbad), hkeep⟩
      · rw [if_neg (not_or.mpr ⟨he, hempty⟩), if_neg hempty]
        exact .inl ⟨tag, value, rfl, rfl⟩

theorem FieldIterator.advance_of_none (hpos : it.pos = b :: bytes)
    (h : carriedRead (parseBoundedU32 0) hooks n it.prevData it.pos = none) :
    (it.advance hooks n).fault ≠ .none ∧ (it.advance hooks n).pos = it.pos := by
  obtain ⟨tag, value, htag, hread⟩ | ⟨-, hfault⟩ := advance_cases hooks n hpos
  · have hvalue : carriedValue it.prevData tag value = none := by
      rw [Option.eq_none_iff_forall_ne_some]
      intro r hr
      simp [carriedRead, htag, hr] at h
    rw [hread]
    exact ⟨readValue_of_none hvalue, (readValue_keeps hooks n it tag value).1⟩
  · exact hfault

theorem FieldIterator.advance_of_some (hpos : it.pos = b :: bytes)
    (h : carriedRead (parseBoundedU32 0) hooks n it.prevData it.pos = some (span, rest, carry)) :
    it.advance hooks n = { it with cur := span, next := rest, prevData := carry } := by
  obtain ⟨tag, value, v, tail, htag, hv, -, rfl, rfl, rfl⟩ := carriedRead_eq_some h
  obtain ⟨tag', value', htag', hread⟩ | ⟨hnone, -⟩ := advance_cases hooks n hpos
  · rw [htag] at htag'
    cases htag'
    rw [hread, readValue_of_some hv]
  · rw [htag] at hnone
    cases hnone

theorem FieldIterator.cutFrom_eq (hooks : DictHooks) (n fuel : ℕ) (it : FieldIterator)
    (hfault : it.fault = .none) (hdone : it.done = false) (hfuel : it.pos.length ≤ fuel) :
    let c := (carriedRead (parseBoundedU32 0) hooks n).cut fuel it.prevData it.pos
    cutFrom hooks n (fuel + 1) (it.advance hooks n) =
      ⟨c.items, c.stuck.map fun bytes => n - bytes.length⟩ := by
  induction fuel generalizing it with
  | zero =>
    have hpos : it.pos = [] := eq_nil_of_length_eq_zero (by omega)
    simp [cutFrom, advance, hpos, hfault]
  | succ fuel ih =>
    cases hpos : it.pos with
    | nil => simp [cutFrom, advance, hpos, hfault]
    | cons b bytes =>
      cases hread : carriedRead (parseBoundedU32 0) hooks n it.prevData it.pos with
      | none =>
        obtain ⟨hbad, hkeep⟩ := advance_of_none hpos hread
        rw [hpos] at hread hkeep
        rw [Reader.cut_of_none hread]
        unfold cutFrom
        rw [if_pos hbad, hkeep]
        rfl
      | some r =>
        obtain ⟨span, rest, carry⟩ := r
        have hnext := advance_of_some hpos hread
        rw [hpos] at hread
        rw [Reader.cut_of_some hread, hnext]
        have hrest : rest.length ≤ fuel := by
          rw [hpos, length_cons] at hfuel
          rcases carriedRead_takes _ hooks n _ _ _ _ _ hread with htaken | ⟨rfl, -⟩
          · rw [length_cons] at htaken
            omega
          · exact Nat.zero_le _
        have hwalk := ih { it with pos := rest, cur := span, next := rest, prevData := carry }
          hfault hdone hrest
        have hgoing : ¬it.done = true := by
          rw [hdone]
          exact Bool.false_ne_true
        rw [cutFrom, if_neg (not_not.mpr hfault), if_neg hgoing]
        dsimp only [incr] at hwalk ⊢
        rw [hwalk]
        rfl

theorem iteratorCut_eq (hooks : DictHooks) (frame : Bytes) :
    let c := (carriedRead (parseBoundedU32 0) hooks frame.length).cut frame.length {} frame
    iteratorCut hooks frame = ⟨c.items, c.stuck.map fun bytes => frame.length - bytes.length⟩ :=
  cutFrom_eq hooks frame.length frame.length { pos := frame } rfl rfl (Nat.le_refl _)

/-! ## The three readers -/

theorem carriedRead_cut (hcount : ∀ value : Bytes, value.length < frame.length →
      min (count value) frame.length = min (parseBoundedU32 0 value) frame.length)
    (hchain : hooks.Unchained) :
    (carriedRead count hooks frame.length).cut frame.length {} frame =
      (headerRead hooks frame.length).cut frame.length {} frame :=
  Reader.cut_eq_of_sim (carriedRead_agree hcount hchain) _
    ⟨Nat.le_refl _, rfl, fun h => absurd rfl h, fun h => absurd rfl h⟩

theorem iteratorCut_eq_headerCut (hchain : hooks.Unchained) (frame : Bytes) :
    iteratorCut hooks frame = headerCut hooks frame := by
  rw [iteratorCut_eq, carriedRead_cut (fun _ _ => rfl) hchain]
  rfl

theorem span_ofSpan {f : FieldSpan} (hn : n < 2 ^ 32) (hstart : f.start ≤ f.stop)
    (hstop : f.stop ≤ n) : (OffsetTable.Entry.ofSpan f).span = f := by
  obtain ⟨tag, start, stop⟩ := f
  simp only at hstart hstop
  simp only [OffsetTable.Entry.ofSpan, OffsetTable.Entry.span]
  rw [Nat.mod_eq_of_lt (by omega), Nat.mod_eq_of_lt (by omega)]
  congr
  omega

theorem carriedRead_within :
    ∀ f ∈ ((carriedRead count hooks frame.length).cut frame.length {} frame).items,
      f.start ≤ f.stop ∧ f.stop ≤ frame.length := by
  refine Reader.forall_mem_cut (I := fun bytes _ => bytes.length ≤ frame.length) ?_ _
    (Nat.le_refl _)
  intro carry bytes span rest carry' hbytes h
  obtain ⟨tag, value, v, tail, htag, -, happend, rfl, rfl, -⟩ := carriedRead_eq_some h
  have hlen := length_of_readTag htag
  rw [← happend, length_append] at hlen ⊢
  rw [length_drop]
  dsimp only
  omega

theorem tableCut_eq (hchain : hooks.Unchained) (hlen : frame.length < 2 ^ 32) (cap : ℕ) :
    (tableCut cap hooks frame).fields = (headerCut hooks frame).fields.take cap ∧
      ((headerCut hooks frame).fields.length ≤ cap →
        (tableCut cap hooks frame).malformedAt = (headerCut hooks frame).malformedAt ∧
        ((build cap hooks frame).status = .ok ↔ (headerCut hooks frame).malformedAt = none) ∧
        (build cap hooks frame).status ≠ .offsetTableFull) ∧
      (cap < (headerCut hooks frame).fields.length →
        (build cap hooks frame).status = .offsetTableFull) := by
  have hcut : (carriedRead (tableCount frame.length) hooks frame.length).cut frame.length {} frame =
      (headerRead hooks frame.length).cut frame.length {} frame :=
    carriedRead_cut (fun value hvalue => min_declaredLength_zero hlen value hvalue) hchain
  have hwithin : ∀ f ∈ (headerCut hooks frame).fields, f.start ≤ f.stop ∧ f.stop ≤ frame.length := by
    unfold headerCut
    rw [← hcut]
    exact carriedRead_within
  obtain ⟨hentries, hfits, hover⟩ := buildLoop_eq cap hooks frame.length frame.length [] {} frame
    (Nat.zero_le _)
  rw [hcut] at hentries hfits hover
  simp only [nil_append, length_nil, Nat.sub_zero, Nat.zero_add] at hentries hfits hover
  refine ⟨?_, ?_, hover⟩
  · unfold tableCut buildEnd
    dsimp only
    rw [hentries, map_map]
    conv_rhs => rw [← map_id ((headerCut hooks frame).fields.take cap)]
    apply map_congr_left
    intro f hf
    obtain ⟨hstart, hstop⟩ := hwithin f (mem_of_mem_take hf)
    exact span_ofSpan hlen hstart hstop
  intro hle
  obtain ⟨hok, hbad⟩ := hfits hle
  unfold tableCut build buildEnd headerCut
  dsimp only
  cases hstuck : ((headerRead hooks frame.length).cut frame.length {} frame).stuck with
  | none =>
    rw [hok hstuck]
    simp [TableStatus.isMalformed]
  | some rest =>
    obtain ⟨hmalformed, hstop⟩ := hbad rest hstuck
    rw [hmalformed, hstop]
    refine ⟨rfl, ⟨fun h => ?_, fun h => (nomatch h)⟩, fun h => ?_⟩
    · rw [h] at hmalformed
      cases hmalformed
    rw [h] at hmalformed
    cases hmalformed

/-- A session whose inbound limit admits a frame has an entry for every field of it: the build never
holds more of them than were reserved for the frame. -/
theorem build_within_capacity (limit : ℕ) (hooks : DictHooks) (frame : Bytes)
    (hlimit : frame.length ≤ limit) :
    (OffsetTable.build (entryCapFor limit) hooks frame).status ≠ .offsetTableFull ∧
      ∀ rounds, (OffsetTable.buildLoop (entryCapFor limit) hooks frame.length rounds [] {}
          frame).entries.length ≤
        OffsetTable.reserved (entryCapFor limit) (reserveFor (entryCapFor limit) frame.length) := by
  -- three bytes a field, up to the last one that the end of the frame cuts short
  have hitems := (carriedRead_takes (tableCount frame.length) hooks frame.length).length_items
  have hloop := fun rounds => buildLoop_eq (entryCapFor limit) hooks frame.length rounds [] {} frame
    (Nat.zero_le _)
  constructor
  · obtain ⟨-, hroom, -⟩ := hloop frame.length
    specialize hitems frame.length {} frame
    obtain ⟨hok, hbad⟩ := hroom (by
      unfold entryCapFor
      rw [length_nil]
      omega)
    change (buildEnd (entryCapFor limit) hooks frame).status ≠ _
    unfold buildEnd
    cases hstuck : ((carriedRead (tableCount frame.length) hooks frame.length).cut frame.length {}
        frame).stuck with
    | none =>
      rw [hok hstuck]
      exact nofun
    | some rest =>
      intro hfull
      have hmalformed := (hbad rest hstuck).1
      rw [hfull] at hmalformed
      cases hmalformed
  · intro rounds
    specialize hitems rounds {} frame
    rw [(hloop rounds).1, nil_append, length_map, length_take]
    unfold reserved reserveFor entryCapFor
    omega

/-- A frame of fields of three bytes, at the limit and in the reserve. -/
theorem crowded_within_capacity :
    (OffsetTable.build (entryCapFor 10) DictHooks.none (ascii "1=\x011=\x011=\x01x")).status ≠
      .offsetTableFull :=
  (build_within_capacity 10 DictHooks.none (ascii "1=\x011=\x011=\x01x") (by decide +kernel)).1

/-- With a table view whose pairs do not chain, or none, the iterator and the header scan cut a
frame alike, and so does the offset table unless it runs out of entries; then it says so, and cut
the fields it had room for alike. -/
theorem one_field_split (source : TableSource)
    (hroute : ∀ d s, source = .fixtRoutePairs d s → source.hooks.Unchained) (frame : Bytes)
    (hlen : frame.length < 2 ^ 32) (cap : ℕ) :
    let cut := headerCut source.hooks frame
    iteratorCut source.hooks frame = cut ∧
      ((scanFrameHeader source.hooks frame).fault = .none ↔ cut.malformedAt = none) ∧
      (cut.fields.length ≤ cap → tableCut cap source.hooks frame = cut ∧
        ((build cap source.hooks frame).status = .ok ↔ cut.malformedAt = none) ∧
        (build cap source.hooks frame).status ≠ .offsetTableFull) ∧
      (cap < cut.fields.length → (build cap source.hooks frame).status = .offsetTableFull ∧
        (tableCut cap source.hooks frame).fields = cut.fields.take cap) := by
  have hchain := TableSource.unchained hroute
  obtain ⟨hfields, hfits, hover⟩ := tableCut_eq hchain hlen cap
  obtain ⟨fault, lengthTag, hscan, hfault⟩ := scanFrameHeader_eq source.hooks frame
  refine ⟨iteratorCut_eq_headerCut hchain frame, ?_, ?_, ?_⟩
  · rw [hscan]
    exact hfault
  · intro hle
    obtain ⟨hmalformed, hstatus, hroom⟩ := hfits hle
    rw [take_of_length_le hle] at hfields
    exact ⟨FieldCut.ext hfields hmalformed, hstatus, hroom⟩
  · intro hlt
    exact ⟨hover hlt, hfields⟩

def headerPairDocument : XmlDocument where
  fields := [⟨"HopLen", 5001, .length⟩, ⟨"Hop", 5002, .data⟩]
  root := []
  distinct := by decide

def bodyPairDocument : XmlDocument where
  fields := [⟨"NoteLen", 5002, .length⟩, ⟨"Note", 5003, .data⟩]
  root := []
  distinct := by decide

/-- The route table of the second dictionary for a session with the first. -/
def chainedRoute : TableSource :=
  .fixtRoutePairs (bodyPairDocument.dictionary [5002, 5003] [])
    (headerPairDocument.dictionary [5001, 5002] [5001, 5002])

/-- `count` fields of three bytes, and a malformed one behind them. -/
def crowdedFrame (count : ℕ) : Bytes := (replicate count [49, 61, soh]).flatten ++ ascii "x"

theorem length_crowdedFrame (count : ℕ) : (crowdedFrame count).length = 3 * count + 1 := by
  simp [crowdedFrame, ascii, Nat.mul_comm]

/-- Tag 1 is no Length, so the fields are read one by one up to the malformed one. -/
theorem cut_crowdedFrame (n count fuel : ℕ) (carry : LengthDataCarry)
    (hfuel : count < fuel) (hcarry : carry.dataTag = 0) :
    let c := (headerRead DictHooks.none n).cut fuel carry (crowdedFrame count)
    c.items.length = count ∧ c.stuck = some (ascii "x") := by
  induction count generalizing fuel carry with
  | zero =>
    obtain ⟨fuel, rfl⟩ : ∃ m, fuel = m + 1 := ⟨fuel - 1, by omega⟩
    exact ⟨rfl, rfl⟩
  | succ count ih =>
    obtain ⟨fuel, rfl⟩ : ∃ m, fuel = m + 1 := ⟨fuel - 1, by omega⟩
    have hread : headerRead DictHooks.none n carry (crowdedFrame (count + 1)) =
        some ({ tag := 1, start := n - (soh :: crowdedFrame count).length,
                stop := n - (soh :: crowdedFrame count).length },
          crowdedFrame count, { dataTag := 0, count := carry.count }) := by
      have hcons : crowdedFrame (count + 1) = 49 :: 61 :: soh :: crowdedFrame count := by
        simp [crowdedFrame, replicate_succ]
      have hnone : DictHooks.none 1 = 0 := by decide +kernel
      have htag : readTag false 0 (49 :: 61 :: soh :: crowdedFrame count) =
          some (1, soh :: crowdedFrame count) := rfl
      have hsplit : splitValue (soh :: crowdedFrame count) = ([], soh :: crowdedFrame count) := rfl
      simp only [hcons, headerRead, htag, LengthDataCarry.readValue, hcarry, ne_eq, not_true,
        false_and, if_false, hsplit, hnone, drop_one, tail_cons]
    obtain ⟨hitems, hstuck⟩ := ih fuel { dataTag := 0, count := carry.count } (by omega) rfl
    have hcut : (headerRead DictHooks.none n).cut (fuel + 1) carry (crowdedFrame (count + 1)) =
        Cut.cons _ ((headerRead DictHooks.none n).cut fuel _ (crowdedFrame count)) :=
      Reader.cut_of_some hread
    dsimp only
    rw [hcut, Cut.items_cons, Cut.stuck_cons, length_cons, hitems]
    exact ⟨rfl, hstuck⟩

theorem build_crowdedFrame {cap count : ℕ} (hcap : cap < count) (hcount : 3 * count + 1 < 2 ^ 32) :
    (build cap DictHooks.none (crowdedFrame count)).status = .offsetTableFull ∧
      (tableCut cap DictHooks.none (crowdedFrame count)).malformedAt = none ∧
      (headerCut DictHooks.none (crowdedFrame count)).malformedAt = some (3 * count) := by
  have hlen := length_crowdedFrame count
  obtain ⟨hitems, hstuck⟩ := cut_crowdedFrame (crowdedFrame count).length count
    (crowdedFrame count).length {} (by omega) rfl
  have hfields : (headerCut DictHooks.none (crowdedFrame count)).fields.length = count := hitems
  have hshort : (crowdedFrame count).length < 2 ^ 32 := by omega
  have hfull := (tableCut_eq dictHooks_none_unchained hshort cap).2.2
    (by rw [hfields]; exact hcap)
  have hend : (buildEnd cap DictHooks.none (crowdedFrame count)).status = .offsetTableFull := hfull
  refine ⟨hfull, ?_, ?_⟩
  · simp [tableCut, hend, TableStatus.isMalformed]
  simp only [headerCut, hstuck, Option.map_some]
  rw [hlen]
  rfl

/-- A table with the default number of entries gives up before the malformed field the header scan
reports. And with a chained route table the header scan counts the value of 5003 by the value of
5002, which the table does not. -/
theorem split_differs : (∃ frame : Bytes, frame.length < 2 ^ 32 ∧
      (OffsetTable.build defaultMaxOffsetEntries TableSource.none.hooks frame).status =
        .offsetTableFull ∧
      (tableCut defaultMaxOffsetEntries TableSource.none.hooks frame).malformedAt = none ∧
      (headerCut TableSource.none.hooks frame).malformedAt = some 12291) ∧
    ((tableCut defaultMaxOffsetEntries chainedRoute.hooks
        (fieldsOf ["5001=1", "5002=2", "5003=a"])).malformedAt = none ∧
      (headerCut chainedRoute.hooks (fieldsOf ["5001=1", "5002=2", "5003=a"])).malformedAt =
        some 14) := by
  refine ⟨⟨crowdedFrame 4097, ?_, ?_⟩, by decide +kernel⟩
  · rw [length_crowdedFrame]
    decide
  · exact build_crowdedFrame (by decide) (by decide)

/-- The frames, tables and caps `one_field_split` is about are there: a Data value
with an SOH in it, a table of two entries and a malformed third field. -/
theorem one_field_split_counted :
    let frame := fieldsOf ["95=3", "96=a\x01b", "x"]
    let cut := headerCut TableSource.none.hooks frame
    iteratorCut TableSource.none.hooks frame = cut ∧
      cut.fields.length = 2 ∧ tableCut 2 TableSource.none.hooks frame = cut ∧
      cut.malformedAt = some 12 := by
  have hsplit := one_field_split .none (fun _ _ h => (nomatch h))
    (fieldsOf ["95=3", "96=a\x01b", "x"]) (by decide +kernel) 2
  refine ⟨hsplit.1, by decide +kernel, (hsplit.2.2.1 (by decide +kernel)).1, by decide +kernel⟩

end Fixpp.Model
