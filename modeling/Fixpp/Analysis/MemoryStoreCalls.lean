import Fixpp.Interface.FrameStore

/-!
# The memory store answers as a numbered store

The slots of a bounded store do not overlap, and an unbounded store only appends, so a frame
stays where its entry says it lies. So each call is answered as the numbered store of the
interface answers it, up to the refusals of a bounded store that is full.
-/

namespace Fixpp.Analysis.StoreMemory

open Interface Model FrameStore List

variable {cfg : MemoryStoreConfig} {m : MemoryStore} {c : StoreCall}
variable {offset len : ℕ} {d : Direction} {next : Direction → ℕ}

/-! ## The slab -/

variable {slab frame : Bytes} {dir : Direction}

theorem slice_copyInto (h : offset + frame.length ≤ slab.length) :
    slice (copyInto slab offset frame) offset frame.length = frame := by
  have hdrop : (copyInto slab offset frame).drop offset =
      frame ++ slab.drop (offset + frame.length) := by
    rw [copyInto, append_assoc, drop_append_of_le_length (by simp; omega)]
    simp
  rw [slice, hdrop, take_left]

theorem slice_copyInto_beside {o : ℕ} (h : offset + frame.length ≤ slab.length)
    (hbeside : o + len ≤ offset ∨ offset + frame.length ≤ o) :
    slice (copyInto slab offset frame) o len = slice slab o len := by
  have htake : (slab.take offset).length = offset := by simp; omega
  rcases hbeside with hbefore | hbehind
  · rw [slice, slice, copyInto, append_assoc, drop_append_of_le_length (by omega),
      take_append_of_le_length (by rw [length_drop]; omega), drop_take, take_take,
      Nat.min_eq_left (by omega)]
  have hlen : (slab.take offset ++ frame).length = offset + frame.length := by
    rw [length_append, htake]
  have hdrop : (copyInto slab offset frame).drop o = slab.drop o := by
    rw [copyInto, drop_append, hlen, drop_of_length_le (by omega), nil_append, drop_drop]
    congr 1
    omega
  rw [slice, slice, hdrop]

def frameAt (slab : Bytes) (e : MemoryEntry) : ℕ × Bytes :=
  (e.seq, slice slab e.slabOffset e.bytesLen)

def view (m : MemoryStore) : FrameStore := ⟨fun d => (m.entries d).map (frameAt m.slab), m.next⟩

@[simp] theorem view_next (m : MemoryStore) : (view m).next = m.next := rfl

theorem slot_disjoint {i j : ℕ} (hi : i < cfg.capacity d) (hj : j < cfg.capacity dir)
    (hne : ¬ (d = dir ∧ i = j)) {len' : ℕ} (hlen : len ≤ cfg.maxFrameBytes)
    (hlen' : len' ≤ cfg.maxFrameBytes) :
    cfg.slabOffsetFor i d + len ≤ cfg.slabOffsetFor j dir ∨
      cfg.slabOffsetFor j dir + len' ≤ cfg.slabOffsetFor i d := by
  have hmul : ∀ {a b n : ℕ}, a < b → n ≤ cfg.maxFrameBytes →
      a * cfg.maxFrameBytes + n ≤ b * cfg.maxFrameBytes := by
    intro a b n hab hn
    calc a * cfg.maxFrameBytes + n ≤ a * cfg.maxFrameBytes + cfg.maxFrameBytes := by omega
      _ = (a + 1) * cfg.maxFrameBytes := (Nat.succ_mul _ _).symm
      _ ≤ b * cfg.maxFrameBytes := Nat.mul_le_mul_right _ hab
  cases d <;> cases dir <;> simp only [MemoryStoreConfig.slabOffsetFor,
    MemoryStoreConfig.capacity] at hi hj ⊢
  · obtain hlt | rfl | hlt := Nat.lt_trichotomy i j
    exacts [.inl (hmul hlt hlen), absurd ⟨rfl, rfl⟩ hne, .inr (hmul hlt hlen')]
  · exact .inl (hmul (by omega) hlen)
  · exact .inr (hmul (by omega) hlen')
  obtain hlt | rfl | hlt := Nat.lt_trichotomy i j
  exacts [.inl (hmul (by omega) hlen), absurd ⟨rfl, rfl⟩ hne, .inr (hmul (by omega) hlen')]

def Placed (cfg : MemoryStoreConfig) (m : MemoryStore) : Prop :=
  match cfg.policy with
  | .bounded =>
    m.slab.length = (cfg.inboundCapacity + cfg.outboundCapacity) * cfg.maxFrameBytes ∧
      ∀ d i e, (m.entries d)[i]? = some e →
        e.slabOffset = cfg.slabOffsetFor i d ∧ e.bytesLen ≤ cfg.maxFrameBytes ∧ i < cfg.capacity d
  | .unbounded => ∀ d, ∀ e ∈ m.entries d, e.slabOffset + e.bytesLen ≤ m.slab.length

def nextOffset (cfg : MemoryStoreConfig) (m : MemoryStore) (dir : Direction) : ℕ :=
  match cfg.policy with
  | .bounded => cfg.slabOffsetFor (m.entries dir).length dir
  | .unbounded => m.slab.length

def afterStore (cfg : MemoryStoreConfig) (m : MemoryStore) (frame : Bytes) (dir : Direction) :
    MemoryStore :=
  { m with
      slab := copyInto m.slab (nextOffset cfg m dir) frame
      entries := Function.update m.entries dir
        (m.entries dir ++ [⟨m.next dir, frame.length, nextOffset cfg m dir⟩])
      next := Function.update m.next dir (succSeqnum (m.next dir)) }

/-- A frame that is not too long finds a free slot. -/
structure Room (cfg : MemoryStoreConfig) (m : MemoryStore) (frame : Bytes) (dir : Direction) :
    Prop where
  slot : cfg.policy = .bounded → (m.entries dir).length < cfg.capacity dir
  length : frame.length ≤ cfg.maxFrameBytes

theorem nextOffset_fits (h : Placed cfg m) (hroom : Room cfg m frame dir)
    (hbounded : cfg.policy = .bounded) : nextOffset cfg m dir + frame.length ≤ m.slab.length := by
  simp only [Placed, hbounded] at h
  have hslot := hroom.slot hbounded
  have hlen := hroom.length
  have hmul : ∀ {a b : ℕ}, a < b → a * cfg.maxFrameBytes + frame.length ≤ b * cfg.maxFrameBytes := by
    intro a b hab
    calc a * cfg.maxFrameBytes + frame.length ≤ a * cfg.maxFrameBytes + cfg.maxFrameBytes := by omega
      _ = (a + 1) * cfg.maxFrameBytes := (Nat.succ_mul _ _).symm
      _ ≤ b * cfg.maxFrameBytes := Nat.mul_le_mul_right _ hab
  simp only [nextOffset, hbounded, h.1]
  cases dir <;> simp only [MemoryStoreConfig.slabOffsetFor, MemoryStoreConfig.capacity] at hslot ⊢
  · exact hmul (by omega)
  · exact hmul (by omega)

theorem copyInto_end (slab frame : Bytes) : copyInto slab slab.length frame = slab ++ frame := by
  simp [copyInto]

theorem slice_stored (h : Placed cfg m) (hroom : Room cfg m frame dir) :
    slice (afterStore cfg m frame dir).slab (nextOffset cfg m dir) frame.length = frame := by
  cases hpolicy : cfg.policy with
  | bounded => exact slice_copyInto (nextOffset_fits h hroom hpolicy)
  | unbounded =>
    simp only [afterStore, nextOffset, hpolicy, copyInto_end]
    simp [slice]

theorem slice_kept (h : Placed cfg m) (hroom : Room cfg m frame dir) {e : MemoryEntry}
    (he : e ∈ m.entries d) :
    slice (afterStore cfg m frame dir).slab e.slabOffset e.bytesLen =
      slice m.slab e.slabOffset e.bytesLen := by
  cases hpolicy : cfg.policy with
  | bounded =>
    have hfits := nextOffset_fits h hroom hpolicy
    simp only [Placed, hpolicy] at h
    obtain ⟨i, hi⟩ := mem_iff_getElem?.mp he
    obtain ⟨hoffset, hbytes, hslot⟩ := h.2 d i e hi
    refine slice_copyInto_beside hfits ?_
    have hne : ¬ (d = dir ∧ i = (m.entries dir).length) := by
      rintro ⟨rfl, rfl⟩
      simp at hi
    simpa only [hoffset, nextOffset, hpolicy] using
      slot_disjoint hslot (hroom.slot hpolicy) hne hbytes hroom.length
  | unbounded =>
    simp only [Placed, hpolicy] at h
    have := h d e he
    simp only [afterStore, nextOffset, hpolicy, copyInto_end, slice]
    rw [drop_append_of_le_length (by omega), take_append_of_le_length (by rw [length_drop]; omega)]

theorem length_copyInto (h : offset + frame.length ≤ slab.length) :
    (copyInto slab offset frame).length = slab.length := by
  simp only [copyInto, length_append, length_take, length_drop]
  omega

theorem placed_stored (h : Placed cfg m) (hroom : Room cfg m frame dir) : Placed cfg
    (afterStore cfg m frame dir) := by
  cases hpolicy : cfg.policy with
  | bounded =>
    have hfits := nextOffset_fits h hroom hpolicy
    simp only [Placed, hpolicy] at h ⊢
    refine ⟨(length_copyInto hfits).trans h.1, fun d i e he => ?_⟩
    by_cases hd : d = dir
    · subst hd
      simp only [afterStore, Function.update_self] at he
      obtain hlt | rfl | hgt := Nat.lt_trichotomy i (m.entries d).length
      · rw [getElem?_append_left hlt] at he
        exact h.2 d i e he
      · simp only [getElem?_concat_length, Option.some.injEq] at he
        subst he
        exact ⟨by simp [nextOffset, hpolicy], hroom.length, hroom.slot hpolicy⟩
      · rw [getElem?_eq_none (by simp; omega)] at he
        cases he
    · simp only [afterStore, Function.update_of_ne hd] at he
      exact h.2 d i e he
  | unbounded =>
    simp only [Placed, hpolicy] at h ⊢
    intro d e he
    have hgrown : (afterStore cfg m frame dir).slab.length = m.slab.length + frame.length := by
      simp [afterStore, nextOffset, hpolicy, copyInto_end]
    rw [hgrown]
    by_cases hd : d = dir
    · subst hd
      simp only [afterStore, Function.update_self, mem_append, mem_singleton] at he
      rcases he with he | rfl
      · have := h d e he
        omega
      · simp [nextOffset, hpolicy]
    · simp only [afterStore, Function.update_of_ne hd] at he
      have := h d e he
      omega

/-- A store whose entries lie in the slab and are in order. -/
structure Sound (cfg : MemoryStoreConfig) (m : MemoryStore) : Prop where
  placed : Placed cfg m
  ordered : (view m).Ordered
  below : ∀ d, ∀ e ∈ m.entries d, e.seq < m.next d

theorem view_stored (h : Sound cfg m) (hroom : Room cfg m frame dir) :
    view (afterStore cfg m frame dir) = ((view m).put (m.next dir) frame dir).advance dir := by
  have hold : ∀ d, (m.entries d).map (frameAt (afterStore cfg m frame dir).slab) =
      (m.entries d).map (frameAt m.slab) := fun d =>
    map_congr_left fun e he => by rw [frameAt, frameAt, slice_kept h.placed hroom he]
  -- every number retained is below the next one, so the frame goes behind them
  have hjoins : indexFrame Prod.fst ((m.entries dir).map (frameAt m.slab)) (m.next dir, frame) =
      (m.entries dir).map (frameAt m.slab) ++ [(m.next dir, frame)] := by
    simp only [indexFrame, getLast?_map]
    cases hback : (m.entries dir).getLast? with
    | none => rfl
    | some back =>
      have hlt := h.below dir back (mem_of_getLast? hback)
      have hne : (frameAt m.slab back).1 ≠ m.next dir := Nat.ne_of_lt hlt
      simp [hne]
  simp only [view, put, advance, mk.injEq]
  refine ⟨funext fun d => ?_, rfl⟩
  by_cases hd : d = dir
  · subst hd
    rw [Function.update_self, hjoins, ← hold d]
    simp only [afterStore, Function.update_self, map_append, map_cons, map_nil]
    congr 2
    exact Prod.ext rfl (slice_stored h.placed hroom)
  · rw [Function.update_of_ne hd, ← hold d]
    simp only [afterStore, Function.update_of_ne hd]

theorem sound_stored (h : Sound cfg m) (hroom : Room cfg m frame dir) (hlt : m.next dir < seqnumMax) :
    Sound cfg (afterStore cfg m frame dir) := by
  refine ⟨placed_stored h.placed hroom, ?_, fun d e he => ?_⟩
  · rw [view_stored h hroom]
    exact (h.ordered.put hlt frame).advance hlt
  by_cases hd : d = dir
  · subst hd
    simp only [afterStore, Function.update_self, mem_append, mem_singleton,
      succSeqnum_of_lt hlt] at he ⊢
    rcases he with he | rfl
    · have := h.below d e he
      omega
    · simp
  · simp only [afterStore, Function.update_of_ne hd] at he ⊢
    exact h.below d e he

/-! ## Calls -/

theorem retrieve_eq (m : MemoryStore) (first last : ℕ) (dir : Direction) (visitor : Visitor) :
    m.retrieve first last dir visitor =
      retrieveEntries Prod.fst (fun e => .ok e.2) ((view m).frames dir) ((view m).next dir) first
        last visitor := by
  have hread : ∀ e ∈ m.entries dir, .ok (frameAt m.slab e).2 = m.readEntry m.generation e := by
    intro e _
    simp [MemoryStore.readEntry, frameAt]
  have hseq : ∀ e, Prod.fst (frameAt m.slab e) = MemoryEntry.seq e := fun _ => rfl
  exact (retrieveEntries_map hseq hread (m.next dir) first last visitor).symm

theorem store_cases (cfg : MemoryStoreConfig) (m : MemoryStore) (seq : ℕ) (frame : Bytes)
    (dir : Direction) :
    (∃ e, m.store cfg seq frame dir = (m, .error e) ∧ (cfg.policy = .unbounded →
          (view m).answer cfg.maxFrameBytes (.store seq frame dir) = (view m, .done (.error e)))) ∨
      seq = m.next dir ∧ Room cfg m frame dir ∧
        m.store cfg seq frame dir = (afterStore cfg m frame dir, .ok ()) := by
  by_cases hseq : seq = m.next dir
  · subst hseq
    by_cases hfull : cfg.policy = .bounded ∧ cfg.capacity dir ≤ (m.entries dir).length
    · refine .inl ⟨.storeCapacityExhausted, by simp [MemoryStore.store, hfull], fun h => ?_⟩
      rw [h] at hfull
      cases hfull.1
    by_cases hlong : cfg.maxFrameBytes < frame.length
    · refine .inl ⟨.storeIoFailure, ?_, fun _ => ?_⟩
      · simp [MemoryStore.store, hfull, hlong]
      · simp [answer, hlong]
    refine .inr ⟨rfl, ⟨fun h => ?_, Nat.not_lt.mp hlong⟩, ?_⟩
    · exact Nat.not_le.mp fun hcap => hfull ⟨h, hcap⟩
    simp only [MemoryStore.store, hfull, hlong, ne_eq, not_true_eq_false, if_false]
    rfl
  · refine .inl ⟨.storeSeqnumOutOfOrder, by simp [MemoryStore.store, hseq], fun _ => ?_⟩
    simp [answer, hseq]

theorem sound_fresh (hnext : ∀ d, next d = 1 ∨ next d = 2) (hslab : cfg.policy = .bounded →
      slab.length = (cfg.inboundCapacity + cfg.outboundCapacity) * cfg.maxFrameBytes)
    (generation : ℕ) : Sound cfg ⟨slab, fun _ => [], next, generation⟩ := by
  have hpos : ∀ d, 0 < next d := fun d => by
    have := hnext d
    omega
  have hle : ∀ d, next d ≤ seqnumMax := fun d => by
    have := hnext d
    simp only [seqnumMax]
    omega
  refine ⟨?_, ordered_fresh hpos hle, by simp⟩
  cases hpolicy : cfg.policy with
  | bounded => simp [Placed, hpolicy, hslab hpolicy]
  | unbounded => simp [Placed, hpolicy]

theorem sound_construct (cfg : MemoryStoreConfig) : Sound cfg cfg.construct := by
  refine sound_fresh (fun _ => .inl rfl) (fun hpolicy => ?_) 0
  simp [hpolicy]

theorem sound_resetWith (h : Sound cfg m) (hnext : ∀ d, next d = 1 ∨ next d = 2) :
    Sound cfg (m.resetWith cfg next) := by
  refine sound_fresh hnext (fun hpolicy => ?_) _
  have hplaced := h.placed
  simp only [Placed, hpolicy] at hplaced ⊢
  exact hplaced.1

theorem sound_advanced (h : Sound cfg m) (hmax : m.next dir ≠ seqnumMax) :
    Sound cfg { m with next := Function.update m.next dir (succSeqnum (m.next dir)) } := by
  have hlt : m.next dir < seqnumMax := Nat.lt_of_le_of_ne (h.ordered.next_le dir) hmax
  refine ⟨h.placed, h.ordered.advance hlt, fun d e he => ?_⟩
  have hbelow := h.below d e he
  by_cases hd : d = dir
  · subst hd
    simp only [Function.update_self, succSeqnum_of_lt hlt]
    omega
  · simpa only [Function.update_of_ne hd] using hbelow

/-- What a call does: it leaves the store in order, does to it what a call may do to a
numbered store, and of an unbounded store it is answered as the numbered store answers. -/
structure Served (cfg : MemoryStoreConfig) (m : MemoryStore) (c : StoreCall)
    (out : MemoryStore × StoreReply) : Prop where
  sound : Sound cfg out.1
  effect : Effect (view m) c (view out.1, out.2)
  answers : cfg.policy = .unbounded → (view out.1, out.2) = (view m).answer cfg.maxFrameBytes c

theorem served_of_answer {m' : MemoryStore} {r : StoreReply} (hsound : Sound cfg m')
    (h : (view m', r) = (view m).answer cfg.maxFrameBytes c) : Served cfg m c (m', r) := by
  refine ⟨hsound, ?_, fun _ => h⟩
  rw [h]
  exact answer_effect _ _ _

theorem served (h : Sound cfg m) (hc : BelowMax c) : Served cfg m c (m.serve cfg c) := by
  cases c with
  | store seq frame dir =>
    simp only [MemoryStore.serve]
    rcases store_cases cfg m seq frame dir with ⟨e, hrefused, hanswer⟩ | ⟨rfl, hroom, hstored⟩
    · rw [hrefused]
      exact ⟨h, .refused fun _ => rfl, fun hpolicy => (hanswer hpolicy).symm⟩
    rw [hstored]
    refine served_of_answer (sound_stored h hroom hc) ?_
    simp [view_stored h hroom, answer, Nat.not_lt.mpr hroom.length]
  | retrieve first last dir visitor =>
    refine served_of_answer h ?_
    simp only [retrieve_eq]
    rfl
  | nextSeqnum dir increment =>
    simp only [MemoryStore.serve, MemoryStore.nextSeqnum]
    cases hread : readCounter (m.next dir) increment with
    | error e => exact served_of_answer h (by simp [answer, hread])
    | ok current =>
      cases increment with
      | false => exact served_of_answer h (by simp [answer, hread])
      | true =>
        have hmax : m.next dir ≠ seqnumMax := fun hmax => by simp [readCounter, hmax] at hread
        refine served_of_answer (sound_advanced h hmax) ?_
        simp only [answer, view_next, hread]
        rfl
  | reset =>
    refine served_of_answer (sound_resetWith h ?_) rfl
    intro d
    cases d <;> simp [targets]
  | resetTo nextIn nextOut =>
    simp only [MemoryStore.serve, MemoryStore.resetTo]
    by_cases hvalid : resetToTargetsValid nextIn nextOut = true
    · simp only [hvalid, if_true]
      refine served_of_answer (sound_resetWith h (targets_valid hvalid)) ?_
      simp only [answer, hvalid, if_true]
      rfl
    · simp only [hvalid]
      refine served_of_answer h ?_
      simp [answer, hvalid]

/-! ## Runs -/

def recordCall (cfg : MemoryStoreConfig) (here : MemoryStore × Archive) (c : StoreCall) :
    MemoryStore × Archive :=
  ((here.1.serve cfg c).1, here.2.note c (here.1.serve cfg c).2)

/-- The store behind a list of calls, and the record of the frames stored. -/
def runCalls (cfg : MemoryStoreConfig) (calls : List StoreCall) : MemoryStore × Archive :=
  calls.foldl (recordCall cfg) (cfg.construct, Archive.empty)

def Recorded (cfg : MemoryStoreConfig) (here : MemoryStore × Archive) : Prop :=
  Sound cfg here.1 ∧ Keeps (view here.1) here.2

theorem Recorded.call {here : MemoryStore × Archive} (h : Recorded cfg here) (hc : BelowMax c) :
    Recorded cfg (recordCall cfg here c) :=
  have hserved := served h.1 hc
  ⟨hserved.sound, hserved.effect.keeps h.1.ordered h.2⟩

theorem recorded_runCalls (cfg : MemoryStoreConfig) {calls : List StoreCall}
    (hcalls : ∀ c ∈ calls, BelowMax c) : Recorded cfg (runCalls cfg calls) := by
  have hstep : ∀ (calls : List StoreCall) (here : MemoryStore × Archive),
      (∀ c ∈ calls, BelowMax c) → Recorded cfg here →
        Recorded cfg (calls.foldl (recordCall cfg) here) := by
    intro calls
    induction calls with
    | nil => exact fun _ _ h => h
    | cons c rest ih =>
      intro here hcalls h
      exact ih _ (fun c' hc' => hcalls c' (by simp [hc'])) (h.call (hcalls c (by simp)))
  exact hstep calls _ hcalls ⟨sound_construct cfg, keeps_fresh _⟩

/-- Behind any calls that store nothing under the largest number, a retrieval hands out the longest
run of numbers from `first` on that were stored since the last reset and that no hole separates from
the first one stored; it reports a gap exactly when the range has a number that is not of that kind.
-/
theorem memory_retrieve_hands_out_run (cfg : MemoryStoreConfig) {calls : List StoreCall}
    (hcalls : ∀ c ∈ calls, BelowMax c) (dir : Direction) {first last : ℕ} (hfirst : 0 < first)
    (hlast : last = 0 ∨ first ≤ last) :
    let m := (runCalls cfg calls).1
    let found := (runCalls cfg calls).2.unbroken dir
    let tail := if last = 0 then m.next dir - 1 else last
    ∃ visited result, LongestRun found first tail visited ∧
      (m.serve cfg (.retrieve first last dir fun _ => .cont)).2 = .walked visited result ∧
      (result = .error .storeSeqnumGap ∧ (∃ s, first ≤ s ∧ s ≤ tail ∧ found s = none) ∨
        result = .ok () ∧ ¬ ∃ s, first ≤ s ∧ s ≤ tail ∧ found s = none) := by
  obtain ⟨hsound, hkeeps⟩ := recorded_runCalls cfg hcalls
  obtain ⟨visited, hrun, hwalk⟩ := retrieve_run hsound.ordered dir hfirst hlast
  rw [hkeeps.foundIn_eq hsound.ordered, view_next] at hrun
  rw [view_next] at hwalk
  have hreply : ((runCalls cfg calls).1.serve cfg (.retrieve first last dir fun _ => .cont)).2 =
      .walked visited (if first + visited.length ≤
        (if last = 0 then (runCalls cfg calls).1.next dir - 1 else last)
          then .error .storeSeqnumGap else .ok ()) := by
    simp [MemoryStore.serve, retrieve_eq, view_next, hwalk]
  refine ⟨visited, _, hrun, hreply, ?_⟩
  by_cases hshort : first + visited.length ≤
      if last = 0 then (runCalls cfg calls).1.next dir - 1 else last
  · exact .inl ⟨if_pos hshort, hrun.short_iff.mp hshort⟩
  · exact .inr ⟨if_neg hshort, mt hrun.short_iff.mpr hshort⟩

/-- Three frames stored in a bounded store of four slots, with a reset before the last. -/
theorem memory_retrieve_hands_out_run_after_reset :
    let cfg : MemoryStoreConfig := ⟨.bounded, 2, 2, 4⟩
    let calls := [.store 1 [65] .outbound, .store 1 [66] .inbound, .reset, .store 1 [67] .outbound]
    let m := (runCalls cfg calls).1
    let found := (runCalls cfg calls).2.unbroken .outbound
    ∃ visited result, LongestRun found 1 (m.next .outbound - 1) visited ∧
      (m.serve cfg (.retrieve 1 0 .outbound fun _ => .cont)).2 = .walked visited result ∧
      (result = .error .storeSeqnumGap ∧ (∃ s, 1 ≤ s ∧ s ≤ m.next .outbound - 1 ∧ found s = none) ∨
        result = .ok () ∧ ¬ ∃ s, 1 ≤ s ∧ s ≤ m.next .outbound - 1 ∧ found s = none) :=
  memory_retrieve_hands_out_run ⟨.bounded, 2, 2, 4⟩ (by simp [BelowMax, seqnumMax]) .outbound
    (by decide) (.inl rfl)

/-- A number drawn without a frame leaves a hole: the frame behind it was stored, and a
retrieval of its number reports a gap. -/
theorem memory_retrieve_behind_hole :
    let run := runCalls ⟨.unbounded, 0, 0, 4⟩
      [.store 1 [65] .outbound, .nextSeqnum .outbound true, .store 3 [66] .outbound]
    run.2 .outbound 3 = some [66] ∧
      (run.1.serve ⟨.unbounded, 0, 0, 4⟩ (.retrieve 3 3 .outbound fun _ => .cont)).2 =
        .walked [] (.error .storeSeqnumGap) := by
  decide +kernel

end Fixpp.Analysis.StoreMemory
