import Fixpp.Analysis.FramerStability

/-!
# How the stream is cut does not matter to the resync framer

A feed takes some steps of `resyncScanner` on the pending bytes followed by the incoming ones,
and stops early when the output span is full or when a garble follows a frame it has just
produced (`feedResync_spec`). Feeding chunk after chunk and draining is one reading of the whole
stream, and such a reading is unique.
-/

namespace Fixpp.Analysis.FramerChunking

open Foundation Model Model.Framer FramerStability List CarryBuffer

variable {cfg : Config}
variable {es : List Event} {c c' : Collected}

/-- No step applies: the bytes do not decide anything yet. -/
def Quiet (cfg : Config) (searching : Bool) (b : Bytes) : Prop :=
  (resyncScanner cfg).step searching b = none

attribute [local simp] resyncScanner resyncStep

theorem quiet_nil (cfg : Config) (searching : Bool) : Quiet cfg searching [] := by
  cases searching <;> rfl

/-! ## The search as steps -/

theorem findResyncStart_found (cfg : Config) (b : Bytes) (k : ℕ) (h : findResyncStart b = .inl k) :
    k ≤ b.length ∧ ∃ es, (resyncScanner cfg).Reads true b es false (b.drop k) ∧
      framesOf es = [] ∧ discardedOf es = k := by
  induction b generalizing k with
  | nil => simp [findResyncStart] at h
  | cons x xs ih =>
    simp only [findResyncStart] at h
    split at h
    next hm =>
      cases h
      refine ⟨Nat.zero_le _, [], .single ?_, rfl, rfl⟩
      simp [hm]
    · cases h
    next hm =>
    cases hf : findResyncStart xs with
    | inr held => rw [hf] at h; cases h
    | inl j =>
      rw [hf] at h
      cases h
      obtain ⟨hj, es, hr, hframes, hdisc⟩ := ih j hf
      have hstep : (resyncScanner cfg).step true (x :: xs) =
          some (true, 1, [.discard 1]) := by
        simp [hm]
      refine ⟨by simpa using hj, .discard 1 :: es, ?_, ?_, ?_⟩
      · exact .next hstep hr
      · simpa [framesOf] using hframes
      · simp [discardedOf, hdisc, Nat.add_comm]

theorem findResyncStart_held (cfg : Config) (b : Bytes) (held : ℕ) (h : findResyncStart b = .inr held) :
    held ≤ b.length ∧ Quiet cfg true (b.drop (b.length - held)) ∧
      ∃ es, (resyncScanner cfg).Reads true b es true (b.drop (b.length - held)) ∧
        framesOf es = [] ∧ discardedOf es = b.length - held := by
  induction b generalizing held with
  | nil =>
    cases h
    exact ⟨Nat.le_refl _, quiet_nil cfg true, [], .done _ _, rfl, rfl⟩
  | cons x xs ih =>
    simp only [findResyncStart] at h
    split at h
    · cases h
    next hm =>
      cases h
      simp only [length_cons, Nat.sub_self, drop_zero]
      refine ⟨Nat.le_refl _, ?_, [], Scanner.Reads.done _ _, rfl, rfl⟩
      simp [Quiet, hm]
    next hm =>
    cases hf : findResyncStart xs with
    | inl j => rw [hf] at h; cases h
    | inr k =>
      rw [hf] at h
      cases h
      obtain ⟨hk, hquiet, es, hr, hframes, hdisc⟩ := ih k hf
      have hstep : (resyncScanner cfg).step true (x :: xs) =
          some (true, 1, [.discard 1]) := by
        simp [hm]
      have hlen : (x :: xs).length - id k = (xs.length - k) + 1 := by
        simp only [length_cons, id_eq]
        omega
      rw [hlen, drop_succ_cons]
      refine ⟨by simp only [id_eq, length_cons]; omega, hquiet, .discard 1 :: es, ?_, ?_, ?_⟩
      · exact .next hstep hr
      · simpa [framesOf] using hframes
      · simp [discardedOf, hdisc, Nat.add_comm]

/-! ## The loop as steps -/

/-- The candidate the framer stands at is over its limit. -/
def Oversized (cfg : Config) (searching : Bool) (b : Bytes) : Prop :=
  searching = false ∧ parseResyncCandidate cfg b = .tooLarge

/-- Nothing more is decided, and nothing is refused. -/
def Resting (cfg : Config) (searching : Bool) (b : Bytes) : Prop :=
  Quiet cfg searching b ∧ ¬Oversized cfg searching b

theorem resting_nil (cfg : Config) (searching : Bool) : Resting cfg searching [] :=
  ⟨quiet_nil cfg searching, fun h => nomatch h.2⟩

variable {b : Bytes}

theorem Oversized.quiet {s : Bool} (h : Oversized cfg s b) : Quiet cfg s b := by
  obtain ⟨rfl, hp⟩ := h
  simp [Quiet, hp]

theorem Oversized.append {s : Bool} (h : Oversized cfg s b) (more : Bytes) :
    Oversized cfg s (b ++ more) := by
  refine ⟨h.1, ?_⟩
  rw [parseResyncCandidate_append cfg b more (by rw [h.2]; simp), h.2]

/-- Where the loop stands, from the start of its source in state `s`: it discarded some
of it and then put out frames, without a search behind the first. -/
structure Passed (cfg : Config) (source : Bytes) (s : Bool) (l : Loop) : Prop where
  bound : l.offset ≤ source.length
  reads : ∃ ds, framesOf ds = [] ∧ discardedOf ds = l.garbles.discarded ∧
    (resyncScanner cfg).Reads s source (ds ++ l.produced.map .frame) l.searching
      (source.drop l.offset)
  behind : l.produced ≠ [] → l.searching = false

variable {source incoming : Bytes} {s : Bool} {l : Loop} {st st' : State} {outSize : ℕ}
    {frames : List FrameView}

theorem passed_start (cfg : Config) (source : Bytes) (s : Bool) :
    Passed cfg source s { searching := s } :=
  ⟨Nat.zero_le _, ⟨[], rfl, rfl, .done _ _⟩, fun h => absurd rfl h⟩

section

variable (h : Passed cfg source s l)
include h

theorem Passed.discard {m : Loop} (hnone : l.produced = [])
    (hm : m.produced = []) (hbound : m.offset ≤ source.length)
    (hr : (resyncScanner cfg).Reads l.searching (source.drop l.offset) es m.searching
      (source.drop m.offset)) (hes : framesOf es = [])
    (hd : m.garbles.discarded = l.garbles.discarded + discardedOf es) : Passed cfg source s m := by
  obtain ⟨ds, hds, hdisc, hread⟩ := h.reads
  refine ⟨hbound, ⟨ds ++ es, ?_, ?_, ?_⟩, fun hne => absurd hm hne⟩
  · rw [framesOf_append, hds, hes]
    rfl
  · rw [discardedOf_append, hdisc, hd]
  rw [hnone, map_nil, append_nil] at hread
  rw [hm, map_nil, append_nil]
  exact hread.trans hr

def PassOutcome (cfg : Config) (source : Bytes) (s : Bool) (l : Loop) : Pass → Prop
  | .again l' => Passed cfg source s l' ∧ l.offset < l'.offset ∧
      l'.produced.length ≤ l.produced.length + 1
  | .leave l' => Passed cfg source s l' ∧ l'.produced = l.produced ∧
      (l'.produced = [] → Resting cfg l'.searching (source.drop l'.offset))
  | .tooLarge l' => Passed cfg source s l' ∧ l'.produced = [] ∧
      Oversized cfg l'.searching (source.drop l'.offset)

theorem resolveCandidate_spec (hs : l.searching = false) :
    PassOutcome cfg source s l (resolveCandidate cfg source l) := by
  have hw := parseResyncCandidate_withinBuffer cfg (source.drop l.offset)
  have hpos := length_pos_of_decided cfg (source.drop l.offset)
  rw [length_drop] at hpos
  unfold resolveCandidate
  cases hp : parseResyncCandidate cfg (source.drop l.offset) with
  | incomplete =>
    refine ⟨h, rfl, fun _ => ⟨?_, fun hover => ?_⟩⟩
    · simp [Quiet, hs, hp]
    · exact nomatch hp.symm.trans hover.2
  | tooLarge =>
    dsimp only
    split
    next hne => exact ⟨h, rfl, fun hnil => absurd hne (by simp [hnil])⟩
    next hne => exact ⟨h, by simpa using hne, hs, hp⟩
  | frame frameLen bodyOff bodyLen =>
    rw [hp] at hw
    obtain ⟨h0, hle⟩ := hw
    rw [length_drop] at hle
    have hr : (resyncScanner cfg).step l.searching (source.drop l.offset) =
        some (false, frameLen, [.frame ⟨(source.drop l.offset).take frameLen, bodyOff,
          bodyLen⟩]) := by
      simp [hs, hp]
    obtain ⟨ds, hds, hdisc, hread⟩ := h.reads
    have hmore := hread.trans (.single hr)
    rw [drop_drop, append_assoc] at hmore
    refine ⟨⟨by dsimp only; omega, ⟨ds, hds, hdisc, ?_⟩, fun _ => hs⟩, by dsimp only; omega,
      by simp⟩
    simpa only [hs, map_append, map_cons, map_nil] using hmore
  | garble kind throughEnd frameLen =>
    rw [hp] at hw
    have hlt : l.offset < source.length := by
      have := hpos (by rw [hp]; simp)
      omega
    dsimp only
    split
    next hne => exact ⟨h, rfl, fun hnil => absurd hne (by simp [hnil])⟩
    rename_i hne
    have hskip : 0 < (if throughEnd then frameLen else 1) ∧
        l.offset + (if throughEnd then frameLen else 1) ≤ source.length := by
      cases throughEnd with
      | true =>
        obtain ⟨h0, hle⟩ := hw rfl
        rw [length_drop] at hle
        exact ⟨h0, by simp only [if_true]; omega⟩
      | false => exact ⟨Nat.one_pos, by simp only [Bool.false_eq_true, if_false]; omega⟩
    have hr : (resyncScanner cfg).step l.searching (source.drop l.offset) =
        some (true, if throughEnd then frameLen else 1,
          [.discard (if throughEnd then frameLen else 1)]) := by
      simp [hs, hp]
    have hread := Scanner.Reads.single hr
    rw [drop_drop] at hread
    have hnone : l.produced = [] := by simpa using hne
    refine ⟨h.discard hnone hnone hskip.2 hread rfl rfl, ?_, Nat.le_succ _⟩
    dsimp only
    omega

theorem loopBody_spec : PassOutcome cfg source s l (loopBody cfg source l) := by
  have hbound := h.bound
  unfold loopBody
  split
  next hs =>
    have hnone : l.produced = [] := by
      by_contra hne
      rw [h.behind hne] at hs
      cases hs
    cases hf : findResyncStart (source.drop l.offset) with
    | inr held =>
      obtain ⟨hheld, hquiet, es, hr, hframes, hdisc⟩ := findResyncStart_held cfg _ _ hf
      rw [length_drop] at hheld hquiet hr hdisc
      have hoff : l.offset + (source.length - l.offset - held) = source.length - held := by
        omega
      rw [drop_drop, hoff] at hr hquiet
      refine ⟨h.discard hnone hnone (Nat.sub_le _ _) ?_ hframes ?_, rfl, fun _ => ⟨?_, ?_⟩⟩
      · simpa only [hs] using hr
      · simp only [hdisc]
        omega
      · simpa only [hs] using hquiet
      intro hover
      rw [hover.1] at hs
      cases hs
    | inl start =>
      obtain ⟨hstart, es, hr, hframes, hdisc⟩ := findResyncStart_found cfg _ _ hf
      rw [length_drop] at hstart
      rw [drop_drop] at hr
      -- The found start is a reading of its own; the candidate follows it.
      have hsearch : Passed cfg source s { l with
          offset := l.offset + start
          searching := false
          garbles := { l.garbles with discarded := l.garbles.discarded + start } } := by
        refine h.discard hnone hnone (by dsimp only; omega) ?_ hframes (by rw [hdisc])
        simpa only [hs] using hr
      have hpass := resolveCandidate_spec hsearch rfl
      revert hpass
      dsimp only
      cases resolveCandidate cfg source { l with
          offset := l.offset + start
          searching := false
          garbles := { l.garbles with discarded := l.garbles.discarded + start } } with
      | again m => exact fun hm => ⟨hm.1, Nat.lt_of_le_of_lt (Nat.le_add_right _ _) hm.2.1, hm.2.2⟩
      | leave m => exact id
      | tooLarge m => exact id
  next hs => exact resolveCandidate_spec h (by simpa using hs)

end

/-- Where the loop ends: its output is full or nothing more is decided, or it stands in
front of a candidate over the limit with nothing put out. -/
def LoopOutcome (cfg : Config) (source : Bytes) (s : Bool) (outSize : ℕ) : Except Loop Loop → Prop
  | .ok l => Passed cfg source s l ∧ l.produced.length ≤ outSize ∧
      (0 < outSize → l.produced = [] → Resting cfg l.searching (source.drop l.offset))
  | .error l => Passed cfg source s l ∧ l.produced = [] ∧
      Oversized cfg l.searching (source.drop l.offset)

theorem feedLoop_spec (outSize fuel : ℕ) (h : Passed cfg source s l)
    (hroom : l.produced.length ≤ outSize) (hfuel : source.length - l.offset < fuel) :
    LoopOutcome cfg source s outSize (feedLoop cfg source outSize fuel l) := by
  induction fuel generalizing l with
  | zero => omega
  | succ fuel ih =>
    rw [feedLoop]
    split
    next hgo =>
      have hspec := loopBody_spec h
      revert hspec
      cases loopBody cfg source l with
      | again m =>
        rintro ⟨hm, hlt, hlen⟩
        have hroom' : m.produced.length ≤ outSize := by omega
        exact ih hm hroom' (by omega)
      | leave m =>
        rintro ⟨hm, hsame, hrest⟩
        exact ⟨hm, by rw [hsame]; exact hroom, fun _ => hrest⟩
      | tooLarge m => exact id
    next hexit =>
      refine ⟨h, hroom, fun hout hnil => ?_⟩
      have hend : source.length ≤ l.offset := by
        by_contra hlt
        exact hexit ⟨by omega, by rw [hnil]; exact hout⟩
      rw [drop_eq_nil_of_le hend]
      exact resting_nil cfg _

/-! ## One feed -/

def WellFormed (st : State) : Prop := st.pending ≤ st.carry.bytes.length

theorem wellFormed_fresh (capacity : ℕ) : WellFormed (fresh capacity) := Nat.le_refl _

theorem length_pendingSuffix (h : WellFormed st) : (pendingSuffix st).length = st.pending := by
  unfold WellFormed at h
  unfold pendingSuffix
  rw [length_drop]
  omega

theorem settleCarry_spec (h : WellFormed st) (incoming : Bytes) :
    st.pending ≤ (settleCarry st incoming).bytes.length ∧ (settleCarry st incoming).bytes.drop
        ((settleCarry st incoming).bytes.length - st.pending) = pendingSuffix st := by
  unfold settleCarry pendingSuffix
  split
  next h0 => simp [clear, h0]
  split
  · simp only [consumeFront, length_drop, drop_drop]
    exact ⟨by omega, by congr 1; omega⟩
  · exact ⟨h, rfl⟩

theorem capacity_settleCarry (st : State) (incoming : Bytes) :
    (settleCarry st incoming).capacity = st.carry.capacity := by
  unfold settleCarry
  split
  · rfl
  split
  · rfl
  · rfl

theorem append_eq_some {c c' : CarryBuffer} (h : c.append incoming = some c') :
    c'.bytes = c.bytes ++ incoming ∧ c'.capacity = c.capacity := by
  unfold append at h
  split at h
  · cases h
  cases h
  exact ⟨rfl, rfl⟩

theorem overflow_of_settled (hsome : (settleCarry st incoming).bytes ≠ [])
    (h : (settleCarry st incoming).append incoming = none) :
    st.carry.capacity < st.pending + incoming.length := by
  unfold append at h
  split at h
  next hover =>
    unfold settleCarry at hover hsome
    split at hover
    next hzero => exact absurd (by rw [if_pos hzero]; rfl) hsome
    split at hover
    · simp only [consumeFront, length_drop] at hover
      omega
    · omega
  · cases h

theorem source_of_append {c c' : CarryBuffer} {n : ℕ} {pending : Bytes} (hn : n ≤ c.bytes.length)
    (hpending : c.bytes.drop (c.bytes.length - n) = pending) (h : c.append incoming = some c') :
    c'.bytes.drop (c'.bytes.length - n - incoming.length) = pending ++ incoming := by
  rw [(append_eq_some h).1, length_append, show c.bytes.length + incoming.length - n -
    incoming.length = c.bytes.length - n by omega,
    drop_append_of_le_length (Nat.sub_le _ _), hpending]

theorem drop_of_suffix {carry : Bytes} {n : ℕ} (hsuffix : source <:+ carry)
    (hn : n ≤ source.length) : carry.drop (carry.length - (source.length - n)) = source.drop n := by
  obtain ⟨front, rfl⟩ := hsuffix
  rw [length_append, show front.length + source.length - (source.length - n) =
    front.length + n by omega, drop_length_add_append]

/-- What a call leaves behind that found `l` in the pending and the incoming bytes. -/
structure Leaves (st : State) (incoming : Bytes) (l : Loop) (st' : State) : Prop where
  wellFormed : WellFormed st'
  capacity : st'.carry.capacity = st.carry.capacity
  garbles : st'.garbles = l.garbles
  searching : st'.searching = l.searching
  pending : pendingSuffix st' = (pendingSuffix st ++ incoming).drop l.offset

/-- A call is its loop over the pending and the incoming bytes, unless the carry cannot
hold them. -/
theorem feedResync_loop (hwf : WellFormed st) (incoming : Bytes) (outSize : ℕ)
    (hbound : l.offset ≤ (pendingSuffix st ++ incoming).length)
    (hloop : feedLoop cfg (pendingSuffix st ++ incoming) outSize
      ((pendingSuffix st ++ incoming).length + 1) { searching := st.searching } = .ok l) :
    (∃ st', feedResync cfg st incoming outSize = (st', .ok l.produced) ∧ Leaves st incoming l st') ∨
      ((feedResync cfg st incoming outSize).2 = .error .wireFrameTooLarge ∧
        st.carry.capacity < st.pending + incoming.length) := by
  obtain ⟨hpending, hsettled⟩ := settleCarry_spec hwf incoming
  have hcap := capacity_settleCarry st incoming
  unfold feedResync
  dsimp only
  split
  next hempty =>
    have hnil : (settleCarry st incoming).bytes = [] := isEmpty_iff.mp hempty
    rw [hnil, drop_nil] at hsettled
    rw [← hsettled, nil_append] at hloop hbound
    rw [hloop]
    dsimp only
    unfold finishOutside
    split
    next hzero =>
      refine .inl ⟨_, rfl, Nat.zero_le _, hcap, rfl, rfl, ?_⟩
      rw [← hsettled, nil_append, drop_eq_nil_of_le (by omega)]
      simp [pendingSuffix, hnil]
    cases happ : (settleCarry st incoming).append (incoming.drop l.offset) with
    | none =>
      refine .inr ⟨rfl, ?_⟩
      unfold append at happ
      split at happ
      next hover =>
        rw [hnil, hcap, length_nil, length_drop] at hover
        omega
      · cases happ
    | some carry' =>
      obtain ⟨hb, hcap'⟩ := append_eq_some happ
      rw [hnil, nil_append] at hb
      refine .inl ⟨_, rfl, ?_, hcap'.trans hcap, rfl, rfl, ?_⟩
      · unfold WellFormed
        simp only [hb, length_drop]
        exact Nat.le_refl _
      · unfold pendingSuffix
        rw [hb, length_drop, Nat.sub_self, drop_zero, ← pendingSuffix, ← hsettled, nil_append]
  next hsome =>
    cases happ : (settleCarry st incoming).append incoming with
    | none =>
      refine .inr ⟨rfl, overflow_of_settled ?_ happ⟩
      intro hnil
      exact hsome (isEmpty_iff.mpr hnil)
    | some carry' =>
      dsimp only
      obtain ⟨hb, hcap'⟩ := append_eq_some happ
      have hsource := source_of_append hpending hsettled happ
      have hsuffix : pendingSuffix st ++ incoming <:+ carry'.bytes := hsource ▸ drop_suffix _ _
      rw [hsource, hloop]
      refine .inl ⟨_, rfl, ?_, hcap'.trans hcap, rfl, rfl, drop_of_suffix hsuffix hbound⟩
      exact Nat.le_trans (Nat.sub_le _ _) hsuffix.length_le

theorem feedResync_error (hwf : WellFormed st)
    (hloop : feedLoop cfg (pendingSuffix st ++ incoming) outSize
      ((pendingSuffix st ++ incoming).length + 1) { searching := st.searching } = .error l) :
    (feedResync cfg st incoming outSize).2 = .error .wireFrameTooLarge := by
  obtain ⟨hpending, hsettled⟩ := settleCarry_spec hwf incoming
  unfold feedResync
  dsimp only
  split
  next hempty =>
    rw [isEmpty_iff.mp hempty, drop_nil] at hsettled
    rw [← hsettled, nil_append] at hloop
    rw [hloop]
    rfl
  cases happ : (settleCarry st incoming).append incoming with
  | none => rfl
  | some carry' =>
    dsimp only
    rw [source_of_append hpending hsettled happ, hloop]
    rfl

/-- What a feed that reports no error did to the stream. -/
structure Fed (cfg : Config) (st : State) (incoming : Bytes) (outSize : ℕ) (st' : State)
    (frames : List FrameView) : Prop where
  wellFormed : WellFormed st'
  capacity : st'.carry.capacity = st.carry.capacity
  reads : ∃ ds, framesOf ds = [] ∧ discardedOf ds = st'.garbles.discarded ∧
    (resyncScanner cfg).Reads st.searching (pendingSuffix st ++ incoming)
      (ds ++ frames.map .frame) st'.searching (pendingSuffix st')
  behind : frames ≠ [] → st'.searching = false
  room : frames.length ≤ outSize
  resting : 0 < outSize → frames = [] → Resting cfg st'.searching (pendingSuffix st')

/-- One feed. Its frames and its discarded count are the events of a reading of the pending and
incoming bytes, as far as these decide when it produces nothing. It fails for an oversized message
in front of which it puts out nothing, or for a carry that cannot hold the bytes. -/
theorem feedResync_spec (cfg : Config) (hwf : WellFormed st) (incoming : Bytes) (outSize : ℕ) :
    (∃ st' frames, feedResync cfg st incoming outSize = (st', .ok frames) ∧
        Fed cfg st incoming outSize st' frames) ∨
      ((feedResync cfg st incoming outSize).2 = .error .wireFrameTooLarge ∧
        (st.carry.capacity < st.pending + incoming.length ∨
          ∃ ds t c, (resyncScanner cfg).Reads st.searching (pendingSuffix st ++ incoming) ds t c ∧
            framesOf ds = [] ∧ Oversized cfg t c)) := by
  have hspec := feedLoop_spec outSize ((pendingSuffix st ++ incoming).length + 1)
    (passed_start cfg (pendingSuffix st ++ incoming) st.searching) (Nat.zero_le _)
    (Nat.lt_succ_self _)
  revert hspec
  cases hloop : feedLoop cfg (pendingSuffix st ++ incoming) outSize
      ((pendingSuffix st ++ incoming).length + 1) { searching := st.searching } with
  | error l =>
    rintro ⟨hl, hnone, hover⟩
    obtain ⟨ds, hds, -, hread⟩ := hl.reads
    rw [hnone, map_nil, append_nil] at hread
    exact .inr ⟨feedResync_error hwf hloop, .inr ⟨ds, _, _, hread, hds, hover⟩⟩
  | ok l =>
    rintro ⟨hl, hroom, hrest⟩
    refine (feedResync_loop hwf incoming outSize hl.bound hloop).imp ?_ (fun h => ⟨h.1, .inl h.2⟩)
    rintro ⟨st', hfeed, hend⟩
    refine ⟨st', l.produced, hfeed, hend.wellFormed, hend.capacity, ?_, ?_, hroom, ?_⟩
    · rw [hend.garbles, hend.searching, hend.pending]
      exact hl.reads
    · rw [hend.searching]
      exact hl.behind
    rw [hend.searching, hend.pending]
    exact hrest

theorem feedResync_fed (hwf : WellFormed st)
    (h : feedResync cfg st incoming outSize = (st', .ok frames)) :
    Fed cfg st incoming outSize st' frames := by
  rcases feedResync_spec cfg hwf incoming outSize with ⟨st₁, frames₁, hrun, hfed⟩ | ⟨herr, -⟩
  · rw [h] at hrun
    cases hrun
    exact hfed
  · rw [h] at herr
    cases herr

theorem Fed.events (h : Fed cfg st incoming outSize st' frames) : ∃ es,
    (resyncScanner cfg).Reads st.searching (pendingSuffix st ++ incoming) es st'.searching
      (pendingSuffix st') ∧ framesOf es = frames ∧ discardedOf es = st'.garbles.discarded := by
  obtain ⟨ds, hds, hdisc, hread⟩ := h.reads
  exact ⟨_, hread, by simp [hds], by simp [hdisc]⟩

theorem Fed.pending_le (h : Fed cfg st incoming outSize st' frames) (hwf : WellFormed st) :
    st'.pending ≤ st.pending + incoming.length := by
  obtain ⟨es, hes, -⟩ := h.events
  have hle := hes.length_le
  rwa [length_pendingSuffix h.wellFormed, length_append, length_pendingSuffix hwf] at hle

/-! ## Whole readings -/

theorem length_lt_of_frame {t : Bool} {c : Bytes} (h : (resyncScanner cfg).Reads s b es t c)
    (hf : framesOf es ≠ []) : c.length < b.length := by
  induction h with
  | done s b => exact absurd rfl hf
  | @next s s' t b b' n o os hstep rest ih =>
    have hle := rest.length_le
    rw [length_drop] at hle
    by_cases ho : framesOf o = []
    · have hlt := ih (by simpa [framesOf_append, ho] using hf)
      rw [length_drop] at hlt
      omega
    -- Only a frame puts out a frame, and its length is positive.
    have hw := parseResyncCandidate_withinBuffer cfg b
    cases s with
    | true =>
      simp only [resyncScanner, resyncStep] at hstep
      split at hstep <;> cases hstep <;> exact absurd rfl ho
    | false =>
      simp only [resyncScanner, resyncStep] at hstep
      split at hstep
      · cases hstep
      · cases hstep
      next hp => cases hstep; rw [hp] at hw; obtain ⟨h0, h1⟩ := hw; omega
      · cases hstep; exact absurd rfl ho

/-- A reading of `b` whose events are exactly what was collected between two
points. -/
def Collects (cfg : Config) (st : State) (b : Bytes) (c : Collected) (st' : State)
    (c' : Collected) : Prop :=
  WellFormed st' ∧ ∃ es,
    (resyncScanner cfg).Reads st.searching b es st'.searching (pendingSuffix st') ∧
    c'.frames = c.frames ++ framesOf es ∧ c'.discarded = c.discarded + discardedOf es

theorem Fed.collects (h : Fed cfg st incoming outSize st' frames) (c : Collected) :
    Collects cfg st (pendingSuffix st ++ incoming) c st'
      (c.add frames st'.garbles.discarded) := by
  obtain ⟨es, hr, hframes, hdisc⟩ := h.events
  exact ⟨h.wellFormed, es, hr, by simp [Collected.add, hframes], by simp [Collected.add, hdisc]⟩

theorem Collects.trans {st'' : State} {c'' : Collected} (more : Bytes)
    (h₁ : Collects cfg st b c st' c')
    (h₂ : Collects cfg st' (pendingSuffix st' ++ more) c' st'' c'') :
    Collects cfg st (b ++ more) c st'' c'' := by
  obtain ⟨-, es, hr, hf, hd⟩ := h₁
  obtain ⟨hwf, fs, hr', hf', hd'⟩ := h₂
  refine ⟨hwf, es ++ fs, (hr.extend more).trans hr', ?_, ?_⟩
  · rw [hf', hf, framesOf_append, append_assoc]
  · rw [hd', hd, discardedOf_append, Nat.add_assoc]

theorem feedAll_collects (chunks : List (Bytes × ℕ)) (hwf : WellFormed st)
    (h : feedAll cfg st c chunks = .ok (st', c')) :
    Collects cfg st (pendingSuffix st ++ (chunks.map Prod.fst).flatten) c st' c' := by
  induction chunks generalizing st c with
  | nil =>
    cases h
    refine ⟨hwf, [], ?_, by simp [framesOf], by simp [discardedOf]⟩
    simpa using Scanner.Reads.done (T := resyncScanner cfg) st'.searching (pendingSuffix st')
  | cons ch rest ih =>
    simp only [feedAll] at h
    split at h
    · cases h
    rename_i st₁ frames hfeed
    have hspec := feedResync_fed hwf hfeed
    have hrest := ih hspec.wellFormed h
    simp only [map_cons, flatten_cons]
    rw [← append_assoc]
    exact (hspec.collects c).trans _ hrest

/-- Draining collects a reading of what is pending and, with fuel for every
pending byte, ends where no step applies. -/
theorem drain_collects (outSizes : ℕ → ℕ) (fuel : ℕ) (hsize : ∀ i, 1 ≤ outSizes i)
    (hwf : WellFormed st) (hfuel : st.pending < fuel)
    (h : drain cfg outSizes fuel st c = .ok (st', c')) :
    Collects cfg st (pendingSuffix st) c st' c' ∧
      Quiet cfg st'.searching (pendingSuffix st') := by
  induction fuel generalizing st c outSizes with
  | zero => omega
  | succ fuel ih =>
    simp only [drain] at h
    split at h
    · cases h
    rename_i st₁ frames hfeed
    have hspec := feedResync_fed hwf hfeed
    have hone := hspec.collects c
    rw [append_nil] at hone
    split at h
    next hempty =>
      cases h
      exact ⟨hone, (hspec.resting (hsize 0) (isEmpty_iff.mp hempty)).1⟩
    rename_i hne
    -- The feed put out a frame, so fewer bytes are pending than before.
    have hwf₁ := hspec.wellFormed
    obtain ⟨es, hr, hframes, -⟩ := hspec.events
    have hlt := length_lt_of_frame hr (by
      rw [hframes]
      intro hnil
      exact hne (by rw [hnil]; rfl))
    rw [append_nil, length_pendingSuffix hwf, length_pendingSuffix hwf₁] at hlt
    obtain ⟨hrest, hquiet⟩ := ih (fun i => outSizes (i + 1)) (fun i => hsize (i + 1))
      hwf₁ (by omega) h
    refine ⟨?_, hquiet⟩
    simpa using hone.trans [] (by simpa using hrest)

theorem feedAndDrain_reads {capacity : ℕ} {chunks : List (Bytes × ℕ)} {outSizes : ℕ → ℕ} {y : Yield}
    (hsize : ∀ i, 1 ≤ outSizes i) (h : feedAndDrain cfg capacity chunks outSizes = .ok y) :
    ∃ es searching,
      (resyncScanner cfg).Reads false (chunks.map Prod.fst).flatten es searching y.pending ∧
      Quiet cfg searching y.pending ∧ y.frames = framesOf es ∧
      y.discarded = discardedOf es := by
  unfold feedAndDrain at h
  cases hfeed : feedAll cfg (fresh capacity) {} chunks with
  | error e => rw [hfeed] at h; cases h
  | ok p =>
    obtain ⟨st, c⟩ := p
    rw [hfeed] at h
    cases hdrain : drain cfg outSizes (st.pending + 1) st c with
    | error e =>
      simp only [bind, Except.bind, hdrain] at h
      cases h
    | ok q =>
      obtain ⟨st', c'⟩ := q
      simp only [bind, Except.bind, hdrain, pure, Except.pure, Except.ok.injEq] at h
      subst h
      have hall := feedAll_collects chunks (wellFormed_fresh capacity) hfeed
      obtain ⟨hrest, hquiet⟩ := drain_collects outSizes _ hsize hall.1
        (Nat.lt_succ_self _) hdrain
      have hwhole := hall.trans [] (by simpa using hrest)
      obtain ⟨-, es, hr, hf, hd⟩ := hwhole
      refine ⟨es, st'.searching, ?_, hquiet, by simpa using hf, by simpa using hd⟩
      simpa [fresh, pendingSuffix] using hr

/-- However a stream is cut into chunks and whatever the output sizes, feeding the chunks and
draining yields what feeding the stream in one chunk and draining yields, as long as no feed reports
an error. -/
theorem feedAndDrain_chunking (cfg : Config) (capacity : ℕ) (stream : Bytes)
    (chunks : List (Bytes × ℕ)) (outSizes : ℕ → ℕ) (oneSize : ℕ) (oneOutSizes : ℕ → ℕ)
    (hcut : (chunks.map Prod.fst).flatten = stream) (hsizes : ∀ i, 1 ≤ outSizes i)
    (honeSizes : ∀ i, 1 ≤ oneOutSizes i) (y z : Yield)
    (hy : feedAndDrain cfg capacity chunks outSizes = .ok y)
    (hz : feedAndDrain cfg capacity [(stream, oneSize)] oneOutSizes = .ok z) :
    y = z := by
  obtain ⟨es, s, hr, hq, hf, hd⟩ := feedAndDrain_reads hsizes hy
  obtain ⟨fs, t, hr', hq', hf', hd'⟩ := feedAndDrain_reads honeSizes hz
  have hone : (([(stream, oneSize)] : List (Bytes × ℕ)).map Prod.fst).flatten = stream := by
    simp
  rw [hcut] at hr
  rw [hone] at hr'
  obtain ⟨hes, -, hpending⟩ := hr.unique hr' hq hq'
  cases y with
  | mk frames discarded pending =>
    cases z with
    | mk frames' discarded' pending' =>
      simp only at hf hd hf' hd' hpending
      rw [hf, hd, hf', hd', hes, hpending]

/-- A heartbeat behind seven bytes of noise, followed by the start of another
frame. -/
def noisyStream : Bytes :=
  ascii "junk8=F" ++ ascii "8=FIX.4.4" ++ [soh] ++ ascii "9=5" ++ [soh] ++ ascii "35=0" ++
    [soh] ++ ascii "10=163" ++ [soh] ++ ascii "8=FIX"

def noisyChunks : List (Bytes × ℕ) :=
  [(noisyStream.take 2, 1), ([], 1), ((noisyStream.drop 2).take 4, 2),
    ((noisyStream.drop 6).take 20, 1), (noisyStream.drop 26, 3)]

def noisyYield : Yield :=
  { frames := [⟨(noisyStream.drop 7).take 26, 14, 5⟩], discarded := 7, pending := ascii "8=FIX" }

theorem feedAndDrain_chunking_noisy : feedAndDrain {} 64 noisyChunks (fun _ => 1) = .ok noisyYield ∧
      ∃ z, feedAndDrain {} 64 [(noisyStream, 1)] (fun _ => 1) = .ok z ∧ noisyYield = z := by
  have hchunks : feedAndDrain {} 64 noisyChunks (fun _ => 1) = .ok noisyYield := by
    decide +kernel
  have hone : feedAndDrain {} 64 [(noisyStream, 1)] (fun _ => 1) = .ok noisyYield := by
    decide +kernel
  refine ⟨hchunks, noisyYield, hone, ?_⟩
  exact feedAndDrain_chunking {} 64 noisyStream noisyChunks (fun _ => 1) 1 (fun _ => 1)
    (by decide) (fun _ => Nat.le_refl 1) (fun _ => Nat.le_refl 1) _ _ hchunks hone

end Fixpp.Analysis.FramerChunking
