import Fixpp.Model.ReadPump
import Fixpp.Analysis.ResyncRecovery

/-!
# What an accepted connection hands to its session

The first-frame reader feeds one framer read by read, up to the first frame. The framer is then
not searching, so a second framer on the bytes behind the frame goes on as the first would have.
-/

namespace Fixpp.Analysis.ReadPump

open Foundation Model Model.Framer List
open FramerStability FramerChunking ResyncRecovery

variable {cfg : Config} {s t : Bool} {b c : Bytes} {es ds : List FramerStability.Event}
    {f : FrameView} {st : State}
variable {incoming : Bytes} {rd : FirstFrameReader} {handed handed' : List Bytes}

/-! ## Where the first frame lies -/

theorem eq_of_reads_nil (h : (resyncScanner cfg).Reads s b es t c) (hes : es = []) : c = b := by
  induction h with
  | done s b => rfl
  | @next s s' t b b' n o os hstep hrest ih =>
    obtain ⟨rfl, rfl⟩ := append_eq_nil_iff.mp hes
    rw [ih rfl]
    rcases piece_of_step hstep with ⟨rfl, -⟩ | ⟨p, hb, hview, hdisc⟩
    · rfl
    cases p with
    | frame g => cases hview
    | noise bytes =>
      have hnil : bytes = [] := eq_nil_of_length_eq_zero hdisc.symm
      rw [hnil] at hb
      exact hb.symm

theorem place_of_reads (h : (resyncScanner cfg).Reads s b es t c) (hes : es = ds ++ [.frame f])
    (hds : framesOf ds = []) : b.drop (discardedOf ds) = f.bytes ++ c := by
  induction h generalizing ds with
  | done s b => simp at hes
  | @next s s' t b b' n o os hstep hrest ih =>
    rcases piece_of_step hstep with ⟨rfl, rfl⟩ | ⟨p, hb, hview, hdisc⟩
    · exact ih hes hds
    cases p with
    | noise bytes =>
      obtain ⟨ds', rfl, hos, hds'⟩ := @discards_first o os ds [f] hview hds hes
      have hrest := ih hos hds'
      rw [discardedOf_append, ← drop_drop, hdisc]
      have hdrop : b.drop bytes.length = b.drop n := by
        conv_lhs => rw [hb]
        exact drop_left
      exact hdrop ▸ hrest
    | frame g =>
      rcases append_eq_append_iff.mp hes with ⟨ds', rfl, -⟩ | ⟨c', rfl, hos⟩
      · rw [framesOf_append, hview] at hds
        cases hds
      cases c' with
      | nil =>
        rw [append_nil, hds] at hview
        cases hview
      | cons e c' =>
        obtain ⟨rfl, htail⟩ := cons.inj hos
        obtain ⟨rfl, rfl⟩ := append_eq_nil_iff.mp htail.symm
        rw [framesOf_append, hds] at hview
        rw [discardedOf_append] at hdisc
        have hzero : discardedOf ds = 0 := Nat.eq_zero_of_add_eq_zero_right hdisc
        obtain ⟨rfl, -⟩ := cons.inj hview
        rw [hzero, eq_of_reads_nil hrest rfl]
        exact hb

/-! ## One call on the same bytes -/

theorem feed_of_resting (hwf : WellFormed st) (outSize : ℕ)
    (hroom : st.pending + incoming.length ≤ st.carry.capacity)
    (h : (resyncScanner cfg).Reads st.searching (pendingSuffix st ++ incoming) es t c)
    (hrest : Resting cfg t c) :
    ∃ st' frames es', feedResync cfg st incoming outSize = (st', .ok frames) ∧
      Fed cfg st incoming outSize st' frames ∧ framesOf es = frames ++ framesOf es' ∧
      (resyncScanner cfg).Reads st'.searching (pendingSuffix st') es' t c := by
  rcases feedResync_spec cfg hwf incoming outSize with
    ⟨st', frames, hfeed, hfed⟩ | ⟨-, hover | ⟨ds, t', c', hreads, -, hover⟩⟩
  · obtain ⟨es₁, hes₁, hframes, -⟩ := hfed.events
    obtain ⟨es', rfl, hreads⟩ := hes₁.of_quiet h hrest.1
    exact ⟨st', frames, es', hfeed, hfed, by rw [framesOf_append, hframes], hreads⟩
  · omega
  obtain ⟨-, rfl, rfl⟩ := h.unique hreads hrest.1 hover.quiet
  exact absurd hover hrest.2

theorem feed_of_frame {capacity outSize : ℕ} (hout : 0 < outSize) (hroom : b.length ≤ capacity)
    (h : (resyncScanner cfg).Reads false b (ds ++ [.frame f]) t c) (hds : framesOf ds = []) :
    ∃ frames, (feedResync cfg (fresh capacity) b outSize).2 = .ok (f :: frames) := by
  have hone : framesOf (ds ++ [.frame f]) = [f] := by rw [framesOf_append, hds]; rfl
  -- a reading that ends where nothing is decided has the frame
  have hnone : ∀ {es t' c'}, (resyncScanner cfg).Reads false b es t' c' → framesOf es = [] →
      ¬FramerChunking.Quiet cfg t' c' := by
    intro es t' c' hes hempty hquiet
    obtain ⟨ps, rfl, -⟩ := h.of_quiet hes hquiet
    rw [framesOf_append, hone] at hempty
    cases hempty
  rcases feedResync_spec cfg (wellFormed_fresh capacity) b outSize with
    ⟨st', frames, hfeed, hfed⟩ | ⟨-, hover | ⟨ds', t', c', hreads, hempty, hover⟩⟩
  · obtain ⟨es, hes, hframes, -⟩ := hfed.events
    rw [hfeed]
    have hhead : ∃ rest, frames = f :: rest := by
      rcases h.total hes with ⟨ps, rfl, -⟩ | ⟨ps, hps, -⟩
      · rw [framesOf_append, hone] at hframes
        exact ⟨_, hframes.symm⟩
      cases frames with
      | nil => exact absurd (hfed.resting hout rfl).1 (hnone hes hframes)
      | cons v vs =>
        have heq := congrArg framesOf hps
        rw [hone, framesOf_append, hframes] at heq
        exact ⟨vs, by rw [(cons.inj heq).1]⟩
    obtain ⟨rest, rfl⟩ := hhead
    exact ⟨rest, rfl⟩
  · have hlen : (fresh capacity).pending + b.length = b.length := Nat.zero_add _
    have hcap : (fresh capacity).carry.capacity = capacity := rfl
    omega
  · exact absurd hover.quiet (hnone hreads hempty)

/-! ## The first frame -/

/-- The reader while it has found no frame. -/
structure Gathered (cfg : Config) (maxBytes : ℕ) (stream : Bytes) (rd : FirstFrameReader) :
    Prop where
  split : rd.buf ++ rd.left = stream
  wellFormed : WellFormed rd.framer
  capacity : rd.framer.carry.capacity = maxBytes + 1
  reads : ∃ es, (resyncScanner cfg).Reads false rd.buf es rd.framer.searching
    (pendingSuffix rd.framer) ∧ framesOf es = [] ∧ discardedOf es = rd.garbles.discarded
  resting : Resting cfg rd.framer.searching (pendingSuffix rd.framer)

/-- What the end of the reader says of the bytes it read. -/
def FirstOutcome (cfg : Config) (rd : FirstFrameReader) : FirstFrameEnd → Prop
  | .frame r => ∃ f ds, (resyncScanner cfg).Reads false rd.buf (ds ++ [.frame f]) false
      (rd.buf.drop (r.offset + r.len)) ∧ framesOf ds = [] ∧ discardedOf ds = r.offset ∧
      r.offset = r.garbles.discarded ∧ r.len = f.bytes.length ∧
      rd.buf.drop r.offset = f.bytes ++ rd.buf.drop (r.offset + r.len)
  | .overBudget => ∃ es t c, (resyncScanner cfg).Reads false rd.buf es t c ∧ framesOf es = [] ∧
      Resting cfg t c
  | _ => True

theorem firstOutcome_frame (hwf : WellFormed rd.framer)
    (h : (resyncScanner cfg).Reads false rd.buf (ds ++ [.frame f]) false (pendingSuffix rd.framer))
    (hds : framesOf ds = []) (hdisc : discardedOf ds = rd.garbles.discarded) :
    FirstOutcome cfg rd (.frame ⟨rd.buf.length - rd.framer.pending - f.bytes.length,
      f.bytes.length, rd.garbles⟩) := by
  obtain ⟨pieces, haccounts⟩ := accounts_of_reads h
  have hlength := haccounts.length_eq
  have hplace := place_of_reads h rfl hds
  rw [framesOf_append, discardedOf_append, hds, length_pendingSuffix hwf] at hlength
  simp only [framesOf, discardedOf, nil_append, map_cons, map_nil, sum_cons, sum_nil] at hlength
  have hoffset : rd.buf.length - rd.framer.pending - f.bytes.length = discardedOf ds := by omega
  have hrest : rd.buf.drop (discardedOf ds + f.bytes.length) = pendingSuffix rd.framer := by
    rw [← drop_drop, hplace, drop_left]
  unfold FirstOutcome
  dsimp only
  rw [hoffset, hrest]
  exact ⟨f, ds, h, hds, rfl, hdisc, rfl, hplace⟩

theorem readFirstFrame_spec (maxBytes : ℕ) (stream : Bytes) (reads : List ReadEnd)
    (h : Gathered cfg maxBytes stream rd) (hroom : rd.buf.length ≤ maxBytes) :
    let r := readFirstFrame cfg maxBytes rd reads
    r.1.buf ++ r.1.left = stream ∧ r.1.buf.length ≤ maxBytes + 1 ∧ FirstOutcome cfg r.1 r.2 := by
  induction reads generalizing rd with
  | nil => exact ⟨h.split, Nat.le_succ_of_le hroom, trivial⟩
  | cons read reads ih =>
    cases read with
    | deadline => exact ⟨h.split, Nat.le_succ_of_le hroom, trivial⟩
    | failed => exact ⟨h.split, Nat.le_succ_of_le hroom, trivial⟩
    | bytes ready =>
      rw [readFirstFrame]
      generalize hk : min ready (min readSize (maxBytes + 1 - rd.buf.length)) = k
      have hsplit : rd.buf ++ rd.left.take k ++ rd.left.drop k = stream := by
        rw [append_assoc, take_append_drop, h.split]
      have hbound : (rd.buf ++ rd.left.take k).length ≤ maxBytes + 1 := by
        rw [length_append, length_take]
        omega
      obtain ⟨es, hes, hnone, hdisc⟩ := h.reads
      cases hfeed : feedResync cfg rd.framer (rd.left.take k) 1 with
      | mk framer fed =>
        cases fed with
        | error e => exact ⟨hsplit, hbound, trivial⟩
        | ok frames =>
          have hfed := feedResync_fed h.wellFormed hfeed
          obtain ⟨ds, hds, hmore, hread⟩ := hfed.reads
          have hall := (hes.extend (rd.left.take k)).trans hread
          rw [← append_assoc] at hall
          have hframes : framesOf (es ++ ds) = [] := by rw [framesOf_append, hnone, hds]; rfl
          have hcount : discardedOf (es ++ ds) =
              (rd.garbles.sum framer.garbles).discarded := by
            rw [discardedOf_append, hdisc, hmore]
            rfl
          cases frames with
          | nil =>
            rw [map_nil, append_nil] at hall
            have hrest := hfed.resting Nat.one_pos rfl
            dsimp only
            split
            · exact ⟨hsplit, hbound, _, _, _, hall, hframes, hrest⟩
            next hfits =>
            exact ih ⟨hsplit, hfed.wellFormed, hfed.capacity.trans h.capacity,
              ⟨_, hall, hframes, hcount⟩, hrest⟩ (Nat.not_lt.mp hfits)
          | cons v vs =>
            have hvs : vs = [] := eq_nil_of_length_eq_zero
              (Nat.le_zero.mp (Nat.le_of_succ_le_succ hfed.room))
            rw [hvs, hfed.behind (cons_ne_nil v vs)] at hall
            exact ⟨hsplit, hbound, firstOutcome_frame hfed.wellFormed hall hframes hcount⟩

theorem readFirstFrameBounded_spec (cfg : Config) (maxBytes : ℕ) (stream : Bytes)
    (reads : List ReadEnd) :
    let r := readFirstFrameBounded cfg maxBytes stream reads
    r.1.buf ++ r.1.left = stream ∧ r.1.buf.length ≤ maxBytes + 1 ∧ FirstOutcome cfg r.1 r.2 :=
  readFirstFrame_spec maxBytes stream reads
    ⟨rfl, wellFormed_fresh _, rfl, ⟨[], .done _ _, rfl, rfl⟩, resting_nil cfg _⟩
    (Nat.zero_le _)

/-- However the stream comes in reads, the buffer holds the bytes read, at most one more than the
budget. A frame it returns is the first one a framer puts out that is fed all of them in one call;
behind it stand the bytes read after it. If the reader ends at its budget check, such a call puts
out no frame. -/
theorem first_frame_faithful (cfg : Config) (maxBytes : ℕ) (stream : Bytes) (reads : List ReadEnd) :
    let rd := (readFirstFrameBounded cfg maxBytes stream reads).1
    let ending := (readFirstFrameBounded cfg maxBytes stream reads).2
    rd.buf ++ rd.left = stream ∧ rd.buf.length ≤ maxBytes + 1 ∧
      (∀ r, ending = .frame r → ∀ outSize, 0 < outSize → ∃ f frames,
        (feedResync cfg (fresh (maxBytes + 1)) rd.buf outSize).2 = .ok (f :: frames) ∧
        r.offset = r.garbles.discarded ∧ r.len = f.bytes.length ∧
        rd.buf = rd.buf.take r.offset ++ f.bytes ++ rd.buf.drop (r.offset + r.len)) ∧
      (ending = .overBudget → ∀ outSize, 0 < outSize →
        (feedResync cfg (fresh (maxBytes + 1)) rd.buf outSize).2 = .ok []) := by
  intro rd ending
  obtain ⟨hsplit, hbound, hend⟩ := readFirstFrameBounded_spec cfg maxBytes stream reads
  refine ⟨hsplit, hbound, ?_, ?_⟩
  · intro r hr outSize hout
    rw [show (readFirstFrameBounded cfg maxBytes stream reads).2 = .frame r from hr] at hend
    obtain ⟨f, ds, hread, hds, -, hdisc, hlen, hplace⟩ := hend
    obtain ⟨frames, hfeed⟩ := feed_of_frame hout hbound hread hds
    refine ⟨f, frames, hfeed, hdisc, hlen, ?_⟩
    rw [append_assoc, ← hplace, take_append_drop]
  intro hr outSize hout
  rw [show (readFirstFrameBounded cfg maxBytes stream reads).2 = .overBudget from hr] at hend
  obtain ⟨es, t, c, hread, hnone, hrest⟩ := hend
  obtain ⟨st', frames, es', hfeed, -, hframes, -⟩ := feed_of_resting
    (wellFormed_fresh (maxBytes + 1)) outSize (by simpa [fresh] using hbound) hread hrest
  rw [hnone] at hframes
  rw [hfeed, (append_eq_nil_iff.mp hframes.symm).1]

/-! ## The pump -/

/-- A framer that has read `b` as far as it decides, and the frames handed on. -/
structure Pumped (cfg : Config) (b : Bytes) (st : State) (handed : List Bytes) : Prop where
  wellFormed : WellFormed st
  reads : ∃ es, (resyncScanner cfg).Reads false b es st.searching (pendingSuffix st) ∧
    (framesOf es).map (·.bytes) = handed
  resting : Resting cfg st.searching (pendingSuffix st)

/-- Something other than the framer ends the pump. -/
def Ended (fate : PumpFate) : Prop :=
  (∃ handed, fate.expired handed = true) ∨ ∃ handed frame, fate.refused handed frame = true

/-- A reading of the bytes comes to a candidate that announces a length above the limit. -/
def Announced (cfg : Config) (b : Bytes) : Prop :=
  ∃ es t c, (resyncScanner cfg).Reads false b es t c ∧ Oversized cfg t c

/-- How a drain ends on a carry of `capacity` bytes that `size` bytes go through. -/
def DrainEnd (cfg : Config) (fate : PumpFate) (b : Bytes) (capacity size : ℕ) :
    Option (State × List Bytes) → Prop
  | some (st, handed) => Pumped cfg b st handed ∧ st.carry.capacity = capacity
  | none => Ended fate ∨ Announced cfg b ∨ capacity < size

/-- How the pump ends: a read may also find no room behind what is undecided. -/
def PumpEnd (cfg : Config) (fate : PumpFate) (b : Bytes) (capacity : ℕ) (reads : List Bytes) :
    Option (List Bytes) → Prop
  | some handed => ∃ st, Pumped cfg b st handed
  | none => Ended fate ∨ Announced cfg b ∨
    ∃ s c, Resting cfg s c ∧ ∃ r ∈ reads, capacity < c.length + r.length

variable {fate : PumpFate}

theorem DrainEnd.mono {capacity n m : ℕ} {r : Option (State × List Bytes)}
    (h : DrainEnd cfg fate b capacity n r) (hnm : n ≤ m) : DrainEnd cfg fate b capacity m r := by
  cases r with
  | none => exact h.imp_right fun h => h.imp_right fun h => Nat.lt_of_lt_of_le h hnm
  | some => exact h

variable (fate)

theorem pumpFeed_spec (fuel : ℕ) (hwf : WellFormed st)
    (hfuel : st.pending + incoming.length < fuel)
    (hreads : ∃ es, (resyncScanner cfg).Reads false b es st.searching
      (pendingSuffix st ++ incoming) ∧ (framesOf es).map (·.bytes) = handed) :
    DrainEnd cfg fate b st.carry.capacity (st.pending + incoming.length)
      (pumpFeed cfg fate fuel st incoming handed) := by
  induction fuel generalizing st incoming handed with
  | zero => omega
  | succ fuel ih =>
    obtain ⟨es, hes, hhanded⟩ := hreads
    rw [pumpFeed]
    rcases feedResync_spec cfg hwf incoming 1 with ⟨st₁, frames, hfeed, hfed⟩ | ⟨herror, hwhy⟩
    · obtain ⟨es₁, hes₁, hframes, -⟩ := hfed.events
      have hall := hes.trans hes₁
      rw [hfeed]
      cases frames with
      | nil =>
        exact ⟨⟨hfed.wellFormed, ⟨_, hall, by rw [framesOf_append, hframes, append_nil,
          hhanded]⟩, hfed.resting Nat.one_pos rfl⟩, hfed.capacity⟩
      | cons f vs =>
        have hvs : vs = [] := eq_nil_of_length_eq_zero
          (Nat.le_zero.mp (Nat.le_of_succ_le_succ hfed.room))
        -- the feed put out a frame, so less is pending than it was given
        have hlt := length_lt_of_frame hes₁ (by rw [hframes]; exact cons_ne_nil f vs)
        rw [length_pendingSuffix hfed.wellFormed, length_append, length_pendingSuffix hwf] at hlt
        dsimp only
        split
        next hrefused => exact .inl (.inr ⟨handed, f.bytes, hrefused⟩)
        rw [← hfed.capacity]
        refine (ih hfed.wellFormed (by rw [length_nil]; omega) ⟨es ++ es₁, ?_, ?_⟩).mono
          (Nat.le_of_lt hlt)
        · rw [append_nil]
          exact hall
        rw [framesOf_append, hframes, hvs, map_append, hhanded]
        rfl
    · rcases hfeed : feedResync cfg st incoming 1 with ⟨st₁, fed⟩
      rw [hfeed] at herror
      cases herror
      refine .inr (hwhy.symm.imp_left ?_)
      rintro ⟨ds, t, c, hds, -, hover⟩
      exact ⟨_, t, c, hes.trans hds, hover⟩

variable {fate}

theorem DrainEnd.pumpEnd {reads : List Bytes}
    (h : DrainEnd cfg fate b st.carry.capacity (st.pending + incoming.length) none)
    (hwf : WellFormed st) (hrest : Resting cfg st.searching (pendingSuffix st))
    (hmem : incoming ∈ reads) (more : Bytes) :
    PumpEnd cfg fate (b ++ more) st.carry.capacity reads none := by
  rcases h with hend | ⟨es, t, c, hes, hover⟩ | hlt
  · exact .inl hend
  · exact .inr (.inl ⟨es, t, c ++ more, hes.extend more, hover.append more⟩)
  rw [← length_pendingSuffix hwf] at hlt
  exact .inr (.inr ⟨_, _, hrest, incoming, hmem, hlt⟩)

theorem pumpReads_spec (reads : List Bytes) {all : List Bytes} (hsub : reads ⊆ all)
    (hst : Pumped cfg b st handed) :
    PumpEnd cfg fate (b ++ reads.flatten) st.carry.capacity all
      (pumpReads cfg fate st handed reads) := by
  induction reads generalizing st handed b with
  | nil =>
    rw [pumpReads]
    split
    next hexpired => exact .inl (.inl ⟨handed, hexpired⟩)
    · exact ⟨st, by rwa [flatten_nil, append_nil]⟩
  | cons chunk reads ih =>
    rw [pumpReads]
    split
    next hexpired => exact .inl (.inl ⟨handed, hexpired⟩)
    obtain ⟨es, hes, hhanded⟩ := hst.reads
    obtain ⟨hmem, hsub⟩ := cons_subset.mp hsub
    have hend := pumpFeed_spec fate _ hst.wellFormed (Nat.lt_succ_self _)
      ⟨es, hes.extend chunk, hhanded⟩
    rw [flatten_cons, ← append_assoc]
    cases hfeed : pumpFeed cfg fate (st.pending + chunk.length + 1) st chunk handed with
    | none =>
      rw [hfeed] at hend
      exact hend.pumpEnd hst.wellFormed hst.resting hmem _
    | some next =>
      rw [hfeed] at hend
      rw [← hend.2]
      exact ih hsub hend.1

/-- The pump goes on behind a frame, where the framer in front of it does not search. -/
theorem runReadPump_spec (fate : PumpFate) (reads : List Bytes) {initial : Bytes}
    (hreads : (resyncScanner cfg).Reads false b es false initial)
    (hhanded : (framesOf es).map (·.bytes) = handed) :
    PumpEnd cfg fate (b ++ reads.flatten) (cfg.maxFrameBytes + readSize) (initial :: reads)
      (runReadPump cfg fate initial handed reads) := by
  unfold runReadPump
  dsimp only
  split
  next hempty =>
    rw [isEmpty_iff.mp hempty] at hreads
    exact pumpReads_spec reads (subset_cons_self _ _)
      ⟨wellFormed_fresh _, ⟨es, hreads, hhanded⟩, resting_nil cfg _⟩
  have hend := pumpFeed_spec fate (initial.length + 1)
    (wellFormed_fresh (cfg.maxFrameBytes + readSize)) (Nat.lt_succ_of_le (Nat.le_of_eq
      (Nat.zero_add _))) ⟨es, hreads, hhanded⟩
  cases hfeed : pumpFeed cfg fate (initial.length + 1) (fresh (cfg.maxFrameBytes + readSize))
      initial handed with
  | none =>
    rw [hfeed] at hend
    exact hend.pumpEnd (wellFormed_fresh _) (resting_nil cfg _) mem_cons_self _
  | some next =>
    rw [hfeed] at hend
    have hcap : next.1.carry.capacity = cfg.maxFrameBytes + readSize := hend.2
    rw [← hcap]
    exact pumpReads_spec reads (subset_cons_self _ _) hend.1

/-! ## One framer for all bytes -/

theorem drain_of_resting (outSizes : ℕ → ℕ) (fuel : ℕ) (col : Collected) (hwf : WellFormed st)
    (hroom : st.pending ≤ st.carry.capacity)
    (h : (resyncScanner cfg).Reads st.searching (pendingSuffix st) es t c)
    (hrest : Resting cfg t c) : ∃ r, drain cfg outSizes fuel st col = .ok r := by
  induction fuel generalizing st outSizes col es with
  | zero => exact ⟨_, rfl⟩
  | succ fuel ih =>
    rw [← append_nil (pendingSuffix st)] at h
    obtain ⟨st', frames, es', hfeed, hfed, -, hreads⟩ :=
      feed_of_resting hwf (outSizes 0) (by rwa [length_nil]) h hrest
    have hpending : st'.pending ≤ st'.carry.capacity := by
      rw [hfed.capacity]
      exact Nat.le_trans (hfed.pending_le hwf) hroom
    rw [drain, hfeed]
    dsimp only
    split
    · exact ⟨_, rfl⟩
    · exact ih _ _ hfed.wellFormed hpending hreads

theorem feedAndDrain_of_resting {capacity : ℕ} (outSize : ℕ) (outSizes : ℕ → ℕ)
    (hroom : b.length ≤ capacity) (h : (resyncScanner cfg).Reads false b es t c)
    (hrest : Resting cfg t c) : ∃ y, feedAndDrain cfg capacity [(b, outSize)] outSizes = .ok y := by
  obtain ⟨st', frames, es', hfeed, hfed, -, hreads⟩ :=
    feed_of_resting (wellFormed_fresh capacity) outSize (by simpa [fresh] using hroom) h hrest
  have hpending : st'.pending ≤ st'.carry.capacity := by
    rw [hfed.capacity]
    exact Nat.le_trans (hfed.pending_le (wellFormed_fresh capacity)) (by simpa [fresh] using hroom)
  obtain ⟨r, hdrain⟩ := drain_of_resting outSizes (st'.pending + 1)
    (({} : Collected).add frames st'.garbles.discarded) hfed.wellFormed hpending hreads hrest
  simp only [feedAndDrain, feedAll, hfeed, bind, Except.bind, hdrain]
  exact ⟨_, rfl⟩

/-- When the pump of an accepted connection waits for its next read, the frames handed to the
session are those one framer puts out for all the bytes read, however they are cut for it. Fed in
one call, with a carry that holds them, it does not fail. -/
theorem session_gets_framed_stream (cfg : Config) (maxBytes : ℕ) (fate : PumpFate)
    (stream : Bytes) (firstReads : List ReadEnd) (reads : List Bytes) (read : Bytes)
    (handed : List Bytes)
    (h : runAccepted cfg maxBytes fate stream firstReads reads = some (read, handed)) :
    (∀ capacity outSize outSizes, read.length ≤ capacity →
      ∃ y, feedAndDrain cfg capacity [(read, outSize)] outSizes = .ok y) ∧
    ∀ capacity chunks outSizes y, (chunks.map Prod.fst).flatten = read → (∀ i, 1 ≤ outSizes i) →
      feedAndDrain cfg capacity chunks outSizes = .ok y → y.frames.map (·.bytes) = handed := by
  obtain ⟨-, -, hend⟩ := readFirstFrameBounded_spec cfg maxBytes stream firstReads
  unfold runAccepted at h
  split at h
  next rd r hfirst =>
    rw [hfirst] at hend
    obtain ⟨f, ds, hreads, hds, -, -, hlen, hplace⟩ := hend
    obtain ⟨handed', hpump, hpair⟩ := Option.map_eq_some_iff.mp h
    cases hpair
    have hframe : (framesOf (ds ++ [.frame f])).map (·.bytes) =
        [(rd.buf.drop r.offset).take r.len] := by
      rw [framesOf_append, hds, hplace, hlen, take_left]
      rfl
    have hend := runReadPump_spec fate reads hreads hframe
    rw [hpump] at hend
    obtain ⟨st, -, ⟨es, hes, hhanded⟩, hrest⟩ := hend
    refine ⟨fun capacity outSize outSizes hroom =>
      feedAndDrain_of_resting outSize outSizes hroom hes hrest, ?_⟩
    intro capacity chunks outSizes y hcut hsizes hy
    obtain ⟨es', t, hes', hquiet, hframes, -⟩ := feedAndDrain_reads hsizes hy
    rw [hcut] at hes'
    obtain ⟨rfl, -⟩ := hes.unique hes' hrest.1 hquiet
    rw [hframes, hhanded]
  · cases h

def noisyStream : Bytes :=
  ascii "junk8=F" ++ heartbeatFrame.bytes ++ heartbeatFrame.bytes ++ heartbeatFrame.bytes

/-- The first heartbeat and the start of the second come in the first read, the rest in
the second. -/
theorem session_gets_framed_stream_three :
    runAccepted {} 4096 ⟨fun _ => false, fun _ _ => false⟩ noisyStream [.bytes 40]
        [noisyStream.drop 40] = some (noisyStream, replicate 3 heartbeatFrame.bytes) ∧
      ∃ y, feedAndDrain {} 200 [(noisyStream, 1)] (fun _ => 1) = .ok y ∧
        y.frames.map (·.bytes) = replicate 3 heartbeatFrame.bytes := by
  have hrun : runAccepted {} 4096 ⟨fun _ => false, fun _ _ => false⟩ noisyStream [.bytes 40]
      [noisyStream.drop 40] = some (noisyStream, replicate 3 heartbeatFrame.bytes) := by
    decide +kernel
  obtain ⟨hexists, hframes⟩ := session_gets_framed_stream _ _ _ _ _ _ _ _ hrun
  obtain ⟨y, hy⟩ := hexists 200 1 (fun _ => 1) (by decide +kernel)
  exact ⟨hrun, y, hy, hframes 200 _ _ y (append_nil _) (fun _ => Nat.le_refl _) hy⟩

end Fixpp.Analysis.ReadPump
