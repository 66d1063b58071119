import Fixpp.Analysis.FramerChunking
import Fixpp.Analysis.FrameParsing

/-!
# What the resync framer does with the bytes

Every byte fed to the resync framer ends in a frame, among the discarded bytes or in the pending
suffix. Noise in front of a frame is discarded and the frame is found, wherever the stream is cut.
`Awaiting` is what is left of the stream while the frame is still to come.
-/

namespace Fixpp.Analysis.ResyncRecovery

open Foundation Interface Model Model.Framer List
open FramerStability FramerChunking FrameParsing

variable {stream p c : Bytes} {s s' t : Bool} {o es : List FramerStability.Event}

/-! ## Conservation -/

/-- A piece of the stream the framer is done with. -/
inductive Piece
  | frame (f : FrameView)
  | noise (bytes : Bytes)

def Piece.bytes : Piece → Bytes
  | .frame f => f.bytes
  | .noise b => b

def Piece.view : Piece → Option FrameView
  | .frame f => some f
  | .noise _ => none

/-- The number of bytes a piece adds to the discarded ones. -/
def Piece.discarded : Piece → ℕ
  | .frame _ => 0
  | .noise b => b.length

/-- The pieces of a stream, as the framer reports them. -/
structure Accounts (stream : Bytes) (pieces : List Piece) (rest : Bytes) (frames : List FrameView)
    (discarded : ℕ) : Prop where
  split : stream = pieces.flatMap Piece.bytes ++ rest
  frames : frames = pieces.filterMap Piece.view
  discarded : discarded = (pieces.map Piece.discarded).sum

theorem Accounts.cons {rest : Bytes} {pieces : List Piece} {frames : List FrameView} {discarded : ℕ}
    (h : Accounts stream pieces rest frames discarded) (p : Piece) :
    Accounts (p.bytes ++ stream) (p :: pieces) rest (p.view.toList ++ frames)
      (p.discarded + discarded) := by
  refine ⟨?_, ?_, ?_⟩
  · rw [h.split, flatMap_cons, append_assoc]
  · rw [h.frames]
    cases p <;> rfl
  · rw [h.discarded, map_cons, sum_cons]

theorem Accounts.length_eq {rest : Bytes} {pieces : List Piece} {frames : List FrameView}
    {discarded : ℕ} (h : Accounts stream pieces rest frames discarded) :
    stream.length = (frames.map fun f => f.bytes.length).sum + discarded + rest.length := by
  rw [h.split, h.frames, h.discarded, length_append]
  clear h
  congr 1
  induction pieces with
  | nil => rfl
  | cons p pieces ih =>
    rw [flatMap_cons, length_append, ih, map_cons, sum_cons]
    cases p with
    | frame f =>
      simp only [filterMap_cons, Piece.view, Piece.bytes, Piece.discarded, map_cons, sum_cons]
      omega
    | noise b =>
      simp only [filterMap_cons, Piece.view, Piece.bytes, Piece.discarded]
      omega

/-- One step takes nothing or one piece off the unread bytes. -/
theorem piece_of_step {cfg : Config} {b : Bytes} {n : ℕ} (h : resyncStep cfg s b = some (s', n, o)) :
    (n = 0 ∧ o = []) ∨ ∃ p : Piece, b = p.bytes ++ b.drop n ∧ framesOf o = p.view.toList ∧
        discardedOf o = p.discarded := by
  have hbound := resyncStep_bounded cfg s b s' n o h
  have htake : b = b.take n ++ b.drop n := (take_append_drop n b).symm
  have hlen : (b.take n).length = n := by
    rw [length_take]
    omega
  cases s with
  | true =>
    simp only [resyncStep] at h
    split at h
    · cases h
      exact .inl ⟨rfl, rfl⟩
    · cases h
    cases h
    exact .inr ⟨.noise (b.take 1), htake, rfl, hlen.symm⟩
  | false =>
    simp only [resyncStep] at h
    split at h
    · cases h
    · cases h
    · cases h
      exact .inr ⟨.frame ⟨b.take n, _, _⟩, htake, rfl, rfl⟩
    cases h
    exact .inr ⟨.noise (b.take _), htake, rfl, hlen.symm⟩

theorem accounts_of_reads {cfg : Config} {b rest : Bytes}
    (h : (resyncScanner cfg).Reads s b es t rest) :
    ∃ pieces, Accounts b pieces rest (framesOf es) (discardedOf es) := by
  induction h with
  | done s b => exact ⟨[], rfl, rfl, rfl⟩
  | @next s s' t b b' n o os hstep hrest ih =>
    obtain ⟨pieces, haccounts⟩ := ih
    rw [framesOf_append, discardedOf_append]
    rcases piece_of_step hstep with ⟨rfl, rfl⟩ | ⟨p, hp, hframes, hdiscarded⟩
    · rw [drop_zero] at haccounts
      refine ⟨pieces, haccounts.split, haccounts.frames, ?_⟩
      rw [← haccounts.discarded]
      exact Nat.zero_add _
    · have hcons := haccounts.cons p
      rw [← hp, ← hframes, ← hdiscarded] at hcons
      exact ⟨p :: pieces, hcons⟩

/-- After every call of a run without an error the bytes fed so far are, in order, the frames put
out, the discarded bytes and the pending ones. -/
theorem resync_conserves (cfg : Config) (capacity : ℕ) (chunks : List (Bytes × ℕ)) (st : State)
    (c : Collected) (h : feedAll cfg (fresh capacity) {} chunks = .ok (st, c)) :
    let fed := (chunks.map Prod.fst).flatten
    (∃ pieces, Accounts fed pieces (pendingSuffix st) c.frames c.discarded) ∧
      fed.length = (c.frames.map fun f => f.bytes.length).sum + c.discarded + st.pending ∧
      st.pending ≤ st.carry.bytes.length ∧
      st.carry.bytes.drop (st.carry.bytes.length - st.pending) =
        fed.drop (fed.length - st.pending) := by
  intro fed
  obtain ⟨hwf, es, hreads, hframes, hdiscarded⟩ :=
    feedAll_collects chunks (wellFormed_fresh capacity) h
  obtain ⟨pieces, haccounts⟩ := accounts_of_reads hreads
  have hfed : pendingSuffix (fresh capacity) ++ fed = fed := rfl
  rw [hfed] at haccounts
  have hsame : c.frames = framesOf es ∧ c.discarded = discardedOf es := by
    refine ⟨hframes, ?_⟩
    rw [hdiscarded]
    exact Nat.zero_add _
  rw [← hsame.1, ← hsame.2] at haccounts
  have hlen := haccounts.length_eq
  rw [length_pendingSuffix hwf] at hlen
  refine ⟨⟨pieces, haccounts⟩, hlen, hwf, ?_⟩
  have hcount : fed.length - st.pending = (pieces.flatMap Piece.bytes).length := by
    rw [haccounts.split, length_append, length_pendingSuffix hwf]
    omega
  rw [hcount, haccounts.split, drop_left]
  rfl

theorem resync_conserves_noisy :
    noisyStream.length = 26 + 7 + 5 := by
  have hrun : feedAll {} (fresh 64) {} [(noisyStream, 2)] =
      .ok ({ carry := { bytes := ascii "8=FIX", capacity := 64 }, pending := 5
             garbles := ⟨1, some .wireFramingResync, 7⟩ },
        ⟨[⟨(noisyStream.drop 7).take 26, 14, 5⟩], 7⟩) := by decide +kernel
  exact (resync_conserves {} 64 [(noisyStream, 2)] _ _ hrun).2.1

/-! ## Recovery -/

section Recovery

variable {cfg : Config} {garbage rest : Bytes} {f : WireFrame}

/-- Noise that ends where the first `8=FIX` begins, which begins a frame. -/
structure Noise (garbage : Bytes) (f : WireFrame) : Prop where
  nonempty : garbage ≠ []
  head : garbage.head? ≠ some 56
  start : resyncStart <+: f.bytes
  first : ∀ i < garbage.length, ¬resyncStart <+: (garbage ++ f.bytes).drop i

/-- What is left of the stream while the frame is still to come: `d` bytes of the noise
have been discarded. Not searching, the framer is in front of all of it or of the frame. -/
def Awaiting (garbage : Bytes) (f : WireFrame) (rest : Bytes) (s : Bool) (b : Bytes) (d : ℕ) :
    Prop :=
  ∃ done left, garbage = done ++ left ∧ d = done.length ∧ b = left ++ (f.bytes ++ rest) ∧
    (s = false → left = [] ∨ done = [])

variable {b more incoming : Bytes} {d : ℕ} {st : State}

theorem matchPattern_whole : matchPattern p b = .whole ↔ p <+: b := by
  induction p generalizing b with
  | nil => simp [matchPattern]
  | cons x p ih =>
    cases b with
    | nil => simp [matchPattern]
    | cons y b =>
      rw [matchPattern, cons_prefix_cons]
      split
      next heq =>
        rw [ih]
        exact ⟨fun h => ⟨heq.symm, h⟩, fun h => h.2⟩
      next hne =>
      simp only [reduceCtorEq, false_iff, not_and]
      exact fun heq => absurd heq.symm hne

theorem lt_of_runsOut (h : matchPattern p b = .runsOut) : b.length < p.length := by
  induction p generalizing b with
  | nil => cases h
  | cons x p ih =>
    cases b with
    | nil => simp
    | cons y b =>
      rw [matchPattern] at h
      split at h
      · rw [length_cons, length_cons]
        exact Nat.succ_lt_succ (ih h)
      · cases h

theorem length_resyncStart : resyncStart.length = 5 := rfl

variable (hnoise : Noise garbage f) (hlimits : WithinLimits cfg f)

include hnoise hlimits

theorem awaiting_step (h : Awaiting garbage f rest s b d) :
    ∃ s' n o, resyncStep cfg s b = some (s', n, o) ∧
      ((framesOf o = [] ∧ Awaiting garbage f rest s' (b.drop n) (d + discardedOf o)) ∨
        (s = false ∧ d = garbage.length ∧ n = f.bytes.length ∧ o = [.frame (view f)])) := by
  obtain ⟨done, left, hgarbage, rfl, rfl, hstate⟩ := h
  have hlong : 5 ≤ f.bytes.length := by
    rw [f.length_bytes, f.length_head]
    omega
  cases s with
  | true =>
    cases left with
    | nil =>
      have hwhole : matchPattern resyncStart ([] ++ (f.bytes ++ rest)) = .whole :=
        matchPattern_whole.mpr (hnoise.start.trans (prefix_append _ _))
      refine ⟨false, 0, [], by simp only [resyncStep, hwhole], .inl ⟨rfl, done, [], hgarbage,
        rfl, rfl, fun _ => .inl rfl⟩⟩
    | cons g left =>
      have hdiffers : matchPattern resyncStart (g :: left ++ (f.bytes ++ rest)) =
          .differs := by
        cases hm : matchPattern resyncStart (g :: left ++ (f.bytes ++ rest)) with
        | differs => rfl
        | runsOut =>
          have hlt := lt_of_runsOut hm
          rw [length_resyncStart] at hlt
          simp only [length_append] at hlt
          omega
        | whole =>
          exfalso
          refine hnoise.first done.length ?_ ?_
          · rw [hgarbage, length_append, length_cons]
            omega
          have hdrop : (garbage ++ f.bytes).drop done.length = g :: left ++ f.bytes := by
            rw [hgarbage, append_assoc, drop_left]
          rw [hdrop]
          refine prefix_of_prefix_length_le (matchPattern_whole.mp hm)
            ⟨rest, by rw [append_assoc]⟩ ?_
          rw [length_resyncStart, length_append]
          omega
      refine ⟨true, 1, [.discard 1], by simp only [resyncStep, hdiffers],
        .inl ⟨rfl, done ++ [g], left, by rw [hgarbage, append_assoc]; rfl, ?_, rfl,
          fun hs => (nomatch hs)⟩⟩
      rw [length_append]
      rfl
  | false =>
    rcases hstate rfl with rfl | rfl
    · refine ⟨false, f.bytes.length, [.frame (view f)], ?_, .inr ⟨rfl, ?_, rfl, rfl⟩⟩
      · simp only [resyncStep, nil_append, parseResyncCandidate_wireFrame hlimits rest,
          take_left, view]
      · rw [hgarbage, append_nil]
    subst hgarbage
    obtain ⟨g, left, rfl⟩ := exists_cons_of_ne_nil hnoise.nonempty
    have hne : g ≠ 56 := fun heq => hnoise.head (by rw [heq]; rfl)
    refine ⟨true, 1, [.discard 1], ?_, .inl ⟨rfl, [g], left, rfl, rfl, rfl, fun hs => (nomatch hs)⟩⟩
    simp only [resyncStep, cons_append, parseResyncCandidate, if_pos hne, resyncGarble,
      Bool.false_eq_true, if_false]

section

variable (h : Awaiting garbage f rest s (b ++ more) d)
include h

theorem step_of_arrived {n : ℕ}
    (hstep : resyncStep cfg s b = some (s', n, o)) :
    (framesOf o = [] ∧ Awaiting garbage f rest s' (b.drop n ++ more) (d + discardedOf o)) ∨
      (s = false ∧ d = garbage.length ∧ n = f.bytes.length ∧ o = [.frame (view f)]) := by
  obtain ⟨s₁, n₁, o₁, hwhole, hcases⟩ := awaiting_step hnoise hlimits h
  have hstable := resyncStep_stable cfg s b _ more hstep
  rw [hwhole] at hstable
  cases hstable
  have hbound := resyncStep_bounded cfg s b s' n o hstep
  rwa [drop_append_of_le_length hbound] at hcases

theorem awaiting_of_reads (hreads : (resyncScanner cfg).Reads s b es t c)
    (hnone : framesOf es = []) : Awaiting garbage f rest t (c ++ more) (d + discardedOf es) := by
  induction hreads generalizing d with
  | done s b => exact h
  | @next s s' t b b' n o os hstep hrest ih =>
    rw [framesOf_append, append_eq_nil_iff] at hnone
    rcases step_of_arrived hnoise hlimits h hstep with ⟨-, hnext⟩ | ⟨-, -, -, rfl⟩
    · rw [discardedOf_append, ← Nat.add_assoc]
      exact ih hnext hnone.2
    · exact absurd hnone.1 (by simp [framesOf])

theorem lt_of_quiet
    (hquiet : FramerChunking.Quiet cfg s b) : b.length < f.bytes.length := by
  by_contra hlong
  have hfive : 5 ≤ f.bytes.length := by
    rw [f.length_bytes, f.length_head]
    omega
  unfold FramerChunking.Quiet resyncScanner at hquiet
  cases s with
  | true =>
    simp only [resyncStep] at hquiet
    split at hquiet
    · cases hquiet
    next hm =>
      have hlt := lt_of_runsOut hm
      rw [length_resyncStart] at hlt
      omega
    · cases hquiet
  | false =>
    obtain ⟨done, left, hgarbage, -, hb, hstate⟩ := h
    rcases hstate rfl with rfl | rfl
    · obtain ⟨tail, rfl⟩ : f.bytes <+: b :=
        prefix_of_prefix_length_le ⟨rest, hb.symm⟩ ⟨more, rfl⟩ (by omega)
      simp only [resyncStep, parseResyncCandidate_wireFrame hlimits tail] at hquiet
      cases hquiet
    subst hgarbage
    cases b with
    | nil =>
      rw [length_nil] at hlong
      omega
    | cons g b =>
      have hne : g ≠ 56 := by
        intro heq
        obtain ⟨g', left, rfl⟩ := exists_cons_of_ne_nil hnoise.nonempty
        obtain ⟨rfl, -⟩ := cons.inj hb
        exact hnoise.head (by rw [heq]; rfl)
      simp only [resyncStep, parseResyncCandidate, if_pos hne, resyncGarble] at hquiet
      cases hquiet

/-- A reading that puts out frames behind what it discards puts out the awaited frame
first, and has discarded the noise. -/
theorem first_of_reads {ds : List FramerStability.Event} {v : FrameView} {vs : List FrameView}
    (hreads : (resyncScanner cfg).Reads s b es t c) (hes : es = ds ++ (v :: vs).map .frame)
    (hds : framesOf ds = []) : v = view f ∧ d + discardedOf ds = garbage.length := by
  induction hreads generalizing d ds with
  | done s b => simp at hes
  | @next s s' t b b' n o os hstep hrest ih =>
    rcases step_of_arrived hnoise hlimits h hstep with ⟨hnone, hnext⟩ | ⟨-, hd, -, rfl⟩
    · obtain ⟨ds', rfl, hos, hds'⟩ := discards_first hnone hds hes
      rw [discardedOf_append, ← Nat.add_assoc]
      exact ih hnext hos hds'
    cases ds with
    | nil =>
      obtain ⟨heq, -⟩ := cons.inj hes
      exact ⟨(FramerStability.Event.frame.inj heq).symm, hd⟩
    | cons e ds =>
      obtain ⟨rfl, -⟩ := cons.inj hes
      cases hds

end

/-! ## Calls and runs -/

/-- One call in front of the frame. It finds the frame, or it still awaits it, or the carry cannot
hold the chunk. -/
theorem feedResync_awaiting {outSize : ℕ} (hwf : WellFormed st) (hout : 0 < outSize)
    (h : Awaiting garbage f rest st.searching (pendingSuffix st ++ incoming ++ more) d) :
    (∃ st' frames, feedResync cfg st incoming outSize = (st', .ok frames) ∧
        ((frames.head? = some (view f) ∧ d + st'.garbles.discarded = garbage.length) ∨
          (frames = [] ∧ WellFormed st' ∧ st'.carry.capacity = st.carry.capacity ∧
            FramerChunking.Quiet cfg st'.searching (pendingSuffix st') ∧
            Awaiting garbage f rest st'.searching (pendingSuffix st' ++ more)
              (d + st'.garbles.discarded)))) ∨
      ((feedResync cfg st incoming outSize).2 = .error .wireFrameTooLarge ∧
        st.carry.capacity < st.pending + incoming.length) := by
  rcases feedResync_spec cfg hwf incoming outSize with
    ⟨st', frames, hfeed, hfed⟩ | ⟨herr, hover | ⟨ds, t, c, hreads, hnone, hover⟩⟩
  · refine .inl ⟨st', frames, hfeed, ?_⟩
    obtain ⟨ds, hds, hdisc, hreads⟩ := hfed.reads
    rw [← hdisc]
    cases frames with
    | nil =>
      rw [map_nil, append_nil] at hreads
      exact .inr ⟨rfl, hfed.wellFormed, hfed.capacity, (hfed.resting hout rfl).1,
        awaiting_of_reads hnoise hlimits h hreads hds⟩
    | cons v vs =>
      obtain ⟨rfl, hall⟩ := first_of_reads hnoise hlimits h hreads rfl hds
      exact .inl ⟨rfl, hall⟩
  · exact .inr ⟨herr, hover⟩
  -- the whole stream would be refused as well, but its step is known
  have hnext := awaiting_of_reads hnoise hlimits h hreads hnone
  obtain ⟨s', n, o, hstep, -⟩ := awaiting_step hnoise hlimits hnext
  have hquiet : resyncStep cfg t (c ++ more) = none := (hover.append more).quiet
  rw [hquiet] at hstep
  cases hstep

/-- The run in front of the frame: some calls await it, and the next one finds it or
cannot hold its chunk. -/
theorem feedAll_awaiting (chunks : List (Bytes × ℕ)) (hsizes : ∀ c ∈ chunks, 1 ≤ c.2)
    {c : Collected} (hwf : WellFormed st)
    (hquiet : FramerChunking.Quiet cfg st.searching (pendingSuffix st))
    (h : Awaiting garbage f rest st.searching
      (pendingSuffix st ++ (chunks.map Prod.fst).flatten) c.discarded) :
    ∃ before chunk outSize after st' c', chunks = before ++ (chunk, outSize) :: after ∧
      feedAll cfg st c before = .ok (st', c') ∧ c'.frames = c.frames ∧
      ((∃ st'' frames, feedResync cfg st' chunk outSize = (st'', .ok frames) ∧
          frames.head? = some (view f) ∧
          c'.discarded + st''.garbles.discarded = garbage.length) ∨
        ((feedResync cfg st' chunk outSize).2 = .error .wireFrameTooLarge ∧
          st.carry.capacity < st'.pending + chunk.length ∧ st'.pending < f.bytes.length)) := by
  induction chunks generalizing st c with
  | nil =>
    -- all of the stream has arrived, and its step is known
    rw [map_nil, flatten_nil, append_nil] at h
    obtain ⟨s', n, o, hstep, -⟩ := awaiting_step hnoise hlimits h
    have hnone : resyncStep cfg st.searching (pendingSuffix st) = none := hquiet
    rw [hnone] at hstep
    cases hstep
  | cons head rest' ih =>
    obtain ⟨chunk, outSize⟩ := head
    rw [map_cons, flatten_cons, ← append_assoc] at h
    have hout : 0 < outSize := hsizes (chunk, outSize) mem_cons_self
    have hshort : st.pending < f.bytes.length := by
      rw [← length_pendingSuffix hwf]
      rw [append_assoc] at h
      exact lt_of_quiet hnoise hlimits h hquiet
    rcases feedResync_awaiting hnoise hlimits hwf hout h with ⟨st', frames, hfeed, hcase⟩ | hover
    · rcases hcase with ⟨hfirst, hdisc⟩ | ⟨rfl, hwf', hcap, hquiet', hnext⟩
      · exact ⟨[], chunk, outSize, rest', st, c, rfl, rfl, rfl,
          .inl ⟨st', frames, hfeed, hfirst, hdisc⟩⟩
      obtain ⟨before, chunk', outSize', after, stB, cB, hsplit, hrun, hframes, hend⟩ :=
        ih (c := c.add [] st'.garbles.discarded)
          (fun c hc => hsizes c (mem_cons_of_mem _ hc)) hwf' hquiet' hnext
      refine ⟨(chunk, outSize) :: before, chunk', outSize', after, stB, cB, ?_, ?_, ?_, ?_⟩
      · rw [hsplit, cons_append]
      · rw [feedAll, hfeed]
        exact hrun
      · rw [hframes, Collected.add, append_nil]
      · rwa [hcap] at hend
    · exact ⟨[], chunk, outSize, rest', st, c, rfl, rfl, rfl, .inr ⟨hover.1, hover.2, hshort⟩⟩

end Recovery

/-- A framer with nothing pending is fed noise, a frame and whatever follows, cut anyhow, by calls
with room for a frame. The first call that puts out something puts out the frame, and what was
discarded is the noise; unless the carry, with less than the frame unread, cannot hold one more
chunk. -/
theorem resync_recovers (cfg : Config) (garbage rest : Bytes) (f : WireFrame) (st : State)
    (chunks : List (Bytes × ℕ)) (hnoise : Noise garbage f) (hlimits : WithinLimits cfg f)
    (hnothing : st.pending = 0) (hsizes : ∀ c ∈ chunks, 1 ≤ c.2)
    (hfed : (chunks.map Prod.fst).flatten = garbage ++ (f.bytes ++ rest)) :
    ∃ before chunk outSize after st' c, chunks = before ++ (chunk, outSize) :: after ∧
      feedAll cfg st {} before = .ok (st', c) ∧ c.frames = [] ∧
      ((∃ st'' frames, feedResync cfg st' chunk outSize = (st'', .ok frames) ∧
          frames.head? = some (view f) ∧
          c.discarded + st''.garbles.discarded = garbage.length) ∨
        ((feedResync cfg st' chunk outSize).2 = .error .wireFrameTooLarge ∧
          st.carry.capacity < st'.pending + chunk.length ∧ st'.pending < f.bytes.length)) := by
  have hnil : pendingSuffix st = [] := by
    unfold pendingSuffix
    rw [hnothing, Nat.sub_zero, drop_length]
  have hwf : WellFormed st := by
    unfold WellFormed
    omega
  have hquiet : FramerChunking.Quiet cfg st.searching (pendingSuffix st) := by
    rw [hnil]
    exact quiet_nil cfg st.searching
  have hawait : Awaiting garbage f rest st.searching
      (pendingSuffix st ++ (chunks.map Prod.fst).flatten) 0 := by
    rw [hnil, nil_append, hfed]
    exact ⟨[], garbage, rfl, rfl, rfl, fun _ => .inr rfl⟩
  exact feedAll_awaiting hnoise hlimits chunks hsizes hwf hquiet hawait

def heartbeatFrame : WireFrame where
  beginString := ascii "FIX.4.4"
  lengthDigits := ascii "5"
  content := ascii "35=0"
  checkDigits := ascii "163"
  begin_clean := by decide
  length_nonempty := by decide
  length_digits := by decide
  length_counts := by decide
  check_three := by decide
  check_digits := by decide
  check_sums := by decide

theorem heartbeat_noise : Noise (ascii "junk8=F") heartbeatFrame :=
  ⟨by decide, by decide, by decide +kernel, by decide +kernel⟩

theorem heartbeat_limits : WithinLimits {} heartbeatFrame :=
  ⟨by decide, by decide, by decide +kernel⟩

/-- A carry of eight bytes cannot hold the start of the heartbeat. -/
theorem resync_overflows :
    let stream := ascii "junk8=F" ++ heartbeatFrame.bytes
    Noise (ascii "junk8=F") heartbeatFrame ∧ WithinLimits {} heartbeatFrame ∧
      (feedAll {} (fresh 8) {} [(stream.take 18, 1), (stream.drop 18, 1)] =
        .error .wireFrameTooLarge) :=
  ⟨heartbeat_noise, heartbeat_limits, by decide +kernel⟩

theorem resync_recovers_noisy :
    ∃ before chunk outSize after st c, noisyChunks = before ++ (chunk, outSize) :: after ∧
      feedAll {} (fresh 64) {} before = .ok (st, c) ∧ c.frames = [] ∧
      ∃ st' frames, feedResync {} st chunk outSize = (st', .ok frames) ∧
        frames.head? = some (view heartbeatFrame) ∧ c.discarded + st'.garbles.discarded = 7 := by
  obtain ⟨before, chunk, outSize, after, st, c, hsplit, hrun, hnone, hcase⟩ :=
    resync_recovers {} (ascii "junk8=F") (ascii "8=FIX") heartbeatFrame (fresh 64) noisyChunks
      heartbeat_noise heartbeat_limits rfl (by decide) (by decide +kernel)
  refine ⟨before, chunk, outSize, after, st, c, hsplit, hrun, hnone, ?_⟩
  rcases hcase with hfound | ⟨-, hover, hshort⟩
  · exact hfound
  have hchunks : ∀ p ∈ noisyChunks, p.1.length ≤ 20 := by decide +kernel
  have hlen := hchunks (chunk, outSize) (by rw [hsplit]; simp)
  have hframe : heartbeatFrame.bytes.length = 26 := by decide +kernel
  have hcap : (fresh 64).carry.capacity = 64 := rfl
  dsimp only at hlen
  omega

end Fixpp.Analysis.ResyncRecovery
