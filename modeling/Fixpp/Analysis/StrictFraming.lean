import Fixpp.Analysis.FrameParsing

/-!
# The frames at the start of a stream

The strict framer is a scanner whose only step takes a complete frame off the unread bytes. A
feed that reports no error makes some of its steps (`feed_spec`), and all of them if it leaves
room in its output.
-/

namespace Fixpp.Analysis.StrictFraming

open Foundation Interface Model Model.StrictFramer List
open FrameParsing
open Model.Framer (Config CarryBuffer FrameView)

/-- The frames are the well-formed ones within the limit at the start of the stream, one
after the other, and no further one follows. -/
structure Leading (limit : ℕ) (stream : Bytes) (frames : List WireFrame) (rest : Bytes) :
    Prop where
  split : stream = frames.flatMap WireFrame.bytes ++ rest
  fits : ∀ f ∈ frames, f.bytes.length ≤ limit
  maximal : ∀ f : WireFrame, f.bytes.length ≤ limit → ¬f.bytes <+: rest

/-! ## The scanner -/

def strictStep (limit : ℕ) (b : Bytes) : Option (Unit × ℕ × List FrameView) :=
  match parseFrame limit b with
  | .complete frameLen bodyOff bodyLen =>
    some ((), frameLen, [⟨b.take frameLen, bodyOff, bodyLen⟩])
  | .incomplete => none
  | .error _ => none

variable {b rest incoming : Bytes} {es : List FrameView} {code : Error} {outSize : ℕ}

theorem strictStep_iff {limit : ℕ} (hlimit : limit < sizeLimit) {r : Unit × ℕ × List FrameView} :
    strictStep limit b = some r ↔ ∃ f : WireFrame, f.bytes.length ≤ limit ∧ f.bytes <+: b ∧
        r = ((), f.bytes.length, [view f]) := by
  constructor
  · intro h
    unfold strictStep at h
    split at h
    next l o k hparse =>
      obtain ⟨f, hfits, ⟨tail, rfl⟩, rfl, rfl, rfl⟩ := (parseFrame_iff hlimit).mp hparse
      refine ⟨f, hfits, ⟨tail, rfl⟩, ?_⟩
      rw [take_left] at h
      exact (Option.some.inj h).symm
    · cases h
    · cases h
  · rintro ⟨f, hfits, ⟨tail, rfl⟩, rfl⟩
    have hparse := (parseFrame_iff hlimit).mpr ⟨f, hfits, ⟨tail, rfl⟩, rfl, rfl, rfl⟩
    unfold strictStep
    rw [hparse]
    dsimp only
    rw [take_left]
    rfl

def strictScanner (limit : ℕ) (hlimit : limit < sizeLimit) : Scanner Unit UInt8 FrameView where
  step _ b := strictStep limit b
  bounded := by
    intro s b s' n o h
    obtain ⟨f, -, hprefix, hr⟩ := (strictStep_iff hlimit).mp h
    cases hr
    exact hprefix.length_le
  stable := by
    intro s b r c h
    obtain ⟨f, hfits, hprefix, hr⟩ := (strictStep_iff hlimit).mp h
    exact (strictStep_iff hlimit).mpr ⟨f, hfits, hprefix.trans (prefix_append b c), hr⟩

variable {cfg : Config} (hlimit : cfg.maxFrameBytes < sizeLimit)

theorem frames_of_reads {s t : Unit}
    (h : (strictScanner cfg.maxFrameBytes hlimit).Reads s b es t rest) :
    ∃ frames : List WireFrame, es = frames.map view ∧ b = frames.flatMap WireFrame.bytes ++ rest ∧
      ∀ f ∈ frames, f.bytes.length ≤ cfg.maxFrameBytes := by
  induction h with
  | done s b => exact ⟨[], rfl, rfl, fun f hf => (nomatch hf)⟩
  | @next s s' t b b' n o os hstep rest ih =>
    obtain ⟨f, hfits, ⟨tail, rfl⟩, hr⟩ := (strictStep_iff hlimit).mp hstep
    cases hr
    rw [drop_left] at ih
    obtain ⟨frames, rfl, rfl, hall⟩ := ih
    refine ⟨f :: frames, rfl, by simp, ?_⟩
    intro g hg
    rcases mem_cons.mp hg with rfl | hin
    · exact hfits
    · exact hall g hin

theorem quiet_iff (hlimit : cfg.maxFrameBytes < sizeLimit) :
    strictStep cfg.maxFrameBytes rest = none ↔
      ∀ f : WireFrame, f.bytes.length ≤ cfg.maxFrameBytes → ¬f.bytes <+: rest := by
  constructor
  · intro h f hfits hprefix
    have hsome := (strictStep_iff hlimit).mpr ⟨f, hfits, hprefix, rfl⟩
    rw [h] at hsome
    cases hsome
  intro h
  cases hstep : strictStep cfg.maxFrameBytes rest with
  | none => rfl
  | some r =>
    obtain ⟨f, hfits, hprefix, -⟩ := (strictStep_iff hlimit).mp hstep
    exact absurd hprefix (h f hfits)

theorem strictStep_nil (limit : ℕ) : strictStep limit [] = none := rfl

theorem strictStep_of_error {limit : ℕ} (h : parseFrame limit b = .error code) :
    strictStep limit b = none := by
  unfold strictStep
  rw [h]

theorem leading_of_reads (h : (strictScanner cfg.maxFrameBytes hlimit).Reads () b es () rest) :
    ∃ frames rest', Leading cfg.maxFrameBytes b frames rest' ∧ es <+: frames.map view ∧
      (strictStep cfg.maxFrameBytes rest = none → es = frames.map view ∧ rest' = rest) := by
  -- on the length of the unread bytes: every further frame shortens them
  induction hn : rest.length using Nat.strongRecOn generalizing rest es with
  | ind n ih =>
    subst hn
    cases hstep : strictStep cfg.maxFrameBytes rest with
    | none =>
      obtain ⟨frames, rfl, rfl, hfits⟩ := frames_of_reads hlimit h
      exact ⟨frames, rest, ⟨rfl, hfits, (quiet_iff hlimit).mp hstep⟩, prefix_rfl,
        fun _ => ⟨rfl, rfl⟩⟩
    | some r =>
      obtain ⟨f, hfits, ⟨tail, rfl⟩, rfl⟩ := (strictStep_iff hlimit).mp hstep
      have hlonger := h.trans (.single hstep)
      rw [drop_left] at hlonger
      have hshort : tail.length < (f.bytes ++ tail).length := by
        rw [length_append, f.length_bytes]
        omega
      obtain ⟨frames, rest', hlead, hprefix, -⟩ := ih _ hshort hlonger rfl
      exact ⟨frames, rest', hlead, (prefix_append es [view f]).trans hprefix,
        fun hnone => (nomatch hnone)⟩

/-! ## One call -/

def WellFormed (st : State) : Prop := st.pending ≤ st.carry.bytes.length

/-- What the loop leaves of `source`: the frames it read and the unread rest, or what the
parser refuses behind some frames. -/
def LoopOutcome (outSize : ℕ) (produced : List FrameView) (source : Bytes) :
    Except Error (List FrameView × Bytes) → Prop
  | .ok (frames, trailing) => ∃ es, frames = produced ++ es ∧
      (strictScanner cfg.maxFrameBytes hlimit).Reads () source es () trailing ∧
      (frames.length < outSize → strictStep cfg.maxFrameBytes trailing = none)
  | .error code => ∃ es bad, (strictScanner cfg.maxFrameBytes hlimit).Reads () source es () bad ∧
      parseFrame cfg.maxFrameBytes bad = .error code

variable {produced : List FrameView} {source : Bytes} {st : State}

theorem LoopOutcome.stop
    (h : produced.length < outSize → strictStep cfg.maxFrameBytes source = none) :
    LoopOutcome hlimit outSize produced source (.ok (produced, source)) :=
  ⟨[], (append_nil _).symm, .done () source, h⟩

theorem LoopOutcome.frame {l : ℕ} {v : FrameView} {r : Except Error (List FrameView × Bytes)}
    (hstep : strictStep cfg.maxFrameBytes source = some ((), l, [v]))
    (h : LoopOutcome hlimit outSize (produced ++ [v]) (source.drop l) r) :
    LoopOutcome hlimit outSize produced source r := by
  cases r with
  | ok read =>
    obtain ⟨es, hframes, hreads, hquiet⟩ := h
    refine ⟨v :: es, ?_, ?_, hquiet⟩
    · rw [hframes, append_assoc, singleton_append]
    · exact .next (T := strictScanner cfg.maxFrameBytes hlimit) hstep hreads
  | error code =>
    obtain ⟨es, bad, hreads, hbad⟩ := h
    exact ⟨v :: es, bad, .next (T := strictScanner cfg.maxFrameBytes hlimit) hstep hreads, hbad⟩

theorem feedLoop_spec {fuel : ℕ} (hfuel : source.length < fuel) :
    LoopOutcome hlimit outSize produced source (feedLoop cfg outSize fuel produced source) := by
  induction fuel generalizing produced source with
  | zero => omega
  | succ fuel ih =>
    rw [feedLoop]
    split
    next hnil =>
      subst hnil
      exact .stop hlimit fun _ => strictStep_nil _
    split
    next hfull => exact .stop hlimit fun hroom => absurd hfull (by omega)
    split
    next hparse =>
      refine .stop hlimit fun _ => ?_
      unfold strictStep
      rw [hparse]
    next hparse => exact ⟨[], source, .done () source, hparse⟩
    next l o k hparse =>
    have hstep : strictStep cfg.maxFrameBytes source =
        some ((), l, [⟨source.take l, o, k⟩]) := by
      unfold strictStep
      rw [hparse]
    obtain ⟨f, -, hprefix, hr⟩ := (strictStep_iff hlimit).mp hstep
    have hlen : l = f.bytes.length := (Prod.mk.inj (Prod.mk.inj hr).2).1
    have hpos := f.length_bytes
    have hle := hprefix.length_le
    exact .frame hlimit hstep (ih (by rw [length_drop]; omega))

theorem settled_bytes (st : State) :
    (if st.pending < st.carry.bytes.length then
      st.carry.consumeFront (st.carry.bytes.length - st.pending) else st.carry).bytes =
        pendingSuffix st := by
  unfold pendingSuffix
  split
  · rfl
  · rw [show st.carry.bytes.length - st.pending = 0 by omega, drop_zero]

theorem settled_capacity (st : State) :
    (if st.pending < st.carry.bytes.length then
      st.carry.consumeFront (st.carry.bytes.length - st.pending) else st.carry).capacity =
        st.carry.capacity := by
  split
  · rfl
  · rfl

theorem append_of_some {c c' : CarryBuffer} (h : c.append incoming = some c') :
    c'.bytes = c.bytes ++ incoming ∧ c'.capacity = c.capacity := by
  unfold CarryBuffer.append at h
  split at h
  · cases h
  cases h
  exact ⟨rfl, rfl⟩

theorem lt_of_append_none {c : CarryBuffer} (h : c.append incoming = none) :
    c.capacity < c.bytes.length + incoming.length := by
  unfold CarryBuffer.append at h
  split at h
  next hlt => exact hlt
  · cases h

theorem drop_of_suffix {bytes trailing : Bytes} (h : trailing <:+ bytes) :
    bytes.drop (bytes.length - trailing.length) = trailing := by
  obtain ⟨front, rfl⟩ := h
  rw [length_append, Nat.add_sub_cancel, drop_left]

theorem suffix_of_reads (h : (strictScanner cfg.maxFrameBytes hlimit).Reads () b es () rest) :
    rest <:+ b := by
  obtain ⟨frames, -, rfl, -⟩ := frames_of_reads hlimit h
  exact suffix_append _ _

/-- What a call does. Without an error it reads frames off the pending and the incoming bytes, all
there are when it leaves room. It fails when the parser refuses the bytes behind some frames, or
when the carry cannot hold the unread bytes. -/
def CallOutcome (st : State) (incoming : Bytes) (outSize : ℕ) (st' : State) :
    Except Error (List FrameView) → Prop
  | .ok frames => WellFormed st' ∧ st'.carry.capacity = st.carry.capacity ∧
      (strictScanner cfg.maxFrameBytes hlimit).Reads () (pendingSuffix st ++ incoming) frames ()
        (pendingSuffix st') ∧
      (frames.length < outSize → strictStep cfg.maxFrameBytes (pendingSuffix st') = none)
  | .error code =>
    (∃ es bad, (strictScanner cfg.maxFrameBytes hlimit).Reads () (pendingSuffix st ++ incoming) es
        () bad ∧ parseFrame cfg.maxFrameBytes bad = .error code) ∨
      code = .wireFrameTooLarge ∧ st.carry.capacity < (pendingSuffix st ++ incoming).length

theorem callOutcome_of_reads {frames : List FrameView} {trailing : Bytes} {carry : CarryBuffer}
    (hcap : carry.capacity = st.carry.capacity) (hsuffix : trailing <:+ carry.bytes)
    (hreads : (strictScanner cfg.maxFrameBytes hlimit).Reads () (pendingSuffix st ++ incoming)
      frames () trailing)
    (hquiet : frames.length < outSize → strictStep cfg.maxFrameBytes trailing = none) :
    CallOutcome hlimit st incoming outSize { carry := carry, pending := trailing.length }
      (.ok frames) := by
  have hpending : pendingSuffix { carry := carry, pending := trailing.length } = trailing :=
    drop_of_suffix hsuffix
  refine ⟨hsuffix.length_le, hcap, ?_, ?_⟩
  · rw [hpending]
    exact hreads
  rw [hpending]
  exact hquiet

theorem feed_spec (st : State) (incoming : Bytes) (outSize : ℕ) :
    CallOutcome hlimit st incoming outSize (feed cfg st incoming outSize).1
      (feed cfg st incoming outSize).2 := by
  have hbytes := settled_bytes st
  have hcap := settled_capacity st
  unfold feed
  dsimp only
  generalize (if st.pending < st.carry.bytes.length then
      st.carry.consumeFront (st.carry.bytes.length - st.pending) else st.carry) = carry
    at hbytes hcap ⊢
  split
  next hempty =>
    have hnil : pendingSuffix st ++ incoming = incoming := by
      rw [← hbytes, isEmpty_iff.mp hempty, nil_append]
    have hspec : LoopOutcome hlimit outSize [] incoming _ :=
      feedLoop_spec hlimit (Nat.lt_succ_self incoming.length)
    cases hloop : feedLoop cfg outSize (incoming.length + 1) [] incoming with
    | error code =>
      rw [hloop] at hspec
      exact .inl (hnil.symm ▸ hspec)
    | ok r =>
      obtain ⟨frames, trailing⟩ := r
      rw [hloop] at hspec
      obtain ⟨es, rfl, hreads, hquiet⟩ := hspec
      have hshort := (suffix_of_reads hlimit hreads).length_le
      rw [← hnil] at hreads
      dsimp only
      split
      next hend =>
        have htrailing : trailing = [] := eq_nil_of_length_eq_zero hend
        subst htrailing
        exact callOutcome_of_reads hlimit (show carry.clear.capacity = _ from hcap)
          nil_suffix hreads hquiet
      split
      next happ =>
        have hlt := lt_of_append_none happ
        refine .inr ⟨rfl, ?_⟩
        rw [← hcap, hnil]
        have hclear : carry.clear.bytes.length = 0 := rfl
        have hkeep : carry.clear.capacity = carry.capacity := rfl
        omega
      next carry' happ =>
        obtain ⟨hcarry, hcap'⟩ := append_of_some happ
        have hwhole : carry'.bytes = trailing := hcarry
        exact callOutcome_of_reads hlimit (hcap'.trans hcap)
          (hwhole ▸ suffix_rfl) hreads hquiet
  · cases happ : carry.append incoming with
    | none =>
      have hlt := lt_of_append_none happ
      rw [hbytes, hcap] at hlt
      exact .inr ⟨rfl, by rw [length_append]; exact hlt⟩
    | some carry' =>
      obtain ⟨hcarry, hcap'⟩ := append_of_some happ
      have hspec : LoopOutcome hlimit outSize [] carry'.bytes _ :=
        feedLoop_spec hlimit (Nat.lt_succ_self carry'.bytes.length)
      dsimp only
      cases hloop : feedLoop cfg outSize (carry'.bytes.length + 1) [] carry'.bytes with
      | error code =>
        rw [hloop, hcarry, hbytes] at hspec
        exact .inl hspec
      | ok r =>
        rw [hloop] at hspec
        obtain ⟨es, rfl, hreads, hquiet⟩ := hspec
        have hsuffix := suffix_of_reads hlimit hreads
        rw [hcarry, hbytes] at hreads
        exact callOutcome_of_reads hlimit (hcap'.trans hcap) hsuffix hreads hquiet

theorem feed_wireFrame (hlimit : cfg.maxFrameBytes < sizeLimit) (capacity : ℕ) {f : WireFrame}
    (hout : 0 < outSize) (hfits : f.bytes.length ≤ cfg.maxFrameBytes) :
    feed cfg (fresh capacity) f.bytes outSize = (fresh capacity, .ok [view f]) := by
  have hparse : parseFrame cfg.maxFrameBytes f.bytes =
      .complete f.bytes.length f.head.length f.body.length :=
    (parseFrame_iff hlimit).mpr ⟨f, hfits, prefix_rfl, rfl, rfl, rfl⟩
  have hne : f.bytes ≠ [] := by
    intro hnil
    have hlen := f.length_bytes
    rw [hnil, length_nil] at hlen
    omega
  obtain ⟨n, hn⟩ : ∃ n, f.bytes.length = n + 1 :=
    Nat.exists_eq_succ_of_ne_zero fun hzero => hne (eq_nil_of_length_eq_zero hzero)
  have hloop : feedLoop cfg outSize (f.bytes.length + 1) [] f.bytes = .ok ([view f], []) := by
    rw [feedLoop, if_neg hne, if_neg (by rw [length_nil]; omega), hparse]
    dsimp only
    rw [take_length, drop_length, nil_append, hn, feedLoop, if_pos rfl]
    rfl
  unfold feed
  rw [hloop]
  rfl

/-! ## Runs -/

def LeftRoom (r : Run) : Prop := ∀ c ∈ r.calls.getLast?, c.frames.length < c.outSize

instance (r : Run) : Decidable (LeftRoom r) :=
  inferInstanceAs (Decidable (∀ c ∈ r.calls.getLast?, c.frames.length < c.outSize))

/-- A run is a reading of what it was fed. Its last call, if it left room, has read all
frames there are, and the chunk behind it is what it failed on, if it did. -/
theorem feedAll_reads {capacity : ℕ} (chunks : List (Bytes × ℕ)) (hwf : WellFormed st)
    (hcap : st.carry.capacity = capacity) :
    let r := feedAll cfg st chunks
    ∃ unread, (strictScanner cfg.maxFrameBytes hlimit).Reads () (pendingSuffix st ++ r.fed)
        r.frames () unread ∧
      (∀ c, r.calls.getLast? = some c → c.frames.length < c.outSize →
        strictStep cfg.maxFrameBytes unread = none) ∧
      r.calls.map (fun c => (c.chunk, c.outSize)) = chunks.take r.calls.length ∧
      (r.error = none → r.calls.length = chunks.length ∧ unread = pendingSuffix r.state) ∧
      ∀ code, r.error = some code → ∃ chunk outSize,
        chunks[r.calls.length]? = some (chunk, outSize) ∧
        ((∃ es bad, (strictScanner cfg.maxFrameBytes hlimit).Reads () (unread ++ chunk) es () bad ∧
            parseFrame cfg.maxFrameBytes bad = .error code) ∨
          code = .wireFrameTooLarge ∧ capacity < (unread ++ chunk).length) := by
  induction chunks generalizing st with
  | nil =>
    refine ⟨pendingSuffix st, ?_, fun c hc => (nomatch hc), rfl, fun _ => ⟨rfl, rfl⟩,
      fun code hcode => (nomatch hcode)⟩
    rw [Run.fed, feedAll, flatMap_nil, append_nil]
    exact .done () _
  | cons head rest ih =>
    obtain ⟨chunk, outSize⟩ := head
    rw [feedAll]
    split
    next st' code hfeed =>
      refine ⟨pendingSuffix st, ?_, fun c hc => (nomatch hc), rfl, fun hnone => (nomatch hnone), ?_⟩
      · rw [Run.fed, flatMap_nil, append_nil]
        exact .done () _
      rintro code' ⟨⟩
      refine ⟨chunk, outSize, rfl, ?_⟩
      rw [← hcap]
      have hspec := feed_spec hlimit st chunk outSize
      rw [hfeed] at hspec
      exact hspec
    next st' frames hfeed =>
    have hspec := feed_spec hlimit st chunk outSize
    rw [hfeed] at hspec
    obtain ⟨hwf', hcap', hreads, hquiet⟩ := hspec
    obtain ⟨unread, hlater, hroom, hchunks, hend, hfail⟩ := ih hwf' (hcap'.trans hcap)
    refine ⟨unread, ?_, ?_, ?_, ?_, hfail⟩
    · have hextended := (hreads.extend (feedAll cfg st' rest).fed).trans hlater
      rw [append_assoc] at hextended
      exact hextended
    · intro c hc hless
      cases hcalls : (feedAll cfg st' rest).calls with
      | nil =>
        -- the call is the only one, and what it left is what is unread
        dsimp only at hc
        rw [hcalls] at hc
        cases hc
        have hfed : (feedAll cfg st' rest).fed = [] := by rw [Run.fed, hcalls]; rfl
        have hnone : (feedAll cfg st' rest).frames = [] := by rw [Run.frames, hcalls]; rfl
        rw [hfed, hnone, append_nil] at hlater
        obtain ⟨frames', hframes', hsplit, -⟩ := frames_of_reads hlimit hlater
        have hempty : frames' = [] := map_eq_nil_iff.mp hframes'.symm
        subst hempty
        rw [flatMap_nil, nil_append] at hsplit
        rw [← hsplit]
        exact hquiet hless
      | cons first more =>
        refine hroom c ?_ hless
        rw [hcalls]
        dsimp only at hc
        rwa [hcalls, getLast?_cons_cons] at hc
    · dsimp only
      rw [map_cons, length_cons, take_succ_cons, hchunks]
    intro hnone
    obtain ⟨hlen, hunread⟩ := hend hnone
    exact ⟨by rw [length_cons, length_cons, hlen], hunread⟩

theorem wellFormed_fresh (capacity : ℕ) : WellFormed (fresh capacity) := Nat.le_refl 0

theorem run_reads (capacity : ℕ) (chunks : List (Bytes × ℕ)) :
    let r := feedAll cfg (fresh capacity) chunks
    ∃ unread, (strictScanner cfg.maxFrameBytes hlimit).Reads () r.fed r.frames () unread ∧
      (LeftRoom r → strictStep cfg.maxFrameBytes unread = none) := by
  intro r
  obtain ⟨unread, hreads, hroom, -⟩ := feedAll_reads hlimit chunks (wellFormed_fresh capacity) rfl
  refine ⟨unread, hreads, fun hleft => ?_⟩
  cases hlast : r.calls.getLast? with
  | some c => exact hroom c hlast (hleft c hlast)
  | none =>
    -- without a call nothing was fed
    have hcalls : r.calls = [] := getLast?_eq_none_iff.mp hlast
    have hshort := (suffix_of_reads hlimit hreads).length_le
    have hfed : pendingSuffix (fresh capacity) ++ r.fed = [] := by
      rw [Run.fed, hcalls]
      rfl
    rw [hfed] at hshort
    rw [eq_nil_of_length_eq_zero (Nat.le_zero.mp hshort)]
    exact strictStep_nil _

/-- The frames returned before the first error are the first of those at the start of the bytes fed
by then, all of them when the last call left room in its output. The call that reports an error
returns none of the frames it found up to the bad bytes, or the carry cannot hold what is unread. -/
theorem strict_leading_frames (cfg : Config) (capacity : ℕ) (chunks : List (Bytes × ℕ))
    (hlimit : cfg.maxFrameBytes < sizeLimit) :
    let r := feedAll cfg (fresh capacity) chunks
    (r.calls.map (fun c => (c.chunk, c.outSize)) = chunks.take r.calls.length ∧
      (r.error = none → r.calls.length = chunks.length)) ∧
    (∃ frames rest, Leading cfg.maxFrameBytes r.fed frames rest ∧ r.frames <+: frames.map view ∧
      (LeftRoom r → r.frames = frames.map view)) ∧
    (∀ otherCapacity otherChunks,
      let other := feedAll cfg (fresh otherCapacity) otherChunks
      other.fed = r.fed → LeftRoom r → LeftRoom other → other.frames = r.frames) ∧
    ∀ code, r.error = some code → ∃ chunk outSize, chunks[r.calls.length]? = some (chunk, outSize) ∧
      ((∃ frames bad, Leading cfg.maxFrameBytes (r.fed ++ chunk) frames bad ∧
          parseFrame cfg.maxFrameBytes bad = .error code ∧ r.frames <+: frames.map view) ∨
        code = .wireFrameTooLarge ∧
          capacity + (r.frames.flatMap FrameView.bytes).length < (r.fed ++ chunk).length) := by
  intro r
  obtain ⟨unread, hreads, -, hchunks, hend, hfail⟩ :=
    feedAll_reads hlimit chunks (wellFormed_fresh capacity) rfl
  have hstart : pendingSuffix (fresh capacity) ++ r.fed = r.fed := rfl
  rw [hstart] at hreads
  refine ⟨⟨hchunks, fun hnone => (hend hnone).1⟩, ?_, ?_, ?_⟩
  · obtain ⟨unread, hreads, hquiet⟩ := run_reads hlimit capacity chunks
    obtain ⟨frames, rest, hlead, hprefix, hall⟩ := leading_of_reads hlimit hreads
    exact ⟨frames, rest, hlead, hprefix, fun hleft => (hall (hquiet hleft)).1⟩
  · intro otherCapacity otherChunks other hfed hleft hleft'
    obtain ⟨rest, hmine, hquiet⟩ := run_reads hlimit capacity chunks
    obtain ⟨rest', htheirs, hquiet'⟩ := run_reads hlimit otherCapacity otherChunks
    rw [show (feedAll cfg (fresh otherCapacity) otherChunks).fed = r.fed from hfed] at htheirs
    exact (htheirs.unique hmine (hquiet' hleft') (hquiet hleft)).1
  intro code hcode
  obtain ⟨chunk, outSize, hchunk, hcase⟩ := hfail code hcode
  refine ⟨chunk, outSize, hchunk, hcase.imp ?_ ?_⟩
  · rintro ⟨es, bad, hmore, hbad⟩
    have hwhole := (hreads.extend chunk).trans hmore
    obtain ⟨frames, rest, hlead, hprefix, hall⟩ := leading_of_reads hlimit hwhole
    obtain ⟨heq, rfl⟩ := hall (strictStep_of_error hbad)
    exact ⟨frames, rest, hlead, hbad, (prefix_append _ es).trans hprefix⟩
  rintro ⟨hkind, hover⟩
  refine ⟨hkind, ?_⟩
  obtain ⟨frames, hframes, hsplit, -⟩ := frames_of_reads hlimit hreads
  have hsame : r.frames.flatMap FrameView.bytes = frames.flatMap WireFrame.bytes := by
    rw [show r.frames = frames.map view from hframes, flatMap_map]
    rfl
  have hlt : capacity < (unread ++ chunk).length := hover
  rw [hsame, hsplit, append_assoc, length_append]
  omega

def heartbeat : Bytes := fieldsOf ["8=FIX.4.4", "9=5", "35=0", "10=163"]

/-- A heartbeat and a bad byte in one chunk: the call fails and the heartbeat is lost. In
two chunks the heartbeat is returned. And of two heartbeats in one chunk a call with room
for one returns one. -/
theorem strict_frames_depend_on_cut : feedAll {} (fresh 64) [(heartbeat ++ ascii "x", 2)] =
        ⟨[], { carry := { capacity := 64 } }, some .wireFramingResync⟩ ∧
      (feedAll {} (fresh 64) [(heartbeat, 2), (ascii "x", 2)]).frames = [⟨heartbeat, 14, 5⟩] ∧
      (feedAll {} (fresh 64) [(heartbeat, 2), (ascii "x", 2)]).error = some .wireFramingResync ∧
      (feedAll {} (fresh 64) [(heartbeat ++ heartbeat, 1)]).frames = [⟨heartbeat, 14, 5⟩] := by
  decide +kernel

theorem strict_leading_frames_cut :
    let whole := feedAll {} (fresh 64) [(heartbeat ++ heartbeat, 3)]
    let cut := feedAll {} (fresh 64)
      [(heartbeat.take 9, 1), (heartbeat.drop 9 ++ heartbeat, 1), ([], 1), ([], 1)]
    cut.frames = whole.frames :=
  (strict_leading_frames {} 64 [(heartbeat ++ heartbeat, 3)] (by decide)).2.2.1 64
    [(heartbeat.take 9, 1), (heartbeat.drop 9 ++ heartbeat, 1), ([], 1), ([], 1)]
    (by decide +kernel) (by decide +kernel) (by decide +kernel)

end Fixpp.Analysis.StrictFraming
