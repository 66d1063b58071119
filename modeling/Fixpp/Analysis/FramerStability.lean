import Fixpp.Foundation.Incremental
import Fixpp.Model.Framer

/-!
# The resync framer as an incremental scanner

The candidate parser and the search for `8=FIX` never read past the point that decides: an answer
other than "not enough bytes" is the answer on every longer prefix. `resyncScanner` packages the
two as the scanner the framer runs.
-/

namespace Fixpp.Analysis.FramerStability

open Foundation Model Model.Framer List

/-! ## The header scans -/

/-- A header scan stops with a garble that skips one byte, an oversized length or
because the bytes ran out; it never yields a frame or a wrong CheckSum. -/
def PlainStop (why : Candidate) : Prop :=
  why = .incomplete ∨ why = .tooLarge ∨ ∃ kind, why = resyncGarble kind

/-- What a header scan makes of bytes: a value up to an SOH, or why it stopped. Either
stays what it is when more bytes follow, unless the bytes ran out. -/
structure Decides (scan : Bytes → HeaderScan) (Reads : Bytes → ℕ → ℕ → Prop) (b : Bytes) :
    Prop where
  found : ∀ {n v rest}, scan b = .found n v rest →
    (∃ value, b = value ++ soh :: rest ∧ Reads value n v) ∧
      ∀ more, scan (b ++ more) = .found n v (rest ++ more)
  stopped : ∀ {why}, scan b = .stopped why →
    PlainStop why ∧ (why ≠ .incomplete → ∀ more, scan (b ++ more) = .stopped why)

section Decides

variable {scan scan' : Bytes → HeaderScan} {Reads Reads' : Bytes → ℕ → ℕ → Prop} {x : UInt8}
    {b : Bytes} {n v : ℕ}

theorem Decides.of_found (h : ∀ more, scan (soh :: more) = .found n v more) (hreads : Reads [] n v) :
    Decides scan Reads (soh :: b) := by
  constructor
  · intro n' v' rest hfound
    rw [h] at hfound
    cases hfound
    exact ⟨⟨[], rfl, hreads⟩, fun more => h _⟩
  · intro why hstop
    rw [h] at hstop
    cases hstop

theorem Decides.of_stopped {why : Candidate} (hplain : PlainStop why)
    (h : ∀ more, scan (x :: more) = .stopped why) : Decides scan Reads (x :: b) := by
  constructor
  · intro n v rest hfound
    rw [h] at hfound
    cases hfound
  intro why hstop
  rw [h] at hstop
  cases hstop
  exact ⟨hplain, fun _ more => h _⟩

theorem Decides.cons (hscan : ∀ b, scan (x :: b) = scan' b)
    (hreads : ∀ value n v, Reads' value n v → Reads (x :: value) n v) (h : Decides scan' Reads' b) :
    Decides scan Reads (x :: b) := by
  constructor
  · intro n v rest hfound
    rw [hscan] at hfound
    obtain ⟨⟨value, rfl, hvalue⟩, hmore⟩ := h.found hfound
    exact ⟨⟨x :: value, rfl, hreads _ _ _ hvalue⟩, fun more => (hscan _).trans (hmore more)⟩
  intro why hstop
  rw [hscan] at hstop
  obtain ⟨hplain, hmore⟩ := h.stopped hstop
  exact ⟨hplain, fun hw more => (hscan _).trans (hmore hw more)⟩

end Decides

theorem scanBeginString_decides {cap : ℕ} (count : ℕ) (hcap : count ≤ cap) (b : Bytes) :
    Decides (scanBeginString cap count)
      (fun value n _ => (∀ x ∈ value, x ≠ soh) ∧ n = count + value.length ∧ n ≤ cap) b := by
  induction b generalizing count with
  | nil => exact ⟨nofun, fun h => by cases h; exact ⟨.inl rfl, fun hw => absurd rfl hw⟩⟩
  | cons x b ih =>
    by_cases hx : x = soh
    · subst hx
      exact Decides.of_found (n := count) (v := 0) (fun more => if_pos rfl) ⟨nofun, rfl, hcap⟩
    by_cases hlong : count = cap
    · apply Decides.of_stopped (.inr (.inr ⟨.wireFramingResync, rfl⟩))
      intro more
      rw [scanBeginString, if_neg hx, if_pos hlong]
    apply Decides.cons _ _ (ih (count + 1) (by omega))
    · intro b
      rw [scanBeginString, if_neg hx, if_neg hlong]
    rintro value n v ⟨hclean, hn, hle⟩
    rw [length_cons]
    exact ⟨forall_mem_cons.mpr ⟨hx, hclean⟩, by omega, hle⟩

/-- The BodyLength value is digits, no more of them than the cap, and what they spell is
within the limit. -/
theorem scanBodyLength_decides {limit : ℕ} (count value : ℕ) (hcap : count ≤ bodyLengthDigitCap)
    (hvalue : value ≤ limit) (b : Bytes) :
    Decides (scanBodyLength limit count value)
      (fun digits n v => (∀ d ∈ digits, isDigit d = true) ∧ n = count + digits.length ∧
        n ≤ bodyLengthDigitCap ∧ v = digits.foldl (fun v d => v * 10 + digitValue d) value ∧
        v ≤ limit) b := by
  induction b generalizing count value with
  | nil => exact ⟨nofun, fun h => by cases h; exact ⟨.inl rfl, fun hw => absurd rfl hw⟩⟩
  | cons x b ih =>
    by_cases hx : x = soh
    · subst hx
      exact Decides.of_found (n := count) (v := value) (fun more => if_pos rfl)
        ⟨nofun, rfl, hcap, rfl, hvalue⟩
    by_cases hdigit : isDigit x = false
    · apply Decides.of_stopped (.inr (.inr ⟨.wireInvalidBodyLength, rfl⟩))
      intro more
      rw [scanBodyLength, if_neg hx, if_pos hdigit]
    by_cases hlong : count = bodyLengthDigitCap
    · apply Decides.of_stopped (.inr (.inr ⟨.wireInvalidBodyLength, rfl⟩))
      intro more
      rw [scanBodyLength, if_neg hx, if_neg hdigit, if_pos hlong]
    by_cases hlarge : digitValue x > limit ∨ value > (limit - digitValue x) / 10
    · apply Decides.of_stopped (.inr (.inl rfl))
      intro more
      rw [scanBodyLength, if_neg hx, if_neg hdigit, if_neg hlong, if_pos hlarge]
    apply Decides.cons _ _ (ih (count + 1) (value * 10 + digitValue x) (by omega) (by omega))
    · intro b
      rw [scanBodyLength, if_neg hx, if_neg hdigit, if_neg hlong, if_neg hlarge]
    rintro digits n v ⟨hall, hn, hle, hv, hfits⟩
    rw [length_cons]
    exact ⟨forall_mem_cons.mpr ⟨by simpa using hdigit, hall⟩, by omega, hle, hv, hfits⟩

/-! ## The trailer -/

theorem byteAt_append (b more : Bytes) (i : ℕ) (h : i < b.length) :
    byteAt (b ++ more) i = byteAt b i := by
  unfold byteAt
  rw [getD_append _ _ _ _ h]

theorem checksumOf_append (b more : Bytes) (n : ℕ) (h : n ≤ b.length) :
    checksumOf (b ++ more) n = checksumOf b n := by
  unfold checksumOf
  rw [take_append_of_le_length h]

theorem checkTrailer_append (b more : Bytes) (bodyOff bodyLen : ℕ)
    (h : bodyOff + bodyLen + 7 ≤ b.length) :
    checkTrailer (b ++ more) bodyOff bodyLen = checkTrailer b bodyOff bodyLen := by
  have hb : ∀ i, i < b.length → byteAt (b ++ more) i = byteAt b i :=
    fun i hi => byteAt_append b more i hi
  unfold checkTrailer
  simp only
  rw [hb _ (by omega), hb _ (by omega), hb _ (by omega), hb _ (by omega), hb _ (by omega),
    hb _ (by omega), hb _ (by omega), hb _ (by omega), checksumOf_append _ _ _ (by omega)]

theorem checkTrailer_cases (b : Bytes) (bodyOff bodyLen : ℕ) :
    (∃ kind, checkTrailer b bodyOff bodyLen = resyncGarble kind) ∨ checkTrailer b bodyOff bodyLen =
        .garble .wireChecksumMismatch true (bodyOff + bodyLen + 7) ∨
      checkTrailer b bodyOff bodyLen = .frame (bodyOff + bodyLen + 7) bodyOff bodyLen := by
  unfold checkTrailer
  simp only
  split
  · exact .inl ⟨_, rfl⟩
  split
  · exact .inl ⟨_, rfl⟩
  split
  · exact .inl ⟨_, rfl⟩
  split
  · exact .inl ⟨_, rfl⟩
  split
  · exact .inr (.inl rfl)
  · exact .inr (.inr rfl)

variable (cfg : Config)

theorem frameExtent_append (b more : Bytes) (bodyOff bodyLen : ℕ)
    (h : frameExtent cfg b bodyOff bodyLen ≠ .incomplete) :
    frameExtent cfg (b ++ more) bodyOff bodyLen = frameExtent cfg b bodyOff bodyLen := by
  unfold frameExtent at h ⊢
  simp only [length_append] at h ⊢
  split
  · rfl
  rename_i hmax
  rw [if_neg hmax] at h
  split at h
  · exact absurd rfl h
  next hlen =>
  rw [if_neg (by omega), if_neg hlen]
  exact checkTrailer_append b more bodyOff bodyLen (by omega)

/-! ## The candidate parser -/

theorem parseBodyLength_append (b after more : Bytes) (beginLen : ℕ)
    (h : parseBodyLength cfg b beginLen after ≠ .incomplete) :
    parseBodyLength cfg (b ++ more) beginLen (after ++ more) =
      parseBodyLength cfg b beginLen after := by
  match after with
  | [] => exact absurd rfl h
  | [_] => exact absurd rfl h
  | tag :: eq :: rest =>
    simp only [cons_append, parseBodyLength] at h ⊢
    split
    · rfl
    rename_i htag
    rw [if_neg htag] at h
    have hdecides := scanBodyLength_decides 0 0 (Nat.zero_le _)
      (Nat.zero_le cfg.maxFrameBytes) rest
    cases hs : scanBodyLength cfg.maxFrameBytes 0 0 rest with
    | stopped why =>
      rw [hs] at h
      rw [(hdecides.stopped hs).2 h]
    | found count value rest' =>
      rw [hs] at h
      rw [(hdecides.found hs).2]
      simp only at h ⊢
      split
      · rfl
      next hz =>
      rw [if_neg hz] at h
      exact frameExtent_append cfg b more _ _ h

theorem parseResyncCandidate_append (b more : Bytes)
    (h : parseResyncCandidate cfg b ≠ .incomplete) :
    parseResyncCandidate cfg (b ++ more) = parseResyncCandidate cfg b := by
  match b with
  | [] => exact absurd rfl h
  | tag :: rest =>
    simp only [cons_append, parseResyncCandidate] at h ⊢
    split
    · rfl
    rename_i htag
    rw [if_neg htag] at h
    match rest with
    | [] => exact absurd rfl h
    | eq :: value =>
      simp only [cons_append] at h ⊢
      split
      · rfl
      rename_i heq
      rw [if_neg heq] at h
      have hdecides := scanBeginString_decides 0 (Nat.zero_le cfg.maxBeginStringBytes) value
      cases hs : scanBeginString cfg.maxBeginStringBytes 0 value with
      | stopped why =>
        rw [hs] at h
        rw [(hdecides.stopped hs).2 h]
      | found n v after =>
        rw [hs] at h
        rw [(hdecides.found hs).2]
        exact parseBodyLength_append cfg (tag :: eq :: value) after more n h

/-- What a decided candidate consumes: a frame or a wrong-CheckSum frame is
non-empty and lies in the buffer. -/
def WithinBuffer (b : Bytes) : Candidate → Prop
  | .frame frameLen _ _ => 0 < frameLen ∧ frameLen ≤ b.length
  | .garble _ throughEnd frameLen => throughEnd = true → 0 < frameLen ∧ frameLen ≤ b.length
  | .incomplete => True
  | .tooLarge => True

theorem PlainStop.withinBuffer {b : Bytes} {why : Candidate} (h : PlainStop why) :
    WithinBuffer b why := by
  rcases h with rfl | rfl | ⟨kind, rfl⟩
  · trivial
  · trivial
  · intro ht; cases ht

theorem frameExtent_withinBuffer (b : Bytes) (bodyOff bodyLen : ℕ) :
    WithinBuffer b (frameExtent cfg b bodyOff bodyLen) := by
  unfold frameExtent
  simp only
  split
  · trivial
  split
  · trivial
  rcases checkTrailer_cases b bodyOff bodyLen with ⟨kind, h⟩ | h | h <;> rw [h]
  · intro ht; cases ht
  · intro _; omega
  · exact ⟨by omega, by omega⟩

theorem parseBodyLength_withinBuffer (b after : Bytes) (beginLen : ℕ) :
    WithinBuffer b (parseBodyLength cfg b beginLen after) := by
  match after with
  | [] => trivial
  | [_] => trivial
  | tag :: eq :: rest =>
    simp only [parseBodyLength]
    split
    · intro ht; cases ht
    have hdecides := scanBodyLength_decides 0 0 (Nat.zero_le _)
      (Nat.zero_le cfg.maxFrameBytes) rest
    cases hs : scanBodyLength cfg.maxFrameBytes 0 0 rest with
    | stopped why => exact (hdecides.stopped hs).1.withinBuffer
    | found count value rest' =>
      simp only
      split
      · intro ht; cases ht
      · exact frameExtent_withinBuffer cfg b _ _

theorem parseResyncCandidate_withinBuffer (b : Bytes) :
    WithinBuffer b (parseResyncCandidate cfg b) := by
  match b with
  | [] => trivial
  | tag :: rest =>
    simp only [parseResyncCandidate]
    split
    · intro ht; cases ht
    match rest with
    | [] => trivial
    | eq :: value =>
      simp only
      split
      · intro ht; cases ht
      have hdecides := scanBeginString_decides 0 (Nat.zero_le cfg.maxBeginStringBytes) value
      cases hs : scanBeginString cfg.maxBeginStringBytes 0 value with
      | stopped why => exact (hdecides.stopped hs).1.withinBuffer
      | found n v after => exact parseBodyLength_withinBuffer cfg _ after n

theorem length_pos_of_decided (b : Bytes)
    (h : parseResyncCandidate cfg b ≠ .incomplete) : 0 < b.length := by
  cases b with
  | nil => exact absurd rfl h
  | cons x xs => simp

/-! ## The search for `8=FIX` -/

theorem matchPattern_append (p b more : Bytes) (h : matchPattern p b ≠ .runsOut) :
    matchPattern p (b ++ more) = matchPattern p b := by
  induction p generalizing b with
  | nil => simp [matchPattern]
  | cons x xs ih =>
    cases b with
    | nil => exact absurd rfl h
    | cons y ys =>
      simp only [cons_append, matchPattern] at h ⊢
      split
      next hy => rw [if_pos hy] at h; exact ih ys h
      · rfl

/-! ## The scanner -/

/-- What one step of the framer puts out. -/
inductive Event
  | frame (f : FrameView)
  | discard (n : ℕ)

def framesOf : List Event → List FrameView
  | [] => []
  | .frame f :: es => f :: framesOf es
  | .discard _ :: es => framesOf es

def discardedOf : List Event → ℕ
  | [] => 0
  | .frame _ :: es => discardedOf es
  | .discard n :: es => n + discardedOf es

@[simp] theorem framesOf_append (es fs : List Event) :
    framesOf (es ++ fs) = framesOf es ++ framesOf fs := by
  induction es with
  | nil => rfl
  | cons e es ih => cases e <;> simp [framesOf, ih]

@[simp] theorem discardedOf_append (es fs : List Event) :
    discardedOf (es ++ fs) = discardedOf es + discardedOf fs := by
  induction es with
  | nil => simp [discardedOf]
  | cons e es ih => cases e <;> simp [discardedOf, ih, Nat.add_assoc]

@[simp] theorem framesOf_map_frame (fs : List FrameView) : framesOf (fs.map .frame) = fs := by
  induction fs with
  | nil => rfl
  | cons f fs ih => simp [framesOf, ih]

@[simp] theorem discardedOf_map_frame (fs : List FrameView) : discardedOf (fs.map .frame) = 0 := by
  induction fs with
  | nil => rfl
  | cons f fs ih => simp [discardedOf, ih]

/-- Events without a frame at the start of a list that discards and then puts out frames
are among those that discard. -/
theorem discards_first {o os ds : List Event} {fs : List FrameView} (ho : framesOf o = [])
    (hds : framesOf ds = []) (h : o ++ os = ds ++ fs.map .frame) :
    ∃ ds', ds = o ++ ds' ∧ os = ds' ++ fs.map .frame ∧ framesOf ds' = [] := by
  rcases append_eq_append_iff.mp h with ⟨ds', rfl, hos⟩ | ⟨c', rfl, hos⟩
  · rw [framesOf_append, append_eq_nil_iff] at hds
    exact ⟨ds', rfl, hos, hds.2⟩
  rw [framesOf_append, hds, nil_append] at ho
  cases c' with
  | nil => exact ⟨[], by rw [append_nil, append_nil], hos.symm, rfl⟩
  | cons e c' =>
    cases fs with
    | nil => cases hos
    | cons f fs =>
      obtain ⟨rfl, -⟩ := cons.inj hos
      cases ho

/-- One step on the unread bytes. While searching, a byte that cannot begin
`8=FIX` is discarded; at a frame start, the candidate is resolved. -/
def resyncStep (cfg : Config) : Bool → Bytes → Option (Bool × ℕ × List Event)
  | true, b =>
    match matchPattern resyncStart b with
    | .whole => some (false, 0, [])
    | .runsOut => none
    | .differs => some (true, 1, [.discard 1])
  | false, b =>
    match parseResyncCandidate cfg b with
    | .incomplete => none
    | .tooLarge => none
    | .frame frameLen bodyOff bodyLen =>
      some (false, frameLen, [.frame ⟨b.take frameLen, bodyOff, bodyLen⟩])
    | .garble _ throughEnd frameLen =>
      let skip := if throughEnd then frameLen else 1
      some (true, skip, [.discard skip])

theorem resyncStep_bounded (s : Bool) (b : Bytes) (s' : Bool) (n : ℕ)
    (o : List Event) (h : resyncStep cfg s b = some (s', n, o)) : n ≤ b.length := by
  cases s with
  | true =>
    simp only [resyncStep] at h
    split at h
    · cases h; exact Nat.zero_le _
    · cases h
    next hm =>
    cases h
    cases b with
    | nil => simp [resyncStart, matchPattern] at hm
    | cons x xs => simp
  | false =>
    have hw := parseResyncCandidate_withinBuffer cfg b
    have hpos := length_pos_of_decided cfg b
    simp only [resyncStep] at h
    split at h
    · cases h
    · cases h
    next hp => cases h; rw [hp] at hw; exact hw.2
    next kind throughEnd frameLen hp =>
    cases h
    rw [hp] at hw hpos
    cases throughEnd with
    | true => simpa using (hw rfl).2
    | false =>
      have h := hpos (by simp)
      simp only [Bool.false_eq_true, if_false]
      omega

theorem resyncStep_stable (s : Bool) (b : Bytes) (r : Bool × ℕ × List Event) (more : Bytes)
    (h : resyncStep cfg s b = some r) : resyncStep cfg s (b ++ more) = some r := by
  cases s with
  | true =>
    have hm : matchPattern resyncStart b ≠ .runsOut := by
      intro hm; simp [resyncStep, hm] at h
    simpa only [resyncStep, matchPattern_append _ _ more hm] using h
  | false =>
    have hp : parseResyncCandidate cfg b ≠ .incomplete := by
      intro hp; simp [resyncStep, hp] at h
    have hw := parseResyncCandidate_withinBuffer cfg b
    simp only [resyncStep, parseResyncCandidate_append cfg b more hp] at h ⊢
    split at h
    · cases h
    · cases h
    next hf =>
      rw [hf] at hw
      rw [take_append_of_le_length hw.2]
      exact h
    · exact h

/-- The framer as a scanner; its state is whether a garbled region is open. -/
def resyncScanner (cfg : Config) : Scanner Bool UInt8 Event where
  step := resyncStep cfg
  bounded := resyncStep_bounded cfg
  stable := fun s b r c h => resyncStep_stable cfg s b r c h

end Fixpp.Analysis.FramerStability
