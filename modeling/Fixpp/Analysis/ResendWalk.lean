import Fixpp.Interface.ResendAnswer

/-!
# The resend walk

What `build_replay_frame` keeps of a stored frame, what may happen to the store while the walk
waits, and the invariant of the walk: before each number the answer stands at the start of the
open gap, or at the number itself, and its last frame is not a GapFill.
-/

namespace Fixpp.Analysis.ResendWalk

open Foundation Model Interface
open Foundation.Traced (Triple Evolves Does)

variable {tag k : ℕ} {sendingTime stored stamp : Bytes} {possdup fields : List Field}
  {hooks : DictHooks} {s : Session} {t : Progress} {T : Progress → Prop} {φ : Prop}
  {next : Handler ReplayResult}

/-! ## Resent frames -/

def CarriesNumber (hooks : DictHooks) (n : ℕ) (frame : Bytes) : Prop :=
  ∀ fields, storedFields hooks frame.length {} frame = .ok fields → Numbered n fields

instance (hooks : DictHooks) (n : ℕ) (frame : Bytes) : Decidable (CarriesNumber hooks n frame) :=
  match h : storedFields hooks frame.length {} frame with
  | .ok fields => decidable_of_iff (Numbered n fields)
      ⟨fun hn fields' h' => Except.ok.inj (h.symm.trans h') ▸ hn, fun hc => hc fields h⟩
  | .error e => isTrue fun fields h' => by rw [h] at h'; cases h'

/-- The fields a session may resend for `n`: the stored frame of that number is an
application message, rebuilt. -/
def Resends (cfg : SessionConfig) (held : ℕ → Option Bytes) (n : ℕ) (fields : List Field) : Prop :=
  ∃ frame stamp, held n = some frame ∧ appPresent cfg frame = true ∧
    buildReplayFrame cfg.hooks frame stamp = .ok fields

theorem valuesOf_replayFields_copied (hkept : tag ∉ replayDroppedTags) (hstamp : tag ≠ 52)
    (hdup : valuesOf tag possdup = []) :
    ∀ (inserted : Bool) (fields : List Field),
      valuesOf tag (replayFields sendingTime possdup inserted fields) = valuesOf tag fields := by
  intro inserted fields
  induction fields generalizing inserted with
  | nil => cases inserted <;> simp [replayFields, hdup]
  | cons f rest ih =>
    obtain ⟨t, value⟩ := f
    unfold replayFields
    by_cases hdrop : t ∈ replayDroppedTags
    · have hne : t ≠ tag := by
        rintro rfl
        exact hkept hdrop
      simp [hdrop, hne, ih]
    rw [if_neg hdrop]
    have hhead : valuesOf tag [(t, if t = 52 then sendingTime else value)] =
        valuesOf tag [(t, value)] := by
      by_cases heq : t = tag
      · subst heq
        simp [hstamp]
      · simp [heq]
    by_cases hfirst : inserted = false ∧ t ∉ replayHeaderTags
    · rw [if_pos hfirst, valuesOf_append, hdup, List.nil_append,
        ← List.singleton_append, valuesOf_append, hhead, ih, ← valuesOf_append]
      rfl
    · rw [if_neg hfirst, ← List.singleton_append, valuesOf_append, hhead, ih, ← valuesOf_append]
      rfl

theorem valuesOf_replayFields_dropped (hdropped : tag ∈ replayDroppedTags) :
    ∀ (inserted : Bool) (fields : List Field),
      valuesOf tag (replayFields sendingTime possdup inserted fields) =
        if inserted then [] else valuesOf tag possdup := by
  intro inserted fields
  induction fields generalizing inserted with
  | nil => cases inserted <;> simp [replayFields]
  | cons f rest ih =>
    obtain ⟨t, value⟩ := f
    unfold replayFields
    by_cases hdrop : t ∈ replayDroppedTags
    · simp [hdrop, ih]
    have hne : t ≠ tag := by
      rintro rfl
      exact hdrop hdropped
    by_cases hfirst : inserted = false ∧ t ∉ replayHeaderTags
    · simp [hdrop, hfirst, hne, ih]
    · simp [hdrop, hfirst, hne, ih]

theorem buildReplayFrame_ok (h : buildReplayFrame hooks stored stamp = .ok fields) :
    ∃ original sendingTime old, storedFields hooks stored.length {} stored = .ok old ∧
      fields = replayFields sendingTime (possdupFields sendingTime original) false old := by
  unfold buildReplayFrame at h
  split at h
  · cases h
  rename_i original _
  dsimp only at h
  generalize (if stamp = [] then original.getD [] else stamp) = sendingTime at h
  by_cases hempty : sendingTime = []
  · rw [if_pos hempty] at h
    cases h
  rw [if_neg hempty] at h
  split at h
  · cases h
  rename_i old hold
  split at h
  · cases h
  cases h
  exact ⟨original, sendingTime, old, hold, rfl⟩

theorem numbered_of_resends {cfg : SessionConfig} {held : ℕ → Option Bytes}
    (hcarries : ∀ n frame, held n = some frame → CarriesNumber cfg.hooks n frame) (n : ℕ)
    (fields : List Field) (h : Resends cfg held n fields) : Numbered n fields := by
  obtain ⟨frame, stamp, hheld, -, hbuilt⟩ := h
  obtain ⟨original, sendingTime, old, hold, rfl⟩ := buildReplayFrame_ok hbuilt
  have hcopied : valuesOf 34 (replayFields sendingTime (possdupFields sendingTime original)
      false old) = valuesOf 34 old := by
    apply valuesOf_replayFields_copied (by decide) (by decide)
    cases original <;> simp [possdupFields]
  unfold Numbered
  rw [hcopied]
  exact hcarries n frame hheld old hold

theorem possDup_of_build (h : buildReplayFrame hooks stored stamp = .ok fields) :
    valuesOf 43 fields = [ascii "Y"] := by
  obtain ⟨original, sendingTime, old, -, rfl⟩ := buildReplayFrame_ok h
  rw [valuesOf_replayFields_dropped (by decide)]
  cases original <;> simp [possdupFields]

/-! ## Waiting -/

def heldBy (s : Session) (k : ℕ) : Option Bytes := s.store.bind (MessageStore.retrieve · k)

theorem mem_frames_of_heldBy {frame : Bytes} (h : heldBy s k = some frame) :
    ∃ st, s.store = some st ∧ (k, frame) ∈ st.frames := by
  obtain ⟨st, hst, hfound⟩ := Option.bind_eq_some_iff.mp h
  obtain ⟨entry, hentry, rfl⟩ := Option.map_eq_some_iff.mp hfound
  have hkey : entry.1 = k := by simpa using List.find?_some hentry
  exact ⟨st, hst, hkey ▸ List.mem_of_find?_eq_some hentry⟩

/-- While the walk waits the answer stays where it is and the store may lose
frames. -/
def Waits (p q : Progress × Session) : Prop :=
  q.1 = p.1 ∧ ∀ k frame, heldBy q.2 k = some frame → heldBy p.2 k = some frame

theorem Waits.refl (p : Progress × Session) : Waits p p := ⟨rfl, fun _ _ h => h⟩

theorem Waits.trans (p q r : Progress × Session) (hpq : Waits p q) (hqr : Waits q r) : Waits p r :=
  ⟨hqr.1.trans hpq.1, fun k frame h => hpq.2 k frame (hqr.2 k frame h)⟩

theorem Waits.of_store {s' : Session} (h : s'.store = s.store) : Waits (t, s) (t, s') :=
  ⟨rfl, fun k frame hk => by simpa [heldBy, h] using hk⟩

section Steps

variable {replays : ℕ → List Field → Prop} {stop : ℕ} {α β : Type} {f : Answer → Handler β}

theorem does_recordStateTransition (st : FsmState) :
    Does (resendOrder replays stop) Waits (recordStateTransition st) :=
  .act (fun _ => trivial) fun _ _ => .of_store rfl

theorem waits_teardownReset (t : Progress) (s : Session) (stored : Bool) :
    Waits (t, s) (t, { s with
      seqnums := s.seqnums.resetToOne
      teardownResetDone := true
      store := s.store.map fun st =>
        if stored then st.resetTo seqnumMin seqnumMin Nat.one_pos else st }) := by
  refine ⟨rfl, fun k frame hk => ?_⟩
  cases hstore : s.store with
  | none => simp [heldBy, hstore] at hk
  | some st =>
    cases stored with
    | false => simpa [heldBy, hstore] using hk
    | true => simp [heldBy, hstore, MessageStore.resetTo, MessageStore.retrieve] at hk

theorem does_perform (a : EnvAct) : Does (resendOrder replays stop) Waits a.perform := by
  have hmodify : ∀ {f : Session → Session}, (∀ s, (f s).store = s.store) →
      Does (resendOrder replays stop) Waits (.modify f : Handler Unit) := fun hf =>
    .modify fun _ s => .of_store (hf s)
  cases a with
  | disconnect => exact does_recordStateTransition .disconnected
  | beginClose => exact hmodify fun s => by split <;> rfl
  | logoutSent =>
    refine .bind Waits.trans (.get Waits.refl) fun s => ?_
    split
    · exact does_recordStateTransition .logoutSent
    · exact .pure Waits.refl ()
  | teardownReset stored =>
    refine .bind Waits.trans (.get Waits.refl) fun s => ?_
    split
    · exact .act (fun _ => trivial) fun t s => waits_teardownReset t s stored
    · exact .pure Waits.refl ()
  | drain => exact hmodify fun s => by split <;> rfl
  | engineStop => exact hmodify fun _ => rfl
  | testRequest id => exact hmodify fun s => by split <;> rfl
  | outbound next => exact hmodify fun _ => rfl
  | observe =>
    refine .bind Waits.trans (.get Waits.refl) fun s => ?_
    exact .act (fun _ => trivial) fun _ _ => .refl _

theorem does_meanwhile : ∀ acts, Does (resendOrder replays stop) Waits (meanwhile acts)
  | [] => .pure Waits.refl ()
  | a :: rest => .bind Waits.trans (does_perform a) fun _ => does_meanwhile rest

theorem does_suspend : Does (resendOrder replays stop) Waits suspend :=
  .bind Waits.trans (.ask Waits.refl) fun a =>
    .bind Waits.trans (does_meanwhile a.meanwhile) fun _ =>
      .pure Waits.refl a

def Within (held : ℕ → Option Bytes) (s : Session) : Prop :=
  ∀ k frame, heldBy s k = some frame → held k = some frame

theorem triple_suspend {held : ℕ → Option Bytes} {Q : β → Progress → Session → Prop}
    (hf : ∀ a, Triple (resendOrder replays stop) (fun t s => T t ∧ Within held s) (f a) Q
      fun _ _ => True) :
    Triple (resendOrder replays stop) (fun t s => T t ∧ Within held s) (suspend >>= f) Q
      fun _ _ => True := by
  have hwait : Triple (resendOrder replays stop) (fun t s => T t ∧ Within held s) suspend
      (fun _ t s => T t ∧ Within held s) fun t s => T t ∧ Within held s := by
    refine does_suspend.triple ?_
    rintro t s t' s' ⟨rfl, hstore⟩ ⟨hT, hheld⟩
    exact ⟨hT, fun k frame hk => hheld k frame (hstore k frame hk)⟩
  exact .bind (hwait.conseq (fun _ _ h => h) (fun _ _ _ h => h) fun _ _ _ => trivial) hf

end Steps

/-! ## The walk -/

section Walk

variable {cfg : SessionConfig} {held : ℕ → Option Bytes} {stop : ℕ} {arm : Option FsmState}

/-- The answer has accounted for the numbers below `pos`. -/
def Stands (held : ℕ → Option Bytes) (pos : ℕ) (t : Progress) (s : Session) : Prop :=
  t.pos = pos ∧ Within held s

/-- The same, and the last frame of the answer is not a GapFill. -/
def Open (held : ℕ → Option Bytes) (pos : ℕ) (t : Progress) (s : Session) : Prop :=
  (t.pos = pos ∧ t.afterGap = false) ∧ Within held s

theorem Open.stands {pos : ℕ} (h : Open held pos t s) : Stands held pos t s := ⟨h.1.1, h.2⟩

/-- The observer of a walk up to `stop` over the frames `held` at its start. -/
abbrev walkOrder (cfg : SessionConfig) (held : ℕ → Option Bytes) (stop : ℕ) :
    Monitor Event Progress :=
  resendOrder (Resends cfg held) stop

/-- When the walk completes, the answer stands at `stop`. -/
def Completes (held : ℕ → Option Bytes) (stop : ℕ) (r : ReplayResult) (t : Progress)
    (s : Session) : Prop := r = .ok .completed → Stands held stop t s

theorem triple_transmit {reply : Reply}
    (hallow : ∀ t, T t → (walkOrder cfg held stop).allows t (.sent reply)) :
    Triple (walkOrder cfg held stop) (fun t s => T t ∧ Within held s) (transmit reply)
      (fun r t s => ∀ u, r = .ok u →
        (∃ t₀, T t₀ ∧ t = (walkOrder cfg held stop).next t₀ (.sent reply)) ∧ Within held s)
      fun _ _ => True := by
  refine triple_suspend fun a => ?_
  split
  · refine .bind (Q := fun _ t s =>
      (∃ t₀, T t₀ ∧ t = (walkOrder cfg held stop).next t₀ (.sent reply)) ∧ Within held s)
      (.act (fun t s h => hallow t h.1) fun t s h => ⟨⟨t, h.1, rfl⟩, h.2⟩) ?_
    exact fun _ => .pure _ fun t s h u _ => h
  · exact .pure _ fun t s h u hu => by cases hu

theorem triple_emitGapfill {start : ℕ} (hlt : start < k) (hk : k ≤ stop) :
    Triple (walkOrder cfg held stop) (Open held start) (emitGapfill cfg arm start k)
      (Completes held k) fun _ _ => True := by
  refine .get fun s₀ => ?_
  have hdrop : ∀ {x : Handler ReplayResult} {Q : ReplayResult → Progress → Session → Prop},
      Triple (walkOrder cfg held stop) (Open held start) x Q (fun _ _ => True) →
      Triple (walkOrder cfg held stop) (fun t s => s = s₀ ∧ Open held start t s) x Q
        fun _ _ => True := fun h =>
    h.conseq (fun _ _ hs => hs.2) (fun _ _ _ hq => hq) fun _ _ _ => trivial
  have hstop : ∀ {r : ReplayResult}, r ≠ .ok .completed →
      Triple (walkOrder cfg held stop) (Open held start) (pure r : Handler ReplayResult)
        (Completes held k) fun _ _ => True := fun hne =>
    .pure _ fun _ _ _ heq => absurd heq hne
  apply hdrop
  split
  · exact hstop (by simp)
  refine .ask fun a => ?_
  split
  · exact hstop (by simp)
  have hpassed : Triple (walkOrder cfg held stop) (Open held start) (fireToAdmin cfg)
      (fun _ => Open held start) fun _ _ => True := by
    unfold fireToAdmin
    split
    · exact .ask fun _ => .pure _ fun _ _ h => h
    · exact .pure _ fun _ _ h => h
  refine .bind hpassed fun passed => ?_
  split
  · exact hstop (by simp)
  have hallow : ∀ t : Progress, t.pos = start ∧ t.afterGap = false →
      (walkOrder cfg held stop).allows t (.sent (.gapFill start k)) :=
    fun t ht => ⟨ht.1.symm, hlt, hk, ht.2⟩
  refine .bind (triple_transmit hallow) fun r => ?_
  cases r with
  | error e => exact .pure _ fun _ _ _ heq => by cases heq
  | ok u =>
    refine .pure _ fun t s h _ => ?_
    obtain ⟨⟨t₀, -, rfl⟩, hheld⟩ := h u rfl
    exact ⟨rfl, hheld⟩

theorem triple_retrieveSlot (k : ℕ) :
    Triple (walkOrder cfg held stop) (fun t s => T t ∧ Within held s) (retrieveSlot k)
      (fun slot t s => (T t ∧ Within held s) ∧ ∀ frame, slot = .stored frame → held k = some frame)
      fun _ _ => True := by
  refine triple_suspend fun a => Triple.get fun s₀ => ?_
  cases a.store with
  | cancelled => exact Triple.throw _ fun _ _ _ => trivial
  | threw => exact Triple.throw _ fun _ _ _ => trivial
  | failed e =>
    dsimp only
    split <;> exact Triple.pure _ fun _ _ h => ⟨h.2, fun _ hf => by cases hf⟩
  | done =>
    cases hslot : s₀.store.bind (MessageStore.retrieve · k) with
    | none => exact Triple.pure _ fun _ _ h => ⟨h.2, fun _ hf => by cases hf⟩
    | some frame =>
      dsimp only
      split
      · exact Triple.pure _ fun _ _ h => ⟨h.2, fun _ hf => by cases hf⟩
      refine Triple.pure _ fun t s h => ⟨h.2, fun frame' hf => ?_⟩
      cases hf
      obtain ⟨rfl, -, hheld⟩ := h
      exact hheld k frame hslot

theorem triple_replayOf {P : Progress → Session → Prop} {slot : Slot}
    (hslot : ∀ frame, slot = .stored frame → held k = some frame) :
    Triple (walkOrder cfg held stop) P (replayOf cfg slot)
      (fun resend t s => P t s ∧ ∀ fields, resend = .frame fields → Resends cfg held k fields)
      fun _ _ => True := by
  have hnothing : ∀ {r : Resend}, (∀ fields, r ≠ .frame fields) →
      Triple (walkOrder cfg held stop) P (pure r : Handler Resend)
        (fun resend t s => P t s ∧ ∀ fields, resend = .frame fields → Resends cfg held k fields)
        fun _ _ => True := fun hne =>
    .pure _ fun _ _ h => ⟨h, fun fields hf => absurd hf (hne fields)⟩
  cases slot with
  | absent => exact hnothing (by simp)
  | unreadable e => exact hnothing (by simp)
  | stored frame =>
    unfold replayOf
    dsimp only
    split
    next happ =>
      have hstamp : Triple (walkOrder cfg held stop) P (resendStamp cfg) (fun _ => P)
          fun _ _ => True := by
        unfold resendStamp
        split
        · exact .ask fun _ => .pure _ fun _ _ h => h
        · exact .pure _ fun _ _ h => h
      refine .bind hstamp fun stamp => ?_
      cases hbuilt : buildReplayFrame cfg.hooks frame stamp with
      | error e => exact hnothing (by simp)
      | ok fields =>
        refine .pure _ fun t s h => ⟨h, fun fields' hf => ?_⟩
        cases hf
        exact ⟨frame, stamp, hslot frame rfl, happ, hbuilt⟩
    · exact hnothing (by simp)

theorem triple_closeGap {gap : Option ℕ} (hgap : ∀ g, gap = some g → g < k) (hk : k ≤ stop)
    (hnext : Triple (walkOrder cfg held stop) (Stands held k) next (Completes held stop)
      fun _ _ => True) :
    Triple (walkOrder cfg held stop) (Open held (gap.getD k)) (closeGap cfg arm gap k next)
      (Completes held stop) fun _ _ => True := by
  cases gap with
  | none => exact hnext.conseq (fun _ _ h => h.stands) (fun _ _ _ h => h) fun _ _ _ => trivial
  | some start =>
    refine .bind (triple_emitGapfill (hgap start rfl) hk) fun g => ?_
    match g with
    | .ok .completed =>
      exact hnext.conseq (fun _ _ h => h rfl) (fun _ _ _ h => h) fun _ _ _ => trivial
    | .ok .superseded => exact .pure _ fun _ _ _ heq => by cases heq
    | .error e => exact .pure _ fun _ _ _ heq => by cases heq

theorem triple_resend (hresend : Resends cfg held k fields)
    (hnext : Triple (walkOrder cfg held stop) (Open held (k + 1)) next (Completes held stop)
      fun _ _ => True) :
    Triple (walkOrder cfg held stop) (Stands held k)
      (do
        let s ← Traced.get
        if arm.any s.logonArmSuperseded then pure (.ok .superseded)
        else do
          let r ← transmit (.replay fields)
          match r with
          | .error _ => pure (.error .dispatchAborted)
          | .ok _ => next)
      (Completes held stop) fun _ _ => True := by
  refine .get fun s₀ => ?_
  refine .pre ?_ fun _ _ h => h.2
  split
  · exact .pure _ fun _ _ _ heq => by cases heq
  have hallow : ∀ t : Progress, t.pos = k →
      (walkOrder cfg held stop).allows t (.sent (.replay fields)) := by
    rintro t rfl
    exact hresend
  refine .bind (triple_transmit hallow) fun r => ?_
  cases r with
  | error e => exact .pure _ fun _ _ _ heq => by cases heq
  | ok u =>
    refine hnext.pre fun t s h => ?_
    obtain ⟨⟨t₀, rfl, rfl⟩, hheld⟩ := h u rfl
    exact ⟨⟨rfl, rfl⟩, hheld⟩

/-- The walk over `count` numbers from `k`, with the numbers from the start of the
open gap still to be accounted for, ends behind the last of them. -/
theorem triple_replayWalk (count : ℕ) :
    ∀ (k : ℕ) (gap : Option ℕ), (∀ g, gap = some g → g < k) → k + count = stop →
      Triple (walkOrder cfg held stop) (Open held (gap.getD k)) (replayWalk cfg arm count k gap)
        (Completes held stop) fun _ _ => True := by
  induction count with
  | zero =>
    rintro k gap hgap rfl
    exact triple_closeGap hgap (Nat.le_refl _) (.pure _ fun _ _ h _ => h)
  | succ count ih =>
    intro k gap hgap hstop
    have hnext : k + 1 + count = stop := by omega
    -- a number that is not resent joins the open gap, or opens one
    have hjoin : Triple (walkOrder cfg held stop) (Open held (gap.getD k))
        (replayWalk cfg arm count (k + 1) (some (gap.getD k))) (Completes held stop)
        fun _ _ => True := by
      refine ih (k + 1) (some (gap.getD k)) (fun g hg => ?_) hnext
      cases hg
      cases gap with
      | none => exact Nat.lt_succ_self k
      | some g => exact Nat.lt_succ_of_lt (hgap g rfl)
    refine .bind (triple_retrieveSlot k) fun slot =>
      .assume fun hslot => ?_
    cases slot with
    | unreadable e => exact .pure _ fun _ _ _ heq => by cases heq
    | absent | stored =>
      refine .bind (triple_replayOf hslot) fun resend =>
        .assume fun hresend => .get fun s₀ => ?_
      refine .pre ?_ fun _ _ h => h.2
      cases resend with
      | skip => exact hjoin
      | unbuildable =>
        dsimp only
        split
        · exact .pure _ fun _ _ _ heq => by cases heq
        · exact hjoin
      | frame fields =>
        refine triple_closeGap hgap (by omega) (triple_resend (hresend fields rfl) ?_)
        exact ih (k + 1) none (fun g hg => by cases hg) hnext

end Walk

/-! ## The outbound counter

The answer is sent without assigning numbers: the counter moves only when another
coroutine moves it while the answer waits. -/

def movesCounter : EnvAct → Bool
  | .outbound _ => true
  | .teardownReset _ => true
  | _ => false

/-- The counter is kept unless an answer lets another coroutine move it. -/
def KeepsCounter (w w' : World Session Event Answer) : Prop :=
  (∀ a ∈ w'.answers, a ∈ w.answers) ∧
    ((∀ a ∈ w.answers, ∀ act ∈ a.meanwhile, movesCounter act = false) →
      w'.state.seqnums.nextOutbound = w.state.seqnums.nextOutbound)

theorem KeepsCounter.refl (w : World Session Event Answer) : KeepsCounter w w :=
  ⟨fun _ h => h, fun _ => rfl⟩

theorem KeepsCounter.trans (w w' w'' : World Session Event Answer) (h : KeepsCounter w w')
    (h' : KeepsCounter w' w'') : KeepsCounter w w'' :=
  ⟨fun a ha => h.1 a (h'.1 a ha), fun hacts =>
    (h'.2 fun a ha => hacts a (h.1 a ha)).trans (h.2 hacts)⟩

section Counter

variable {cfg : SessionConfig} {arm : Option FsmState} {α β : Type} {f : Answer → Handler β}

/-- Acts of other coroutines use up no answer, and keep the counter under `φ`. -/
def Settles (φ : Prop) (w w' : World Session Event Answer) : Prop :=
  w'.answers = w.answers ∧ (φ → w'.state.seqnums.nextOutbound = w.state.seqnums.nextOutbound)

theorem Settles.refl (φ : Prop) (w : World Session Event Answer) : Settles φ w w :=
  ⟨rfl, fun _ => rfl⟩

theorem Settles.trans (φ : Prop) (w w' w'' : World Session Event Answer) (h : Settles φ w w')
    (h' : Settles φ w' w'') : Settles φ w w'' :=
  ⟨h'.1.trans h.1, fun hφ => (h'.2 hφ).trans (h.2 hφ)⟩

theorem evolves_perform (act : EnvAct) (h : φ → movesCounter act = false) :
    Evolves (Settles φ) act.perform := by
  cases act with
  | disconnect => exact fun _ => ⟨rfl, fun _ => rfl⟩
  | beginClose | drain | testRequest =>
    refine fun w => ⟨rfl, fun _ => ?_⟩
    simp only [EnvAct.perform, Traced.modify]
    split <;> rfl
  | logoutSent =>
    refine Evolves.get fun s => ?_
    split
    · exact fun _ => ⟨rfl, fun _ => rfl⟩
    · exact Evolves.pure (Settles.refl φ) ()
  | teardownReset stored =>
    refine Evolves.get fun s => ?_
    split
    · exact fun _ => ⟨rfl, fun hφ => by cases h hφ⟩
    · exact Evolves.pure (Settles.refl φ) ()
  | engineStop => exact fun _ => ⟨rfl, fun _ => rfl⟩
  | outbound next => exact fun _ => ⟨rfl, fun hφ => by cases h hφ⟩
  | observe => exact fun _ => ⟨rfl, fun _ => rfl⟩

theorem evolves_meanwhile (acts : List EnvAct) (h : φ → ∀ act ∈ acts, movesCounter act = false) :
    Evolves (Settles φ) (meanwhile acts) := by
  induction acts with
  | nil => exact .pure (.refl φ) ()
  | cons act rest ih =>
    refine .bind (.trans φ) (evolves_perform act ?_) fun _ => ih ?_
    · exact fun hφ => h hφ act (by simp)
    · exact fun hφ x hx => h hφ x (by simp [hx])

theorem evolves_ask (hf : ∀ a, Evolves KeepsCounter (f a)) :
    Evolves KeepsCounter (Traced.ask >>= f) := by
  refine .bind KeepsCounter.trans (fun w => ?_) hf
  unfold Traced.ask
  split
  · exact .refl w
  next a rest hw =>
    exact ⟨fun b hb => by rw [hw]; exact List.mem_cons_of_mem a hb, fun _ => rfl⟩

theorem evolves_suspend (hf : ∀ a, Evolves KeepsCounter (f a)) :
    Evolves KeepsCounter (suspend >>= f) := by
  refine .bind KeepsCounter.trans (fun w => ?_) hf
  have hwait : ∀ (a : Answer) {φ : Prop}, (φ → ∀ act ∈ a.meanwhile, movesCounter act = false) →
      Evolves (Settles φ) (meanwhile a.meanwhile >>= fun _ => pure a : Handler Answer) :=
    fun a φ h => .bind (.trans φ) (evolves_meanwhile a.meanwhile h) fun _ =>
      .pure (.refl φ) a
  obtain ⟨s, log, answers⟩ := w
  cases answers with
  | nil =>
    have hkept := hwait default (φ := True) (fun _ act hact => by cases hact) ⟨s, log, []⟩
    exact ⟨fun b hb => hkept.1 ▸ hb, fun _ => hkept.2 trivial⟩
  | cons a rest =>
    have hkept := hwait a (φ := ∀ act ∈ a.meanwhile, movesCounter act = false) id ⟨s, log, rest⟩
    have hleft : (suspend ⟨s, log, a :: rest⟩).2.answers = rest := hkept.1
    refine ⟨fun b hb => List.mem_cons_of_mem a (by rwa [hleft] at hb), fun hacts => ?_⟩
    exact hkept.2 (hacts a (by simp))

theorem evolves_transmit (reply : Reply) : Evolves KeepsCounter (transmit reply) := by
  refine evolves_suspend fun a => ?_
  split
  · exact fun w => ⟨fun _ h => h, fun _ => rfl⟩
  · exact .pure KeepsCounter.refl _

theorem evolves_emitGapfill (start k : ℕ) : Evolves KeepsCounter (emitGapfill cfg arm start k) := by
  have hend : ∀ r : ReplayResult, Evolves KeepsCounter (pure r : Handler ReplayResult) :=
    .pure KeepsCounter.refl
  refine .get fun s => ?_
  split
  · exact hend _
  refine evolves_ask fun a => ?_
  split
  · exact hend _
  have hpassed : Evolves KeepsCounter (fireToAdmin cfg) := by
    unfold fireToAdmin
    split
    · exact evolves_ask fun a => .pure KeepsCounter.refl _
    · exact .pure KeepsCounter.refl _
  refine .bind KeepsCounter.trans hpassed fun passed => ?_
  split
  · exact hend _
  refine .bind KeepsCounter.trans (evolves_transmit _) fun r => ?_
  cases r <;> exact hend _

theorem evolves_retrieveSlot (k : ℕ) : Evolves KeepsCounter (retrieveSlot k) := by
  refine evolves_suspend fun a => .get fun s => ?_
  cases a.store with
  | cancelled | threw => exact .throw KeepsCounter.refl _
  | failed e => dsimp only; split <;> exact .pure KeepsCounter.refl _
  | done =>
    cases s.store.bind (MessageStore.retrieve · k) with
    | none => exact Evolves.pure KeepsCounter.refl _
    | some frame => dsimp only; split <;> exact Evolves.pure KeepsCounter.refl _

theorem evolves_replayOf (slot : Slot) : Evolves KeepsCounter (replayOf cfg slot) := by
  have hpure : ∀ r : Resend, Evolves KeepsCounter (pure r : Handler Resend) :=
    .pure KeepsCounter.refl
  cases slot with
  | absent | unreadable => exact hpure _
  | stored frame =>
    unfold replayOf
    dsimp only
    split
    · have hstamp : Evolves KeepsCounter (resendStamp cfg) := by
        unfold resendStamp
        split
        · exact evolves_ask fun a => .pure KeepsCounter.refl _
        · exact .pure KeepsCounter.refl _
      refine .bind KeepsCounter.trans hstamp fun stamp => ?_
      cases buildReplayFrame cfg.hooks frame stamp <;> exact hpure _
    · exact hpure _

theorem evolves_closeGap (gap : Option ℕ) (k : ℕ) (hnext : Evolves KeepsCounter next) :
    Evolves KeepsCounter (closeGap cfg arm gap k next) := by
  cases gap with
  | none => exact hnext
  | some start =>
    refine .bind KeepsCounter.trans (evolves_emitGapfill start k) fun g => ?_
    match g with
    | .ok .completed => exact hnext
    | .ok .superseded => exact .pure KeepsCounter.refl _
    | .error e => exact .pure KeepsCounter.refl _

theorem evolves_replayWalk (count : ℕ) :
    ∀ k gap, Evolves KeepsCounter (replayWalk cfg arm count k gap) := by
  have hend : ∀ r : ReplayResult, Evolves KeepsCounter (pure r : Handler ReplayResult) :=
    .pure KeepsCounter.refl
  induction count with
  | zero => exact fun k gap => evolves_closeGap gap k (hend _)
  | succ count ih =>
    intro k gap
    refine .bind KeepsCounter.trans (evolves_retrieveSlot k) fun slot => ?_
    cases slot with
    | unreadable e => exact hend _
    | absent | stored =>
      refine .bind KeepsCounter.trans (evolves_replayOf _) fun resend =>
        .get fun s => ?_
      cases resend with
      | skip => exact ih _ _
      | unbuildable =>
        dsimp only
        split
        · exact hend _
        · exact ih _ _
      | frame fields =>
        refine evolves_closeGap gap k (.get fun s' => ?_)
        split
        · exact hend _
        refine .bind KeepsCounter.trans (evolves_transmit _) fun r => ?_
        cases r with
        | error e => exact hend _
        | ok u => exact ih _ _

end Counter

end Fixpp.Analysis.ResendWalk
