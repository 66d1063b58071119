import Fixpp.Model.Session

/-!
# The inbound protocol

What an inbound half of a FIX session is for, in terms of the events of a run: a number is taken
up when it is the expected one, a message is delivered right after its number was taken up, a
gap is asked for once, and it is given up only when it is filled, when a SequenceReset jumps, or
with its connection. `Ledger` is the bookkeeping of such a protocol and `inboundProtocol` says
which event may come next.
-/

namespace Fixpp.Interface

open Foundation Model

variable {g b x : ℕ}

/-- The bookkeeping of the protocol: the expected number, the number taken up and not yet delivered,
the open gap, the number a ResendRequest on this connection asked from, whether a SequenceReset
jumped since the gap was opened, and whether no connection was installed over an open gap. -/
structure Ledger where
  expected : ℕ
  taken : Option ℕ := none
  gap : Option (ℕ × ℕ) := none
  requested : Option ℕ := none
  jumped : Bool := false
  clean : Bool := true
  deriving DecidableEq, Repr

/-- What a protocol asks for beyond the bookkeeping: with `inOrder`, a message is
delivered only right after its number was taken up, and only a number that is
`due`; with `gated`, a frame is passed over only behind a request; with `unbroken`,
a connection is installed only where no gap is open. -/
structure Rules where
  inOrder : Bool
  gated : Bool
  unbroken : Bool := false
  due : ℕ → Prop := fun _ => True

namespace Ledger

def next (l : Ledger) : Event → Ledger
  | .takeUp n => { l with expected := n + 1, taken := some n }
  | .jump n => { l with expected := n, jumped := true }
  | .inboundReset n => { l with expected := n, taken := none, requested := none }
  | .fromApp _ => { l with taken := none }
  | .connected => { l with requested := none, clean := l.clean && l.gap.isNone }
  | .enterAwaitingResend b g => { l with gap := some (b, g), requested := none, jumped := false }
  | .exitAwaitingResend _ => { l with gap := none, requested := none }
  | .sent (.resendRequest b _ _) => { l with requested := some b }
  | _ => l

def Allows (rules : Rules) (l : Ledger) : Event → Prop
  | .takeUp n => n = l.expected
  | .jump n => l.expected < n
  | .connected => rules.unbroken = true → l.gap = none
  | .fromApp n => rules.inOrder = true → l.taken = some n ∧ rules.due n
  | .enterAwaitingResend b g => l.gap = none ∧ b = l.expected ∧ b ≤ g
  | .exitAwaitingResend x =>
    x = l.expected ∧ ∃ b g, l.gap = some (b, g) ∧ (g < x ∨ l.jumped = true)
  | .sent (.resendRequest b _ g) =>
    l.gap = some (b, g) ∧ l.requested = none ∧ l.jumped = false
  | .passedOver n x =>
    x = l.expected ∧ x < n ∧ (rules.gated = true → l.clean = true →
        ∃ b g, l.gap = some (b, g) ∧ l.requested = some b ∧ b ≤ x ∧ x ≤ g)
  | _ => True

end Ledger

/-- The inbound protocol as an observer of the log. -/
def inboundProtocol (rules : Rules) : Monitor Event Ledger where
  next := Ledger.next
  allows := Ledger.Allows rules

def Event.isInboundReset : Event → Bool
  | .inboundReset _ => true
  | _ => false

def Event.startsAfresh : Event → Bool
  | .inboundReset _ => true
  | .connected => true
  | _ => false

/-- The event ends a request: the counter or the connection starts afresh, or the
gap is filled, given up or replaced. -/
def Event.endsRequest : Event → Bool
  | .inboundReset _ => true
  | .connected => true
  | .enterAwaitingResend _ _ => true
  | .exitAwaitingResend _ => true
  | _ => false

def Event.isJump : Event → Bool
  | .jump _ => true
  | _ => false

section Runs

variable {rules : Rules}

@[simp] theorem inboundProtocol_next (l : Ledger) (e : Event) :
    (inboundProtocol rules).next l e = l.next e := rfl

@[simp] theorem inboundProtocol_allows (l : Ledger) (e : Event) :
    (inboundProtocol rules).allows l e = l.Allows rules e := rfl

attribute [local simp] Ledger.next

/-! ## Delivery -/

/-- Everything up to `n` is behind: later numbers are taken up and delivered above
`n`. -/
def Behind (n : ℕ) (l : Ledger) : Prop := n < l.expected ∧ ∀ k, l.taken = some k → n < k

variable {n : ℕ} {l : Ledger} {e : Event} {mid rest events : List Event}

/-- Step lemma: no event but a reset brings a number back. -/
theorem behind_next (hl : Behind n l) (he : Event.isInboundReset e = false)
    (hallow : l.Allows rules e) : Behind n (l.next e) := by
  obtain ⟨hexp, htaken⟩ := hl
  cases e with
  | takeUp k =>
    have hk : k = l.expected := hallow
    refine ⟨by simp only [Ledger.next]; omega, ?_⟩
    intro j hj
    simp only [Ledger.next, Option.some.injEq] at hj
    omega
  | jump k =>
    have hk : l.expected < k := hallow
    exact ⟨by simp only [Ledger.next]; omega, htaken⟩
  | inboundReset k => simp [Event.isInboundReset] at he
  | fromApp k => exact ⟨hexp, by simp⟩
  | sent reply => cases reply <;> exact ⟨hexp, htaken⟩
  | _ => exact ⟨hexp, htaken⟩

section

variable (hrules : rules.inOrder = true)
include hrules

/-- Run lemma: with delivery in order, of two deliveries with no reset between
them the later one has the larger number. -/
theorem fromApp_increasing {m : ℕ}
    (hacc : (inboundProtocol rules).Accepts l (.fromApp m :: mid ++ .fromApp n :: rest))
    (hinv : ∀ k, l.taken = some k → k < l.expected)
    (hmid : ∀ e ∈ mid, Event.isInboundReset e = false) : m < n := by
  rw [List.cons_append, Monitor.accepts_cons, Monitor.accepts_append] at hacc
  obtain ⟨hfirst, hmidacc, hlast, -⟩ := hacc
  have hm : l.taken = some m := (hfirst hrules).1
  have hstart : Behind m (l.next (.fromApp m)) := ⟨hinv m hm, by simp⟩
  have hend := (inboundProtocol rules).run_preserves
    (fun l e hl he hallow => behind_next hl he hallow) mid _ hstart hmidacc hmid
  exact hend.2 n (hlast hrules).1

theorem due_of_fromApp (hacc : (inboundProtocol rules).Accepts l events)
    (hmem : Event.fromApp n ∈ events) : rules.due n := by
  induction events generalizing l with
  | nil => simp at hmem
  | cons e rest ih =>
    obtain ⟨hfirst, hrest⟩ := hacc
    obtain rfl | hmem := List.mem_cons.mp hmem
    · exact (hfirst hrules).2
    · exact ih hrest hmem

theorem takeUp_of_fromApp (hacc : (inboundProtocol rules).Accepts l events)
    (hmem : Event.fromApp n ∈ events) : l.taken = some n ∨ Event.takeUp n ∈ events := by
  induction events generalizing l with
  | nil => simp at hmem
  | cons e rest ih =>
    obtain ⟨hfirst, hrest⟩ := hacc
    obtain rfl | hmem := List.mem_cons.mp hmem
    · exact .inl (hfirst hrules).1
    obtain htaken | hlater := ih hrest hmem
    swap
    · exact .inr (List.mem_cons_of_mem _ hlater)
    -- the number came into hand by this event, or was there before
    cases e with
    | takeUp k =>
      have hk : some k = some n := htaken
      cases hk
      exact .inr (List.mem_cons_self ..)
    | inboundReset k => simp at htaken
    | fromApp k => simp at htaken
    | sent reply => cases reply <;> exact .inl htaken
    | _ => exact .inl htaken

end

theorem taken_lt_next (hl : ∀ k, l.taken = some k → k < l.expected) (hallow : l.Allows rules e) :
    ∀ k, (l.next e).taken = some k → k < (l.next e).expected := by
  intro k hk
  cases e with
  | takeUp n =>
    simp only [Ledger.next, Option.some.injEq] at hk
    simp only [Ledger.next]
    omega
  | jump n =>
    have hn : l.expected < n := hallow
    have := hl k hk
    simp only [Ledger.next]
    omega
  | inboundReset n => simp at hk
  | fromApp n => simp at hk
  | sent reply => cases reply <;> exact hl k hk
  | _ => exact hl k hk

theorem taken_lt_run (hl : ∀ k, l.taken = some k → k < l.expected)
    (hacc : (inboundProtocol rules).Accepts l events) :
    ∀ k, ((inboundProtocol rules).run l events).taken = some k →
      k < ((inboundProtocol rules).run l events).expected := by
  refine (inboundProtocol rules).run_preserves (A := fun _ => True)
    (fun l e hl _ hallow => taken_lt_next hl hallow) events l hl hacc ?_
  intro e _
  trivial

/-! ## Gaps -/

/-- A gap up to `g` is open and asked for, or the expected number is beyond it. -/
def AskedOrFilled (g : ℕ) (l : Ledger) : Prop :=
  (∃ b, l.gap = some (b, g) ∧ l.requested ≠ none ∧ l.jumped = false) ∨
    (g < l.expected ∧ ∀ b g', l.gap = some (b, g') → g < b)

/-- Step lemma: as long as nothing starts afresh and no SequenceReset jumps, a gap
that was asked for stays so until it is filled. -/
theorem askedOrFilled_next (hl : AskedOrFilled g l) (hfresh : Event.startsAfresh e = false)
    (hjump : Event.isJump e = false) (hallow : l.Allows rules e) : AskedOrFilled g (l.next e) := by
  cases e with
  | takeUp n =>
    have hn : n = l.expected := hallow
    obtain h | ⟨hexp, hgap⟩ := hl
    · exact .inl h
    · exact .inr ⟨by simp only [Ledger.next]; omega, hgap⟩
  | jump n => simp [Event.isJump] at hjump
  | inboundReset n => simp [Event.startsAfresh] at hfresh
  | connected => simp [Event.startsAfresh] at hfresh
  | enterAwaitingResend b g' =>
    obtain ⟨hnone, hb, -⟩ := hallow
    obtain ⟨b', hgap, -⟩ | ⟨hexp, -⟩ := hl
    · rw [hnone] at hgap
      cases hgap
    refine .inr ⟨hexp, ?_⟩
    intro b' g'' heq
    simp only [Ledger.next, Option.some.injEq, Prod.mk.injEq] at heq
    omega
  | exitAwaitingResend x =>
    obtain ⟨hx, b, g', hgap, hend⟩ := hallow
    refine .inr ⟨?_, by simp⟩
    obtain ⟨b', hgap', -, hjumped⟩ | ⟨hexp, -⟩ := hl
    · rw [hgap] at hgap'
      cases hgap'
      simp only [Ledger.next, hjumped, Bool.false_eq_true, or_false] at hend ⊢
      omega
    · exact hexp
  | sent reply =>
    cases reply with
    | resendRequest b e' g' =>
      obtain ⟨hgap, hnone, -⟩ := hallow
      obtain ⟨b', -, hsome, -⟩ | h := hl
      · exact absurd hnone hsome
      · exact .inr h
    | _ => exact hl
  | _ => exact hl

/-- Run lemma: after a ResendRequest for a gap up to `g`, as long as nothing starts
afresh and no SequenceReset jumps, the gap stays asked for until it is filled. -/
theorem askedOrFilled_run {e : ℕ}
    (hacc : (inboundProtocol rules).Accepts l (.sent (.resendRequest b e g) :: mid))
    (hmid : ∀ e ∈ mid, Event.startsAfresh e = false ∧ Event.isJump e = false) :
    AskedOrFilled g
      ((inboundProtocol rules).run l (.sent (.resendRequest b e g) :: mid)) := by
  obtain ⟨⟨hgap, -, hjumped⟩, hrest⟩ := hacc
  have hstart : AskedOrFilled g (l.next (.sent (.resendRequest b e g))) :=
    .inl ⟨b, hgap, by simp, hjumped⟩
  refine (inboundProtocol rules).run_preserves
    (fun l e hl he hallow => askedOrFilled_next hl he.1 he.2 hallow) mid _ hstart hrest hmid

/-- Behind a ResendRequest for a gap up to `g`, as long as nothing starts afresh and
no SequenceReset jumps, AwaitingResend ends only beyond `g`. -/
theorem exit_beyond {e : ℕ} (hacc : (inboundProtocol rules).Accepts l
      (.sent (.resendRequest b e g) :: mid ++ .exitAwaitingResend x :: rest))
    (hmid : ∀ e ∈ mid, Event.startsAfresh e = false ∧ Event.isJump e = false) : g < x := by
  rw [Monitor.accepts_append] at hacc
  obtain ⟨hbefore, ⟨hx, b', g', hgap, hend⟩, -⟩ := hacc
  obtain ⟨b'', hgap', -, hjumped⟩ | ⟨hexp, -⟩ := askedOrFilled_run hbefore hmid
  · rw [hgap] at hgap'
    cases hgap'
    rw [hjumped] at hend
    simpa using hend
  · omega

theorem request_beyond {e b' e' g' : ℕ} (hacc : (inboundProtocol rules).Accepts l
      (.sent (.resendRequest b e g) :: mid ++ .sent (.resendRequest b' e' g') :: rest))
    (hmid : ∀ e ∈ mid, Event.startsAfresh e = false ∧ Event.isJump e = false) : g < b' := by
  rw [Monitor.accepts_append] at hacc
  obtain ⟨hbefore, ⟨hgap, hnone, -⟩, -⟩ := hacc
  obtain ⟨b'', -, hasked, -⟩ | ⟨-, hopen⟩ := askedOrFilled_run hbefore hmid
  · exact absurd hnone hasked
  · exact hopen b' g' hgap

/-! ## Requests -/

/-- Where a connection is installed only with no gap open, the books stay clean. -/
theorem clean_run (hrules : rules.unbroken = true) (hl : l.clean = true)
    (hacc : (inboundProtocol rules).Accepts l events) :
    ((inboundProtocol rules).run l events).clean = true := by
  refine (inboundProtocol rules).run_preserves (I := fun l => l.clean = true)
    (A := fun _ => True) ?_ events l hl hacc fun _ _ => trivial
  intro l e hl _ hallow
  cases e with
  | connected =>
    have hnone : l.gap = none := hallow hrules
    simp [hl, hnone]
  | sent reply => cases reply <;> exact hl
  | _ => exact hl

/-- A request on the books was made in front of them or is in the log, with nothing
behind it that ends it and the gap it asked for still open. -/
theorem request_in_log (hacc : (inboundProtocol rules).Accepts l events)
    (hreq : ((inboundProtocol rules).run l events).requested = some b) :
    (l.requested = some b ∧ (∀ e ∈ events, Event.endsRequest e = false) ∧
      ((inboundProtocol rules).run l events).gap = l.gap) ∨
    ∃ first e g mid, events = first ++ .sent (.resendRequest b e g) :: mid ∧
      (∀ e ∈ mid, Event.endsRequest e = false) ∧
      ((inboundProtocol rules).run l events).gap = some (b, g) := by
  induction events generalizing l with
  | nil => exact .inl ⟨hreq, by simp, rfl⟩
  | cons ev rest ih =>
    obtain ⟨hfirst, hrest⟩ := hacc
    obtain ⟨hreq', hkeep, hgap⟩ | ⟨first, e, g, mid, rfl, hkeep, hgap⟩ := ih hrest hreq
    swap
    · exact .inr ⟨ev :: first, e, g, mid, rfl, hkeep, hgap⟩
    -- nothing in the rest touched the request: it is this event's or older
    have hold : Event.endsRequest ev = false → (l.next ev).gap = l.gap →
        l.requested = some b → l.requested = some b ∧
          (∀ e ∈ ev :: rest, Event.endsRequest e = false) ∧
          ((inboundProtocol rules).run l (ev :: rest)).gap = l.gap := fun hev hg hr =>
      ⟨hr, List.forall_mem_cons.mpr ⟨hev, hkeep⟩, hgap.trans hg⟩
    cases ev with
    | inboundReset n => simp at hreq'
    | connected => simp at hreq'
    | enterAwaitingResend b' g' => simp at hreq'
    | exitAwaitingResend x => simp at hreq'
    | sent reply =>
      cases reply with
      | resendRequest b' e' g' =>
        have hb : some b' = some b := hreq'
        cases hb
        exact .inr ⟨[], e', g', rest, rfl, hkeep, hgap.trans hfirst.1⟩
      | _ => exact .inl (hold rfl rfl hreq')
    | _ => exact .inl (hold rfl rfl hreq')

/-- Run lemma: where connections are installed only with no gap open, a frame is
passed over only behind a request that is not satisfied. -/
theorem passedOver_asked {first : List Event} (hgated : rules.gated = true)
    (hunbroken : rules.unbroken = true) (hclean : l.clean = true) (hnone : l.requested = none)
    (hacc : (inboundProtocol rules).Accepts l (first ++ .passedOver n x :: rest)) :
    ∃ before b e g mid, first = before ++ .sent (.resendRequest b e g) :: mid ∧
      (∀ e ∈ mid, Event.endsRequest e = false) ∧ b ≤ x ∧ x ≤ g := by
  rw [Monitor.accepts_append] at hacc
  obtain ⟨hfirst, ⟨-, -, hasked⟩, -⟩ := hacc
  obtain ⟨b, g, hgap, hreq, hb, hg⟩ := hasked hgated (clean_run hunbroken hclean hfirst)
  obtain ⟨hr, -⟩ | ⟨before, e, g', mid, hsplit, hkeep, hgap'⟩ := request_in_log hfirst hreq
  · rw [hnone] at hr
    cases hr
  rw [hgap] at hgap'
  cases hgap'
  exact ⟨before, b, e, g, mid, hsplit, hkeep, hb, hg⟩

end Runs

end Fixpp.Interface
