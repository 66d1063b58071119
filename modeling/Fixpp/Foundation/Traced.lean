import Mathlib

/-!
# Programs that leave a trace

A traced program runs on a state, writes events to a log and reads the answers
of its environment one after the other; it ends with a value or an exception.
A `Monitor` follows the log and says which event may come next. Two kinds of
specification are proved of a program:

* `Does M R x`: whatever the world, `x` writes a log `M` accepts and relates the
  monitor and the state before and after by `R`. For a preorder `R` this is closed
  under sequencing and needs no precondition.
* `Triple M P x Q E`: from `P`, `x` ends in `Q` (or, by an exception, in `E`).

Both speak about every answer the environment can give.
-/

namespace Fixpp.Foundation

/-- What a traced program runs in. -/
structure World (σ ε ι : Type) where
  state : σ
  log : List ε
  answers : List ι

/-- A program over a state `σ`, with events `ε`, answers `ι` and exceptions `χ`. -/
def Traced (σ ε ι χ α : Type) : Type := World σ ε ι → Except χ α × World σ ε ι

namespace Traced

variable {σ ε ι χ α β : Type}

instance : Monad (Traced σ ε ι χ) where
  pure a := fun w => (.ok a, w)
  bind x f := fun w =>
    match x w with
    | (.ok a, w') => f a w'
    | (.error e, w') => (.error e, w')

def get : Traced σ ε ι χ σ := fun w => (.ok w.state, w)

def modify (f : σ → σ) : Traced σ ε ι χ Unit :=
  fun w => (.ok (), { w with state := f w.state })

/-- Change the state and log the event that stands for the change. -/
def act (f : σ → σ) (e : ε) : Traced σ ε ι χ Unit :=
  fun w => (.ok (), { w with state := f w.state, log := w.log ++ [e] })

/-- The next answer of the environment; once the given answers are used up, the
default one. -/
def ask [Inhabited ι] : Traced σ ε ι χ ι := fun w =>
  match w.answers with
  | [] => (.ok default, w)
  | a :: rest => (.ok a, { w with answers := rest })

def throw (e : χ) : Traced σ ε ι χ α := fun w => (.error e, w)

/-- Run `x` and continue with `handler` when it left by an exception. -/
def catching (x : Traced σ ε ι χ α) (handler : χ → Traced σ ε ι χ α) : Traced σ ε ι χ α :=
  fun w =>
    match x w with
    | (.ok a, w') => (.ok a, w')
    | (.error e, w') => handler e w'

theorem bind_apply (x : Traced σ ε ι χ α) (f : α → Traced σ ε ι χ β) (w : World σ ε ι) :
    (x >>= f) w = match x w with
      | (.ok a, w') => f a w'
      | (.error e, w') => (.error e, w') := rfl

variable {x : Traced σ ε ι χ α} {f : α → Traced σ ε ι χ β} {w w' : World σ ε ι}

theorem bind_ok {a : α} (h : x w = (.ok a, w')) :
    (x >>= f) w = f a w' := by
  rw [bind_apply, h]

theorem bind_error {e : χ} (h : x w = (.error e, w')) :
    (x >>= f) w = (.error e, w') := by
  rw [bind_apply, h]

/-- Run a program from a state and a list of answers: its result, the state it
leaves and the events it logged. -/
def runFrom (x : Traced σ ε ι χ α) (s : σ) (answers : List ι) : Except χ α × σ × List ε :=
  let r := x { state := s, log := [], answers := answers }
  (r.1, r.2.state, r.2.log)

theorem runFrom_eq_iff {s s' : σ} {answers : List ι} {r : Except χ α} {log : List ε} :
    x.runFrom s answers = (r, s', log) ↔ ∃ rest, x { state := s, log := [], answers := answers } =
        (r, { state := s', log := log, answers := rest }) := by
  unfold runFrom
  rcases x { state := s, log := [], answers := answers } with ⟨r₀, s₀, log₀, rest₀⟩
  simp

end Traced

/-- An observer of the log: how an event moves it, and which events it allows. -/
structure Monitor (ε μ : Type) where
  next : μ → ε → μ
  allows : μ → ε → Prop

namespace Monitor

variable {ε μ : Type} (M : Monitor ε μ)

/-- The observer after a list of events. -/
def run (m : μ) (events : List ε) : μ := events.foldl M.next m

/-- The observer that allows everything: a specification under it is about the
state alone. -/
def free (ε : Type) : Monitor ε Unit where
  next _ _ := ()
  allows _ _ := True

/-- Every event of the list is allowed where it stands. -/
def Accepts : μ → List ε → Prop
  | _, [] => True
  | m, e :: rest => M.allows m e ∧ Accepts (M.next m e) rest

@[simp] theorem run_nil (m : μ) : M.run m [] = m := rfl

@[simp] theorem run_cons (m : μ) (e : ε) (rest : List ε) :
    M.run m (e :: rest) = M.run (M.next m e) rest := rfl

@[simp] theorem run_append (m : μ) (first rest : List ε) :
    M.run m (first ++ rest) = M.run (M.run m first) rest := by
  simp [run]

@[simp] theorem accepts_nil (m : μ) : M.Accepts m [] := trivial

@[simp] theorem accepts_cons (m : μ) (e : ε) (rest : List ε) :
    M.Accepts m (e :: rest) ↔ M.allows m e ∧ M.Accepts (M.next m e) rest := .rfl

theorem accepts_append (m : μ) (first rest : List ε) :
    M.Accepts m (first ++ rest) ↔ M.Accepts m first ∧ M.Accepts (M.run m first) rest := by
  induction first generalizing m with
  | nil => simp
  | cons e first ih => simp [ih, and_assoc]

/-- An observer without memory allows an event wherever it stands. -/
theorem allows_of_mem {N : Monitor ε Unit} {events : List ε} (h : N.Accepts () events) {e : ε}
    (he : e ∈ events) : N.allows () e := by
  induction events with
  | nil => cases he
  | cons head rest ih =>
    obtain rfl | he := List.mem_cons.mp he
    · exact h.1
    · exact ih h.2 he

/-- A property of the observer that every allowed event out of `A` keeps holds
after an accepted list of such events. -/
theorem run_preserves {I : μ → Prop} {A : ε → Prop}
    (hstep : ∀ m e, I m → A e → M.allows m e → I (M.next m e)) :
    ∀ (events : List ε) (m : μ), I m → M.Accepts m events → (∀ e ∈ events, A e) → I (M.run m events)
  | [], _, hm, _, _ => hm
  | e :: rest, m, hm, hacc, hA => by
    have hnext : I (M.next m e) := hstep m e hm (hA e (by simp)) hacc.1
    exact run_preserves hstep rest _ hnext hacc.2 fun e' he' => hA e' (by simp [he'])

end Monitor

namespace Traced

variable {σ ε ι χ α β μ : Type} {M : Monitor ε μ}

/-- What `x` logs and leaves behind from the world `w`, for an observer at `m`. -/
def Leaves (M : Monitor ε μ) (x : Traced σ ε ι χ α) (m : μ) (w : World σ ε ι)
    (post : Except χ α → μ → σ → Prop) : Prop :=
  ∃ events, (x w).2.log = w.log ++ events ∧ M.Accepts m events ∧
    post (x w).1 (M.run m events) (x w).2.state

/-- Whatever the world, `x` keeps the log acceptable and moves the observer and
the state along `R`. -/
def Does (M : Monitor ε μ) (R : μ × σ → μ × σ → Prop) (x : Traced σ ε ι χ α) : Prop :=
  ∀ m w, Leaves M x m w fun _ m' s' => R (m, w.state) (m', s')

/-- From `P`, `x` returns in `Q` or throws in `E`. -/
def Triple (M : Monitor ε μ) (P : μ → σ → Prop) (x : Traced σ ε ι χ α)
    (Q : α → μ → σ → Prop) (E : μ → σ → Prop) : Prop :=
  ∀ m w, P m w.state → Leaves M x m w fun
    | .ok a, m', s' => Q a m' s'
    | .error _, m', s' => E m' s'

/-- `P` holds of the observer and the state, `Φ` of the answers to come. -/
def given (Φ : List ι → Prop) (P : μ → σ → Prop) (m : μ) (w : World σ ε ι) : Prop :=
  P m w.state ∧ Φ w.answers

/-- The triple of a world: the assertions also speak about the answers to come. -/
def Spec (M : Monitor ε μ) (P : μ → World σ ε ι → Prop) (x : Traced σ ε ι χ α)
    (Q : α → μ → World σ ε ι → Prop) (E : μ → σ → Prop) : Prop :=
  ∀ m w, P m w → ∃ events, (x w).2.log = w.log ++ events ∧ M.Accepts m events ∧
    match (x w).1 with
    | .ok a => Q a (M.run m events) (x w).2
    | .error _ => E (M.run m events) (x w).2.state

/-! ## Sequencing -/

theorem Spec.bind {P : μ → World σ ε ι → Prop} {x : Traced σ ε ι χ α} {f : α → Traced σ ε ι χ β}
    {Q : α → μ → World σ ε ι → Prop} {Q' : β → μ → World σ ε ι → Prop} {E : μ → σ → Prop}
    (hx : Spec M P x Q E) (hf : ∀ a, Spec M (Q a) (f a) Q' E) : Spec M P (x >>= f) Q' E := by
  intro m w hP
  obtain ⟨events, hlog, hacc, hmid⟩ := hx m w hP
  rw [bind_apply]
  rcases hxw : x w with ⟨_ | a, w'⟩
  · rw [hxw] at hlog hmid
    exact ⟨events, hlog, hacc, hmid⟩
  rw [hxw] at hlog hmid
  obtain ⟨events', hlog', hacc', hpost⟩ := hf a _ w' hmid
  refine ⟨events ++ events', ?_, (M.accepts_append _ _ _).mpr ⟨hacc, hacc'⟩, ?_⟩
  · rw [hlog', hlog, List.append_assoc]
  · simpa using hpost

variable {x y : Traced σ ε ι χ α} {P E : μ → σ → Prop} {Q : α → μ → σ → Prop} {Φ : List ι → Prop}
  {w : World σ ε ι} {f : σ → σ} {e : ε} {φ c : Prop} {handler : χ → Traced σ ε ι χ α}

/-- What is known of the result and the state may be used on the way to another claim. -/
theorem Leaves.mono {m : μ} {post post' : Except χ α → μ → σ → Prop} (h : Leaves M x m w post)
    (himp : ∀ m', post (x w).1 m' (x w).2.state → post' (x w).1 m' (x w).2.state) :
    Leaves M x m w post' := by
  obtain ⟨events, hlog, hacc, hpost⟩ := h
  exact ⟨events, hlog, hacc, himp _ hpost⟩

theorem Triple.spec (h : Triple M P x Q E) :
    Spec M (given Φ P) x (fun a m w => Q a m w.state) E := by
  rintro m w ⟨hP, -⟩
  obtain ⟨events, hlog, hacc, hpost⟩ := h m w hP
  refine ⟨events, hlog, hacc, ?_⟩
  cases hr : (x w).1 <;> rw [hr] at hpost <;> exact hpost

theorem Spec.triple (h : Spec M (given (fun _ => True) P) x (fun a m w => Q a m w.state) E) :
    Triple M P x Q E := by
  intro m w hP
  obtain ⟨events, hlog, hacc, hpost⟩ := h m w ⟨hP, trivial⟩
  refine ⟨events, hlog, hacc, ?_⟩
  cases hr : (x w).1 <;> rw [hr] at hpost <;> exact hpost

theorem Triple.bind {f : α → Traced σ ε ι χ β} {Q' : β → μ → σ → Prop} (hx : Triple M P x Q E)
    (hf : ∀ a, Triple M (Q a) (f a) Q' E) : Triple M P (x >>= f) Q' E :=
  (hx.spec.bind fun a m w hQ => (hf a).spec (Φ := fun _ => True) m w ⟨hQ, trivial⟩).triple

theorem Triple.accepts_runFrom (h : Triple M P x Q E) {m : μ} {s : σ} (hP : P m s)
    (answers : List ι) : M.Accepts m (x.runFrom s answers).2.2 := by
  obtain ⟨events, hlog, hacc, -⟩ := h m { state := s, log := [], answers := answers } hP
  have hevents : (x.runFrom s answers).2.2 = events := hlog.trans (List.nil_append _)
  rwa [hevents]

variable {E' : μ → σ → Prop}

theorem Triple.conseq {P' : μ → σ → Prop} {Q' : α → μ → σ → Prop} (h : Triple M P x Q E)
    (hP : ∀ m s, P' m s → P m s) (hQ : ∀ a m s, Q a m s → Q' a m s) (hE : ∀ m s, E m s → E' m s) :
    Triple M P' x Q' E' := by
  intro m w hP'
  refine (h m w (hP m _ hP')).mono fun m' => ?_
  cases (x w).1 with
  | ok a => exact hQ a m' _
  | error e => exact hE m' _

theorem Triple.pre {P' : μ → σ → Prop} (h : Triple M P x Q E) (hP : ∀ m s, P' m s → P m s) :
    Triple M P' x Q E :=
  h.conseq hP (fun _ _ _ hQ => hQ) fun _ _ hE => hE

theorem Triple.pure (a : α) (h : ∀ m s, P m s → Q a m s) :
    Triple M P (Pure.pure a : Traced σ ε ι χ α) Q E :=
  fun m w hP => ⟨[], (List.append_nil _).symm, trivial, h m w.state hP⟩

theorem Triple.throw (e : χ) (h : ∀ m s, P m s → E m s) :
    Triple M P (Traced.throw e : Traced σ ε ι χ α) Q E :=
  fun m w hP => ⟨[], (List.append_nil _).symm, trivial, h m w.state hP⟩

theorem Triple.or {P' : μ → σ → Prop} (h : Triple M P x Q E) (h' : Triple M P' x Q E) :
    Triple M (fun m s => P m s ∨ P' m s) x Q E := by
  rintro m w (hP | hP)
  · exact h m w hP
  · exact h' m w hP

/-- A fact in the precondition that is not about the observer or the state. -/
theorem Triple.assume (h : φ → Triple M P x Q E) : Triple M (fun m s => P m s ∧ φ) x Q E :=
  fun m w hP => h hP.2 m w hP.1

theorem Triple.of_returns (h : Triple M P x Q E) (hreturns : ∀ w, ∃ a, (x w).1 = .ok a) :
    Triple M P x Q E' := by
  intro m w hP
  obtain ⟨a, ha⟩ := hreturns w
  refine (h m w hP).mono fun m' hpost => ?_
  rw [ha] at hpost ⊢
  exact hpost

/-- The state read at the start of a program is the state the precondition speaks
about. -/
theorem Triple.get {f : σ → Traced σ ε ι χ β} {Q : β → μ → σ → Prop}
    (h : ∀ s, Triple M (fun m s' => s' = s ∧ P m s') (f s) Q E) :
    Triple M P (Traced.get >>= f) Q E := by
  intro m w hP
  exact h w.state m w ⟨rfl, hP⟩

theorem Triple.ask [Inhabited ι] {f : ι → Traced σ ε ι χ β} {Q : β → μ → σ → Prop}
    (h : ∀ a, Triple M P (f a) Q E) : Triple M P (Traced.ask >>= f) Q E := by
  rintro m ⟨s, log, answers⟩ hP
  cases answers with
  | nil => exact h default m ⟨s, log, []⟩ hP
  | cons a rest => exact h a m ⟨s, log, rest⟩ hP

/-- A specification of the state alone adds to any other. -/
theorem Triple.and_free {P' : σ → Prop} {Q' : α → σ → Prop} {E' : σ → Prop} (h : Triple M P x Q E)
    (h' : Triple (Monitor.free ε) (fun _ => P') x (fun a _ => Q' a) fun _ => E') :
    Triple M (fun m s => P m s ∧ P' s) x (fun a m s => Q a m s ∧ Q' a s)
      (fun m s => E m s ∧ E' s) := by
  rintro m w ⟨hP, hP'⟩
  obtain ⟨_, -, -, hpost'⟩ := h' () w hP'
  refine (h m w hP).mono fun m' hpost => ?_
  cases hr : (x w).1 <;> rw [hr] at hpost hpost' <;> exact ⟨hpost, hpost'⟩

theorem Triple.act {Q : Unit → μ → σ → Prop} (hallow : ∀ m s, P m s → M.allows m e)
    (h : ∀ m s, P m s → Q () (M.next m e) (f s)) :
    Triple M P (Traced.act f e : Traced σ ε ι χ Unit) Q E :=
  fun m _ hP => ⟨[e], rfl, ⟨hallow m _ hP, trivial⟩, h m _ hP⟩

theorem Triple.actAt {s : σ} {Q : Unit → μ → σ → Prop}
    (h : ∀ m, P m s → M.allows m e ∧ Q () (M.next m e) (f s)) :
    Triple M (fun m s' => s' = s ∧ P m s') (Traced.act f e : Traced σ ε ι χ Unit) Q E := by
  refine .act ?_ ?_ <;> rintro m _ ⟨rfl, hP⟩
  · exact (h m hP).1
  · exact (h m hP).2

theorem Triple.modify {Q : Unit → μ → σ → Prop} (h : ∀ m s, P m s → Q () m (f s)) :
    Triple M P (Traced.modify f : Traced σ ε ι χ Unit) Q E :=
  fun m _ hP => ⟨[], (List.append_nil _).symm, trivial, h m _ hP⟩

/-! ## Assertions that are kept -/

section Maintains

variable {P : μ → σ → Prop}

/-- `x` keeps `P`, however it ends. -/
def Maintains (M : Monitor ε μ) (P : μ → σ → Prop) (x : Traced σ ε ι χ α) : Prop :=
  Triple M P x (fun _ => P) P

theorem Maintains.pure (a : α) : Maintains M P (Pure.pure a : Traced σ ε ι χ α) :=
  Triple.pure a fun _ _ h => h

theorem Maintains.throw (e : χ) : Maintains M P (Traced.throw e : Traced σ ε ι χ α) :=
  Triple.throw e fun _ _ h => h

theorem Maintains.bind {f : α → Traced σ ε ι χ β} (hx : Maintains M P x)
    (hf : ∀ a, Maintains M P (f a)) : Maintains M P (x >>= f) :=
  Triple.bind hx hf

theorem Maintains.get {f : σ → Traced σ ε ι χ β} (hf : ∀ s, Maintains M P (f s)) :
    Maintains M P (Traced.get >>= f) :=
  Triple.get fun s => (hf s).pre fun _ _ h => h.2

theorem Maintains.ask [Inhabited ι] {f : ι → Traced σ ε ι χ β} (hf : ∀ a, Maintains M P (f a)) :
    Maintains M P (Traced.ask >>= f) :=
  Triple.ask hf

theorem Maintains.ite [Decidable c] (hx : Maintains M P x) (hy : Maintains M P y) :
    Maintains M P (if c then x else y) := by
  split
  · exact hx
  · exact hy

theorem Maintains.modify (h : ∀ m s, P m s → P m (f s)) :
    Maintains M P (Traced.modify f : Traced σ ε ι χ Unit) :=
  Triple.modify h

theorem Maintains.act (h : ∀ m s, P m s → M.allows m e ∧ P (M.next m e) (f s)) :
    Maintains M P (Traced.act f e : Traced σ ε ι χ Unit) :=
  Triple.act (fun m s hP => (h m s hP).1) fun m s hP => (h m s hP).2

/-- An act in the states that pass a test. -/
theorem Maintains.getAct {c : σ → Prop} [DecidablePred c]
    (h : ∀ m s, P m s → c s → M.allows m e ∧ P (M.next m e) (f s)) :
    Maintains M P (Traced.get >>= fun s =>
      if c s then Traced.act f e else Pure.pure () : Traced σ ε ι χ Unit) := by
  refine Triple.get fun s => ?_
  split
  next hc =>
    exact Triple.actAt fun m hP => h m s hP hc
  · exact Triple.pure _ fun _ _ hP => hP.2

/-- A program that keeps every assertion `R p` moves along `R`. -/
theorem does_of_maintains {R : μ × σ → μ × σ → Prop} (hrefl : ∀ p, R p p)
    (h : ∀ p, Maintains M (fun m s => R p (m, s)) x) : Does M R x := by
  intro m w
  refine (h (m, w.state) m w (hrefl _)).mono fun m' hr => ?_
  cases h : (x w).1 <;> rw [h] at hr <;> exact hr

end Maintains

/-! ## Assertions about the answers to come -/

section Spec

variable {P P' : μ → σ → Prop} {E : μ → σ → Prop} {Φ : List ι → Prop} {x : Traced σ ε ι χ α}
    {Q : α → μ → σ → Prop}

theorem Spec.conseq {P P' : μ → World σ ε ι → Prop} {Q Q' : α → μ → World σ ε ι → Prop}
    {E' : μ → σ → Prop} (h : Spec M P x Q E) (hP : ∀ m w, P' m w → P m w)
    (hQ : ∀ a m w, Q a m w → Q' a m w) (hE : ∀ m s, E m s → E' m s) : Spec M P' x Q' E' := by
  intro m w hP'
  obtain ⟨events, hlog, hacc, hpost⟩ := h m w (hP m w hP')
  refine ⟨events, hlog, hacc, ?_⟩
  cases hr : (x w).1 with
  | ok a => rw [hr] at hpost; exact hQ a _ _ hpost
  | error e => rw [hr] at hpost; exact hE _ _ hpost

theorem Spec.pre {P P' : μ → World σ ε ι → Prop} {Q : α → μ → World σ ε ι → Prop}
    (h : Spec M P x Q E) (hP : ∀ m w, P' m w → P m w) : Spec M P' x Q E :=
  h.conseq hP (fun _ _ _ hQ => hQ) fun _ _ hE => hE

theorem Spec.pure {P : μ → World σ ε ι → Prop} {Q : α → μ → World σ ε ι → Prop} (a : α)
    (h : ∀ m w, P m w → Q a m w) : Spec M P (Pure.pure a : Traced σ ε ι χ α) Q E :=
  fun m w hP => ⟨[], (List.append_nil _).symm, trivial, h m w hP⟩

theorem Spec.throw {P : μ → World σ ε ι → Prop} {Q : α → μ → World σ ε ι → Prop} (e : χ)
    (h : ∀ m w, P m w → E m w.state) : Spec M P (Traced.throw e : Traced σ ε ι χ α) Q E :=
  fun m w hP => ⟨[], (List.append_nil _).symm, trivial, h m w hP⟩

theorem Spec.get {f : σ → Traced σ ε ι χ β} {Q : β → μ → World σ ε ι → Prop}
    (h : ∀ s, Spec M (given Φ fun m s' => s' = s ∧ P m s') (f s) Q E) :
    Spec M (given Φ P) (Traced.get >>= f) Q E := by
  rintro m w ⟨hP, hΦ⟩
  exact h w.state m w ⟨⟨rfl, hP⟩, hΦ⟩

theorem Spec.act (h : ∀ m s, P m s → M.allows m e ∧ P' (M.next m e) (f s)) :
    Spec M (given Φ P) (Traced.act f e : Traced σ ε ι χ Unit) (fun _ => given Φ P') E :=
  fun m _ hP => ⟨[e], rfl, ⟨(h m _ hP.1).1, trivial⟩, (h m _ hP.1).2, hP.2⟩

theorem Spec.modify (h : ∀ m s, P m s → P' m (f s)) :
    Spec M (given Φ P) (Traced.modify f : Traced σ ε ι χ Unit) (fun _ => given Φ P') E :=
  fun m _ hP => ⟨[], (List.append_nil _).symm, trivial, h m _ hP.1, hP.2⟩

/-- A fact in the precondition that is not about the world. -/
theorem Triple.assumed (h : φ → Triple M P x Q E) :
    Spec M (fun m w => φ ∧ P m w.state) x (fun a m w => Q a m w.state) E :=
  fun m w hP => (h hP.1).spec (Φ := fun _ => True) m w ⟨hP.2, trivial⟩

theorem Spec.catching {P : μ → World σ ε ι → Prop} {E' : μ → σ → Prop}
    (hx : Spec M P x (fun a m w => Q a m w.state) E) (hh : ∀ e, Triple M E (handler e) Q E') :
    Spec M P (Traced.catching x handler) (fun a m w => Q a m w.state) E' := by
  intro m w hP
  obtain ⟨events, hlog, hacc, hpost⟩ := hx m w hP
  unfold Traced.catching
  rcases hxw : x w with ⟨e | a, w'⟩
  · rw [hxw] at hlog hpost
    obtain ⟨events', hlog', hacc', hpost'⟩ := (hh e).spec (Φ := fun _ => True) _ w' ⟨hpost, trivial⟩
    refine ⟨events ++ events', ?_, (M.accepts_append _ _ _).mpr ⟨hacc, hacc'⟩, ?_⟩
    · rw [hlog', hlog, List.append_assoc]
    · simpa using hpost'
  · rw [hxw] at hlog hpost
    exact ⟨events, hlog, hacc, hpost⟩

theorem Triple.catching {E' : μ → σ → Prop} (hx : Triple M P x Q E)
    (hh : ∀ e, Triple M E (handler e) Q E') : Triple M P (Traced.catching x handler) Q E' :=
  (Spec.catching hx.spec hh).triple

theorem Triple.unasking (h : Triple M P x Q E) (hx : ∀ w, (x w).2.answers = w.answers) :
    Spec M (given Φ P) x (fun a => given Φ (Q a)) E := by
  rintro m w ⟨hP, hΦ⟩
  obtain ⟨events, hlog, hacc, hpost⟩ := h m w hP
  refine ⟨events, hlog, hacc, ?_⟩
  cases hr : (x w).1 with
  | ok a =>
    rw [hr] at hpost
    exact ⟨hpost, (hx w).symm ▸ hΦ⟩
  | error e =>
    rw [hr] at hpost
    exact hpost

theorem Spec.ask [Inhabited ι] {Ψ : List ι → Prop} {f : ι → Traced σ ε ι χ β}
    {Q : β → μ → World σ ε ι → Prop} (hΦ : ∀ answers, Φ answers → Ψ answers.tail)
    (h : ∀ a, (∃ answers, Φ answers ∧ answers.headD default = a) → Spec M (given Ψ P) (f a) Q E) :
    Spec M (given Φ P) (Traced.ask >>= f) Q E := by
  rintro m ⟨s, log, answers⟩ ⟨hP, hA⟩
  cases answers with
  | nil => exact h default ⟨[], hA, rfl⟩ m ⟨s, log, []⟩ ⟨hP, hΦ [] hA⟩
  | cons a rest => exact h a ⟨a :: rest, hA, rfl⟩ m ⟨s, log, rest⟩ ⟨hP, hΦ _ hA⟩

end Spec

/-! ## Results -/

section Returns

variable {R : α → σ → Prop}

def Returns (R : α → σ → Prop) (x : Traced σ ε ι χ α) : Prop :=
  ∀ w a, (x w).1 = .ok a → R a (x w).2.state

theorem Returns.pure {a : α} (h : ∀ s, R a s) : Returns R (Pure.pure a : Traced σ ε ι χ α) := by
  rintro w b ⟨⟩
  exact h w.state

theorem Returns.bind {x : Traced σ ε ι χ β} {f : β → Traced σ ε ι χ α}
    (hf : ∀ b, Returns R (f b)) : Returns R (x >>= f) := by
  intro w a ha
  rw [bind_apply] at ha ⊢
  rcases hxw : x w with ⟨_ | b, w'⟩
  · rw [hxw] at ha
    cases ha
  rw [hxw] at ha
  exact hf b w' a ha

theorem Returns.ite [Decidable c] (hx : Returns R x) (hy : Returns R y) :
    Returns R (if c then x else y) := by
  split
  · exact hx
  · exact hy

/-- What a program returns, beside what it keeps. -/
theorem Triple.returning (h : Triple M P x Q E) (hR : Returns R x) :
    Triple M P x (fun a m s => Q a m s ∧ R a s) E := by
  intro m w hP
  refine (h m w hP).mono fun m' hpost => ?_
  cases hr : (x w).1 with
  | ok a =>
    rw [hr] at hpost
    exact ⟨hpost, hR w a hr⟩
  | error e =>
    rw [hr] at hpost
    exact hpost

end Returns

/-! ## Preorders -/

section Preorder

variable {R : μ × σ → μ × σ → Prop}

/-- A program that moves along `R` keeps every assertion `R` keeps. -/
theorem Does.triple (h : Does M R x) {Q : μ → σ → Prop}
    (hR : ∀ m s m' s', R (m, s) (m', s') → P m s → Q m' s') : Triple M P x (fun _ => Q) Q := by
  intro m w hP
  refine (h m w).mono fun m' hr => ?_
  cases (x w).1 <;> exact hR _ _ _ _ hr hP

section

variable (hrefl : ∀ p, R p p)
include hrefl

theorem Does.pure (a : α) : Does M R (Pure.pure a : Traced σ ε ι χ α) :=
  fun _ w => ⟨[], (List.append_nil w.log).symm, trivial, hrefl _⟩

theorem Does.throw (e : χ) : Does M R (Traced.throw e : Traced σ ε ι χ α) :=
  fun _ w => ⟨[], (List.append_nil w.log).symm, trivial, hrefl _⟩

theorem Does.get : Does M R (Traced.get : Traced σ ε ι χ σ) :=
  fun _ w => ⟨[], (List.append_nil w.log).symm, trivial, hrefl _⟩

theorem Does.ask [Inhabited ι] : Does M R (Traced.ask : Traced σ ε ι χ ι) := by
  intro m w
  refine ⟨[], ?_, trivial, ?_⟩
  · unfold Traced.ask
    split <;> simp
  unfold Traced.ask
  split <;> exact hrefl _

end

theorem Does.bind (htrans : ∀ p q r, R p q → R q r → R p r) {f : α → Traced σ ε ι χ β}
    (hx : Does M R x) (hf : ∀ a, Does M R (f a)) : Does M R (x >>= f) := by
  intro m w
  have hmid : Triple M (fun m₀ s₀ => (m₀, s₀) = (m, w.state)) x
      (fun _ m' s' => R (m, w.state) (m', s')) fun m' s' => R (m, w.state) (m', s') :=
    hx.triple fun _ _ _ _ hr heq => heq ▸ hr
  refine (hmid.bind (fun a => (hf a).triple fun _ _ _ _ hr hR => htrans _ _ _ hR hr) m w rfl).mono ?_
  intro m' hr
  cases h : ((x >>= f) w).1 <;> rw [h] at hr <;> exact hr

theorem Does.act (hallow : ∀ m, M.allows m e) (h : ∀ m s, R (m, s) (M.next m e, f s)) :
    Does M R (Traced.act f e : Traced σ ε ι χ Unit) :=
  fun m w => ⟨[e], rfl, ⟨hallow m, trivial⟩, h m w.state⟩

theorem Does.modify (h : ∀ m s, R (m, s) (m, f s)) :
    Does M R (Traced.modify f : Traced σ ε ι χ Unit) :=
  fun m w => ⟨[], (List.append_nil w.log).symm, trivial, h m w.state⟩

end Preorder

/-! ## Worlds before and after

A relation of whole worlds also sees the answers that are left. -/

section Evolves

variable {W : World σ ε ι → World σ ε ι → Prop}

/-- However it ends, `x` moves the world along `W`. -/
def Evolves (W : World σ ε ι → World σ ε ι → Prop) (x : Traced σ ε ι χ α) : Prop :=
  ∀ w, W w (x w).2

theorem Evolves.pure (hrefl : ∀ w, W w w) (a : α) :
    Evolves W (Pure.pure a : Traced σ ε ι χ α) := hrefl

theorem Evolves.throw (hrefl : ∀ w, W w w) (e : χ) :
    Evolves W (Traced.throw e : Traced σ ε ι χ α) := hrefl

theorem Evolves.get {f : σ → Traced σ ε ι χ α}
    (hf : ∀ s, Evolves W (f s)) : Evolves W (Traced.get >>= f) := fun w => hf w.state w

theorem Evolves.bind (htrans : ∀ w w' w'', W w w' → W w' w'' → W w w'') {f : α → Traced σ ε ι χ β}
    (hx : Evolves W x) (hf : ∀ a, Evolves W (f a)) : Evolves W (x >>= f) := by
  intro w
  have hfirst := hx w
  rw [bind_apply]
  rcases hxw : x w with ⟨_ | a, w'⟩
  · rw [hxw] at hfirst
    exact hfirst
  rw [hxw] at hfirst
  exact htrans w w' _ hfirst (hf a w')

end Evolves

end Traced

end Fixpp.Foundation
