import Fixpp.Interface.FairLock

/-!
# What every step of the mutex keeps

Between two steps there is one owner at most: an attempt that was granted and has not come to
the end of its unlock. The waiters stand in one line: the chain the owner has taken off the
lists, then the residual chain, then what hangs on the word, the last one first.
-/

namespace Fixpp.Analysis.Mutex

open Foundation Model Interface MutexSystem List

/-- An attempt that was granted and is not at the end of its unlock. -/
def Token : LockPoint → Prop
  | .fastCount => True
  | .slowCount => True
  | .slowPhase => True
  | .schedule .guard => True
  | .posted .guard => True
  | .holding => True
  | .unlocking _ => True
  | _ => False

/-- An attempt before its first success. -/
def Fresh : LockPoint → Prop
  | .idle => True
  | .entry => True
  | .fastPath => True
  | .allocate => True
  | .assign => True
  | .retestDraining => True
  | .reload => True
  | .enqueue _ => True
  | _ => False

/-- An attempt whose record is in no list. -/
def Unlisted : LockPoint → Prop
  | .fastCount => True
  | .slowCount => True
  | .slowPhase => True
  | p => Fresh p

/-- Where attempts are during a drain. -/
def Late : LockPoint → Prop
  | .idle => True
  | .entry => True
  | .posted _ => True
  | .holding => True
  | .unlocking .release => True
  | .unlocking .testDraining => True
  | .unlocking .drainCas => True
  | .done => True
  | _ => False

/-- How far an attempt is for the fair lock. -/
def ticketOf : LockPoint → WaiterPhase → Ticket
  | .idle, _ => .unused
  | .fastCount, _ => .granted
  | .slowCount, _ => .granted
  | .slowPhase, _ => .granted
  | .schedule .guard, _ => .granted
  | .schedule .aborted, _ => .aborted
  | .posted .guard, _ => .granted
  | .posted .aborted, _ => .aborted
  | .queued, .queued => .waiting
  | .queued, .granted => .granted
  | .queued, .cancelled => .aborted
  | .holding, _ => .completed
  | .unlocking _, _ => .completed
  | .done, _ => .completed
  | _, _ => .calling

/-- The waiters that an unlock has taken off the lists. -/
def chainOf : LockPoint → List ℕ
  | .unlocking (.walk _ chain) => chain
  | .unlocking (.tryGrant _ w rest) => w :: rest
  | .unlocking (.countGrant _ rest) => rest
  | .unlocking (.splice _ rest) => rest
  | _ => []

/-- The waiter that an unlock has granted and not resumed yet. -/
def handing : LockPoint → Option ℕ
  | .unlocking (.countGrant w _) => some w
  | .unlocking (.splice w _) => some w
  | .unlocking (.resume w) => some w
  | _ => none

/-- An unlock that has emptied the residual chain. -/
def Taken : LockPoint → Prop
  | .unlocking (.walk _ _) => True
  | .unlocking (.tryGrant _ _ _) => True
  | .unlocking (.countGrant _ _) => True
  | .unlocking (.splice _ _) => True
  | .unlocking .exchange => True
  | .unlocking .terminalCas => True
  | _ => False

/-- Points that only a drain leads to. -/
def Sane (draining : Bool) : LockPoint → Prop
  | .schedule .drained => False
  | .posted .drained => False
  | .unlocking .drainCas => draining = true
  | _ => True

/-- How an owner shows in `active_holders_count_`. -/
def countOf : LockPoint → ℕ
  | .slowPhase => 1
  | .schedule .guard => 1
  | .posted .guard => 1
  | .holding => 1
  | .unlocking .release => 1
  | .unlocking (.splice _ _) => 1
  | .unlocking (.resume _) => 1
  | _ => 0

/-- Where the guard of an owner is. -/
def stageAt (o : ℕ) (p : LockPoint) : Stage :=
  match handing p with
  | some w => .held w
  | none =>
    match p with
    | .unlocking _ => .passing
    | _ => .held o

def stageOf (s : MutexSystem) : Option ℕ → Stage
  | none => .free
  | some o => stageAt o (s.point o)

/-- The waiters in their order. -/
def line (s : MutexSystem) (owner : Option ℕ) : List ℕ :=
  owner.elim [] (fun o => chainOf (s.point o)) ++ (s.residual ++ s.word.waiters.reverse)

/-- What holds between two steps. -/
structure Kept (s : MutexSystem) (owner : Option ℕ) : Prop where
  token : ∀ i, Token (s.point i) ↔ owner = some i
  nodup : (line s owner).Nodup
  unlisted : ∀ i, Unlisted (s.point i) → i ∉ line s owner ∧ s.phase i = .queued
  standing : ∀ i ∈ line s owner, s.point i = .queued ∧ s.phase i = .queued ∨ s.phase i = .cancelled
  waits : ∀ i, s.point i = .queued → s.phase i = .queued ∧ i ∈ line s owner ∨
    s.phase i = .granted ∧ ∃ o, owner = some o ∧ handing (s.point o) = some i
  handed : ∀ o w, owner = some o → handing (s.point o) = some w →
    s.point w = .queued ∧ s.phase w = .granted
  taken : ∀ o, owner = some o → Taken (s.point o) → s.residual = []
  free : owner = none → s.residual = []
  word : s.draining = false → (owner = none ↔ s.word = .notLocked)
  sane : ∀ i, Sane s.draining (s.point i)
  holders : s.activeHolders = owner.elim 0 (fun o => countOf (s.point o))
  late : s.draining = true → (∀ i, Late (s.point i)) ∧ s.residual = [] ∧ s.word.waiters = [] ∧
    (owner ≠ none → s.word = .locked [])

/-- The mutex does what the fair lock does. -/
structure Sim (l : FairLock) (s : MutexSystem) (owner : Option ℕ) : Prop extends Kept s owner where
  stage : l.stage = stageOf s owner
  queue : l.queue = (line s owner).filter (s.phase · = .queued)
  ticket : ∀ i, l.ticket i = ticketOf (s.point i) (s.phase i)
  drainer : l.drainer ≠ none ↔ s.draining = true
  finished : l.finished = s.drainingComplete

/-- Whom the owner has granted and not resumed. -/
def given (s : MutexSystem) (owner : Option ℕ) : Option ℕ :=
  owner.bind fun o => handing (s.point o)

/-- How one attempt stands to the owner, the line and whom the owner has granted. -/
structure Placed (owner : Option ℕ) (chain : List ℕ) (heir : Option ℕ) (draining : Bool) (i : ℕ)
    (p : LockPoint) (f : WaiterPhase) (t : Ticket) : Prop where
  token : Token p ↔ owner = some i
  unlisted : Unlisted p → i ∉ chain ∧ f = .queued
  standing : i ∈ chain → p = .queued ∧ f = .queued ∨ f = .cancelled
  waits : p = .queued → f = .queued ∧ i ∈ chain ∨ f = .granted ∧ heir = some i
  handed : heir = some i → p = .queued ∧ f = .granted
  sane : Sane draining p
  late : draining = true → Late p
  ticket : t = ticketOf p f

/-- What is true of the system besides. -/
structure Whole (l : FairLock) (s : MutexSystem) (owner : Option ℕ) : Prop where
  nodup : (line s owner).Nodup
  taken : ∀ o, owner = some o → Taken (s.point o) → s.residual = []
  free : owner = none → s.residual = []
  word : s.draining = false → (owner = none ↔ s.word = .notLocked)
  holders : s.activeHolders = owner.elim 0 (fun o => countOf (s.point o))
  late : s.draining = true → s.residual = [] ∧ s.word.waiters = [] ∧
    (owner ≠ none → s.word = .locked [])
  stage : l.stage = stageOf s owner
  queue : l.queue = (line s owner).filter (s.phase · = .queued)
  drainer : l.drainer ≠ none ↔ s.draining = true
  finished : l.finished = s.drainingComplete

section Frames

variable {s : MutexSystem} {owner : Option ℕ} {l : FairLock}

@[simp] theorem waiters_locked (ws : List ℕ) : (LockWord.locked ws).waiters = ws := rfl

@[simp] theorem point_move (i : ℕ) (p : LockPoint) : (s.move i p).point i = p := by
  simp [move]

@[simp] theorem point_scheduleResume (i : ℕ) (r : LockResult) :
    (s.scheduleResume i r).point i = .posted r := by
  simp [scheduleResume]

variable {i o : ℕ} {s' : MutexSystem} {p : LockPoint}

theorem point_move_of_ne {j : ℕ} (p : LockPoint) (h : j ≠ i) :
    (s.move i p).point j = s.point j := by
  simp [move, h]

theorem given_eq_some {w : ℕ} :
    given s owner = some w ↔ ∃ o, owner = some o ∧ handing (s.point o) = some w :=
  Option.bind_eq_some_iff

/-- The simulation, one attempt after the other. -/
theorem Sim.placed (h : Sim l s owner) (i : ℕ) : Placed owner (line s owner) (given s owner)
    s.draining i (s.point i) (s.phase i) (l.ticket i) where
  token := h.token i
  unlisted := h.unlisted i
  standing := h.standing i
  waits := by
    rw [given_eq_some]
    exact h.waits i
  handed hheir := by
    obtain ⟨o, ho, hw⟩ := given_eq_some.mp hheir
    exact h.handed o i ho hw
  sane := h.sane i
  late hd := (h.late hd).1 i
  ticket := h.ticket i

theorem Sim.of_placed (hwhole : Whole l s owner)
    (h : ∀ i, Placed owner (line s owner) (given s owner) s.draining i (s.point i) (s.phase i)
      (l.ticket i)) : Sim l s owner where
  token i := (h i).token
  nodup := hwhole.nodup
  unlisted i := (h i).unlisted
  standing i := (h i).standing
  waits i := by
    rw [← given_eq_some]
    exact (h i).waits
  handed o w ho hw := (h w).handed (given_eq_some.mpr ⟨o, ho, hw⟩)
  taken := hwhole.taken
  free := hwhole.free
  word := hwhole.word
  sane i := (h i).sane
  holders := hwhole.holders
  late hd := ⟨fun i => (h i).late hd, hwhole.late hd⟩
  stage := hwhole.stage
  queue := hwhole.queue
  ticket i := (h i).ticket
  drainer := hwhole.drainer
  finished := hwhole.finished

theorem Placed.congr {owner' heir heir' : Option ℕ} {chain chain' : List ℕ} {d : Bool}
    {f : WaiterPhase} {t : Ticket} (h : Placed owner chain heir d i p f t)
    (howner : owner' = some i ↔ owner = some i) (hchain : i ∈ chain' ↔ i ∈ chain)
    (hheir : heir' = some i ↔ heir = some i) :
    Placed owner' chain' heir' d i p f t where
  token := h.token.trans howner.symm
  unlisted hp := by
    rw [hchain]
    exact h.unlisted hp
  standing hin := h.standing (hchain.mp hin)
  waits hp := by
    rw [hchain, hheir]
    exact h.waits hp
  handed hi := h.handed (hheir.mp hi)
  sane := h.sane
  late := h.late
  ticket := h.ticket

theorem owner_congr (hpoint : ∀ o, owner = some o → s'.point o = s.point o) :
    given s' owner = given s owner ∧ stageOf s' owner = stageOf s owner ∧
      owner.elim 0 (fun o => countOf (s'.point o)) = owner.elim 0 (fun o => countOf (s.point o)) := by
  cases owner with
  | none => exact ⟨rfl, rfl, rfl⟩
  | some o => simp [given, stageOf, hpoint o rfl]

theorem line_of_point (s s' : MutexSystem) (owner : Option ℕ)
    (hchain : ∀ o, owner = some o → chainOf (s'.point o) = chainOf (s.point o))
    (hresidual : s'.residual = s.residual) (hword : s'.word.waiters = s.word.waiters) :
    line s' owner = line s owner := by
  cases owner with
  | none => simp [line, hresidual, hword]
  | some o => simp [line, hresidual, hword, hchain o rfl]

/-- Two systems that differ in one attempt, which owns nothing and does not sleep. -/
structure Aside (s s' : MutexSystem) (i : ℕ) : Prop where
  word : s'.word = s.word
  residual : s'.residual = s.residual
  draining : s'.draining = s.draining
  complete : s'.drainingComplete = s.drainingComplete
  holders : s'.activeHolders = s.activeHolders
  point : ∀ j, j ≠ i → s'.point j = s.point j
  phase : ∀ j, j ≠ i → s'.phase j = s.phase j
  before : ¬ Token (s.point i) ∧ s.point i ≠ .queued
  after : ¬ Token (s'.point i) ∧ s'.point i ≠ .queued
  unlisted : Unlisted (s'.point i) → Unlisted (s.point i) ∧ s'.phase i = s.phase i
  kept : s'.phase i = s.phase i ∨ Unlisted (s.point i)
  sane : Sane s.draining (s'.point i)
  late : s.draining = true → Late (s'.point i)

theorem Sim.aside (h : Sim l s owner) (ha : Aside s s' i) :
    Sim (l.set i (ticketOf (s'.point i) (s'.phase i))) s' owner := by
  have hpoint : ∀ o, owner = some o → s'.point o = s.point o := by
    intro o ho
    refine ha.point o ?_
    rintro rfl
    exact ha.before.1 ((h.token o).mpr ho)
  have hline : line s' owner = line s owner :=
    line_of_point s s' owner (fun o ho => by rw [hpoint o ho]) ha.residual (by rw [ha.word])
  have hphase : ∀ j ∈ line s owner, s'.phase j = s.phase j := by
    intro j hj
    by_cases hji : j = i
    · subst hji
      exact ha.kept.resolve_right fun hunlisted => (h.unlisted j hunlisted).1 hj
    · exact ha.phase j hji
  obtain ⟨hgiven, hstage, hcount⟩ := owner_congr hpoint
  refine .of_placed
    { nodup := hline ▸ h.nodup
      taken := fun o ho ht => ha.residual ▸ h.taken o ho (hpoint o ho ▸ ht)
      free := fun ho => ha.residual ▸ h.free ho
      word := by rw [ha.draining, ha.word]; exact h.word
      holders := ha.holders.trans (h.holders.trans hcount.symm)
      late := by rw [ha.draining, ha.residual, ha.word]; exact fun hd => (h.late hd).2
      stage := h.stage.trans hstage.symm
      queue := by
        rw [hline]
        exact h.queue.trans (filter_congr fun j hj => by rw [hphase j hj])
      drainer := by rw [ha.draining]; exact h.drainer
      finished := by rw [ha.complete]; exact h.finished } fun j => ?_
  rw [hline, hgiven, ha.draining]
  by_cases hji : j = i
  · subst hji
    exact
      { token := iff_of_false ha.after.1 fun ho => ha.before.1 ((h.token j).mpr ho)
        unlisted := fun hj => by
          obtain ⟨hunlisted, hsame⟩ := ha.unlisted hj
          rw [hsame]
          exact h.unlisted j hunlisted
        standing := fun hj => by
          rw [hphase j hj]
          exact .inr ((h.standing j hj).resolve_left fun hq => ha.before.2 hq.1)
        waits := fun hj => absurd hj ha.after.2
        handed := fun hheir => absurd ((h.placed j).handed hheir).1 ha.before.2
        sane := ha.sane
        late := ha.late
        ticket := by simp [FairLock.set] }
  · rw [ha.point j hji, ha.phase j hji]
    simpa [FairLock.set, hji] using h.placed j

/-- The owner goes on: it may drop cancelled waiters from the front of the line. -/
structure Onward (s s' : MutexSystem) (o : ℕ) : Prop where
  phase : ∀ j, j ≠ o → s'.phase j = s.phase j
  kept : s'.phase o = s.phase o ∨ Unlisted (s.point o)
  unlisted : Unlisted (s'.point o) → Unlisted (s.point o) ∧ s'.phase o = s.phase o
  draining : s'.draining = s.draining
  complete : s'.drainingComplete = s.drainingComplete
  point : ∀ j, j ≠ o → s'.point j = s.point j
  token : Token (s'.point o)
  handing : handing (s'.point o) = handing (s.point o)
  line : ∃ dropped, line s (some o) = dropped ++ line s' (some o) ∧
    ∀ w ∈ dropped, s.phase w = .cancelled
  taken : Taken (s'.point o) → s'.residual = []
  word : s'.word ≠ .notLocked
  sane : Sane s.draining (s'.point o)
  holders : s'.activeHolders = countOf (s'.point o)
  late : s.draining = true → Late (s'.point o) ∧ s'.residual = [] ∧ s'.word = .locked []

theorem unlisted_of_fresh (h : Fresh p) : Unlisted p := by
  cases p <;> first | exact h | trivial

theorem not_fresh_of_token (h : Token p) : ¬ Fresh p := by
  cases p <;> simp_all [Token, Fresh]

theorem ne_queued_of_token (h : Token p) : p ≠ .queued := by
  rintro rfl
  exact h

theorem Sim.onward (h : Sim l s (some o)) (ha : Onward s s' o) :
    Sim { l.set o (ticketOf (s'.point o) (s'.phase o)) with stage := stageAt o (s'.point o) } s'
      (some o) := by
  have hsleeps : s.point o ≠ .queued := ne_queued_of_token ((h.token o).mpr rfl)
  obtain ⟨dropped, hline, hdropped⟩ := ha.line
  have hmem : ∀ j, j ∈ line s' (some o) → j ∈ line s (some o) := fun j hj => by
    rw [hline]
    exact mem_append_right _ hj
  have hphase : ∀ j ∈ line s (some o), s'.phase j = s.phase j := by
    intro j hj
    by_cases hjo : j = o
    · subst hjo
      exact ha.kept.resolve_right fun hunlisted => (h.unlisted j hunlisted).1 hj
    · exact ha.phase j hjo
  have hgiven : given s' (some o) = given s (some o) := ha.handing
  have hnodup := h.nodup
  rw [hline] at hnodup
  have hnone : dropped.filter (s.phase · = .queued) = [] := by
    rw [filter_eq_nil_iff]
    intro w hw
    simp [hdropped w hw]
  refine .of_placed
    { nodup := (nodup_append.mp hnodup).2.1
      taken := fun o' ho ht => ha.taken (Option.some.inj ho ▸ ht)
      free := fun ho => absurd ho (by simp)
      word := fun _ => iff_of_false (by simp) ha.word
      holders := ha.holders
      late := fun hd => by
        obtain ⟨-, hresidual, hword⟩ := ha.late (ha.draining ▸ hd)
        exact ⟨hresidual, by simp [hword], fun _ => hword⟩
      stage := rfl
      queue := by
        change l.queue = _
        rw [h.queue, hline, filter_append, hnone, nil_append]
        exact filter_congr fun j hj => by rw [hphase j (hmem j hj)]
      drainer := by rw [ha.draining]; exact h.drainer
      finished := by rw [ha.complete]; exact h.finished } fun j => ?_
  rw [hgiven, ha.draining]
  by_cases hjo : j = o
  · subst hjo
    exact
      { token := iff_of_true ha.token rfl
        unlisted := fun hj => by
          obtain ⟨hunlisted, hsame⟩ := ha.unlisted hj
          rw [hsame]
          exact (h.unlisted j hunlisted).imp_left fun hnot hin => hnot (hmem j hin)
        standing := fun hj => by
          rw [hphase j (hmem j hj)]
          exact .inr ((h.standing j (hmem j hj)).resolve_left fun hq => hsleeps hq.1)
        waits := fun hj => absurd hj (ne_queued_of_token ha.token)
        handed := fun hheir => absurd ((h.placed j).handed hheir).1 hsleeps
        sane := ha.sane
        late := fun hd => (ha.late hd).1
        ticket := by simp [FairLock.set] }
  · rw [ha.point j hjo, ha.phase j hjo]
    have hj := h.placed j
    exact
      { hj with
        unlisted := fun hu => (hj.unlisted hu).imp_left fun hnot hin => hnot (hmem j hin)
        standing := fun hin => hj.standing (hmem j hin)
        waits := fun hq => (hj.waits hq).imp_left fun h => ⟨h.1, by
          obtain ⟨hp, hin⟩ := h
          rw [hline] at hin
          refine (mem_append.mp hin).resolve_left fun hgone => ?_
          rw [hdropped j hgone] at hp
          contradiction⟩
        ticket := by simpa [FairLock.set, hjo] using hj.ticket }

/-- A step that the fair lock allows and follows. -/
def Follows (l : FairLock) (out : MutexSystem × List MutexEvent) : Prop :=
  fairLock.Accepts l out.2 ∧ ∃ owner, Sim (fairLock.run l out.2) out.1 owner

theorem Sim.silent (h : Sim l s owner) : Follows l (s, []) := ⟨trivial, owner, h⟩

theorem Sim.aside_silent (h : Sim l s owner) (ha : Aside s s' i)
    (hticket : ticketOf (s'.point i) (s'.phase i) = ticketOf (s.point i) (s.phase i)) :
    Follows l (s', []) := by
  have hsame : l.set i (ticketOf (s'.point i) (s'.phase i)) = l := by
    simp [FairLock.set, hticket, ← h.ticket]
  have hsim := h.aside ha
  rw [hsame] at hsim
  exact ⟨trivial, owner, hsim⟩

theorem Sim.onward_silent (h : Sim l s (some o)) (ha : Onward s s' o)
    (hticket : ticketOf (s'.point o) (s'.phase o) = ticketOf (s.point o) (s.phase o))
    (hstage : stageAt o (s'.point o) = stageAt o (s.point o)) : Follows l (s', []) := by
  have hsame : { l.set o (ticketOf (s'.point o) (s'.phase o)) with
      stage := stageAt o (s'.point o) } = l := by
    have hstage' : l.stage = stageAt o (s.point o) := h.stage
    simp [FairLock.set, hticket, ← h.ticket, hstage, ← hstage']
  have hsim := h.onward ha
  rw [hsame] at hsim
  exact ⟨trivial, some o, hsim⟩

theorem line_none (s : MutexSystem) (h : s.residual = []) (hword : s.word = .notLocked) :
    line s none = [] := by
  simp [line, h, hword, LockWord.waiters]

theorem Sim.drainer_none (h : Sim l s owner) (hdraining : s.draining = false) :
    l.drainer = none := by
  by_contra hne
  simp [h.drainer.mp hne] at hdraining

attribute [local simp] Token Unlisted Fresh Late Sane ticketOf handing chainOf Taken countOf
  stageAt stageOf given fairLock FairLock.next FairLock.set

theorem Sim.acquire (h : Sim l s owner) (hdraining : s.draining = false)
    (hfree : s.word = .notLocked) (hunlisted : Unlisted (s.point i))
    (hcalling : ticketOf (s.point i) (s.phase i) = .calling)
    (hpoint : ∀ j, j ≠ i → s'.point j = s.point j)
    (hpointi : s'.point i = .fastCount ∨ s'.point i = .slowCount)
    (hs' : s' = { s with word := .locked [], point := s'.point }) :
    Follows l (s', [.granted i]) := by
  obtain rfl : owner = none := (h.word hdraining).mpr hfree
  have hempty := line_none s (h.free rfl) hfree
  have hqueue : l.queue = [] := by
    rw [h.queue, hempty]
    rfl
  have hline : line s' (some i) = [] := by
    rw [hs']
    obtain hq | hq := hpointi <;> simp [line, hq, h.free rfl]
  have hgiven : given s' (some i) = none := by obtain hq | hq := hpointi <;> simp [hq]
  have hphase : s'.phase = s.phase := by rw [hs']
  have hdraining' : s'.draining = s.draining := by rw [hs']
  have hholders : s.activeHolders = 0 := h.holders
  refine ⟨⟨⟨h.drainer_none hdraining, .inl ⟨h.stage, hqueue, (h.ticket i).trans hcalling⟩⟩, trivial⟩,
    some i, .of_placed
      { nodup := by simp [hline]
        taken := fun _ _ _ => by rw [hs']; exact h.free rfl
        free := fun ho => absurd ho (by simp)
        word := fun _ => iff_of_false (by simp) (by rw [hs']; simp)
        holders := by obtain hq | hq := hpointi <;> rw [hs'] <;> simp [hholders, hq]
        late := fun hd => absurd hd (by simp [hdraining', hdraining])
        stage := by obtain hq | hq := hpointi <;> simp [hq]
        queue := by simp [hqueue, hline]
        drainer := by rw [hs']; exact h.drainer
        finished := by rw [hs']; exact h.finished } fun j => ?_⟩
  rw [hline, hgiven, hdraining', hphase]
  by_cases hji : j = i
  · subst hji
    have hqueued := (h.unlisted j hunlisted).2
    obtain hq | hq := hpointi <;> constructor <;> simp [hq, hqueued, hdraining]
  rw [hpoint j hji]
  have hj := h.placed j
  rw [hempty] at hj
  simpa [hji] using hj.congr (by simp [Ne.symm hji]) Iff.rfl Iff.rfl

theorem Sim.push (h : Sim l s owner) (hdraining : s.draining = false)
    (hlocked : s.word ≠ .notLocked) (hfresh : Fresh (s.point i))
    (hcalling : ticketOf (s.point i) (s.phase i) = .calling)
    (hpoint : ∀ j, j ≠ i → s'.point j = s.point j) (hpointi : s'.point i = .queued)
    (hs' : s' = { s with word := .locked (i :: s.word.waiters), point := s'.point }) :
    Follows l (s', [.queued i]) := by
  obtain ⟨o, rfl⟩ : ∃ o, owner = some o :=
    Option.ne_none_iff_exists'.mp fun hnone => hlocked ((h.word hdraining).mp hnone)
  obtain ⟨hnot, hphasei⟩ := h.unlisted i (unlisted_of_fresh hfresh)
  have hoi : o ≠ i := by
    rintro rfl
    exact not_fresh_of_token ((h.token o).mpr rfl) hfresh
  have hheir : given s (some o) ≠ some i := by
    intro hheir
    rw [((h.placed i).handed hheir).1] at hfresh
    exact hfresh
  have hphase : s'.phase = s.phase := by rw [hs']
  have hdraining' : s'.draining = s.draining := by rw [hs']
  have hline : line s' (some o) = line s (some o) ++ [i] := by
    rw [hs']
    simp [line, hpoint o hoi]
  obtain ⟨hgiven, hstage, hcount⟩ := @owner_congr s (some o) s'
    fun o' ho => hpoint o' (Option.some.inj ho ▸ hoi)
  have hheld : l.stage ≠ .free := by
    rw [h.stage]
    simp only [stageOf, stageAt]
    split
    · simp
    · split <;> simp
  refine ⟨⟨⟨(h.ticket i).trans hcalling, hheld⟩, trivial⟩, some o, Sim.of_placed
      { nodup := by
          rw [hline, nodup_append]
          refine ⟨h.nodup, by simp, fun a ha b hb hab => hnot ?_⟩
          rwa [← mem_singleton.mp hb, ← hab]
        taken := fun o' ho ht => by
          rw [hpoint o' (Option.some.inj ho ▸ hoi)] at ht
          rw [hs']
          exact h.taken o' ho ht
        free := fun ho => absurd ho (by simp)
        word := fun _ => iff_of_false (by simp) (by rw [hs']; simp)
        holders := by
          rw [hcount, ← h.holders, hs']
        late := fun hd => absurd hd (by simp [hdraining', hdraining])
        stage := h.stage.trans hstage.symm
        queue := by simp [h.queue, hline, hphase, hphasei]
        drainer := by rw [hs']; exact h.drainer
        finished := by rw [hs']; exact h.finished } fun j => ?_⟩
  rw [hline, hgiven, hdraining', hphase]
  by_cases hji : j = i
  · subst hji
    constructor <;> simp [hpointi, hphasei, hoi, hheir, hdraining, -given]
  rw [hpoint j hji]
  simpa [hji] using (h.placed j).congr Iff.rfl (by simp [hji]) Iff.rfl

theorem Sim.not_draining (h : Sim l s owner) (hi : ¬ Late (s.point i)) : s.draining = false := by
  cases hd : s.draining with
  | false => rfl
  | true => exact absurd ((h.late hd).1 i) hi

/-- Without the one whose phase changed, the queue is who is still queued. -/
theorem filter_erase {chain : List ℕ} {f g : ℕ → WaiterPhase} (hnodup : chain.Nodup)
    (hother : ∀ j, j ≠ i → g j = f j) (hi : g i ≠ .queued) :
    (chain.filter (f · = .queued)).erase i = chain.filter (g · = .queued) := by
  rw [List.Nodup.erase_eq_filter (hnodup.filter _), filter_filter]
  refine filter_congr fun j _ => ?_
  by_cases hji : j = i
  · subst hji
    simp [hi]
  · simp [hji, hother j hji]

theorem Sim.cancelled (h : Sim l s owner) (hi : s.point i ≠ .queued) (hin : i ∈ line s owner) :
    s.phase i = .cancelled :=
  (h.standing i hin).resolve_left fun hq => hi hq.1

theorem Sim.grant {w : ℕ} {source : ChainSource} {rest : List ℕ} (h : Sim l s (some o))
    (hpointo : s.point o = .unlocking (.tryGrant source w rest)) (hqueued : s.phase w = .queued)
    (hs' : s' = (s.setPhase w .granted).move o (.unlocking (.countGrant w rest))) :
    Follows l (s', [.granted w]) := by
  have hline : line s (some o) = w :: (rest ++ (s.residual ++ s.word.waiters.reverse)) := by
    simp [line, hpointo]
  have hnodup := h.nodup
  rw [hline, nodup_cons] at hnodup
  have hin : w ∈ line s (some o) := by simp [hline]
  obtain ⟨hpointw, -⟩ : s.point w = .queued ∧ s.phase w = .queued :=
    (h.standing w hin).resolve_right (by simp [hqueued])
  have hwo : w ≠ o := by
    rintro rfl
    simp [hpointo] at hpointw
  have hdraining : s.draining = false := h.not_draining (i := o) (by simp [hpointo])
  have hpoint : ∀ j, j ≠ o → s'.point j = s.point j := fun j hj => by
    rw [hs']
    simp [move, setPhase, hj]
  have hpointo' : s'.point o = .unlocking (.countGrant w rest) := by simp [hs']
  have hphase : ∀ j, j ≠ w → s'.phase j = s.phase j := fun j hj => by
    rw [hs']
    simp [move, setPhase, hj]
  have hphasew : s'.phase w = .granted := by simp [hs', move, setPhase]
  have hline' : line s' (some o) = rest ++ (s.residual ++ s.word.waiters.reverse) := by
    simp [line, hs', move, setPhase]
  rw [← hline'] at hline hnodup
  have hqueue : l.queue = w :: (line s' (some o)).filter (s'.phase · = .queued) := by
    rw [h.queue, hline, filter_cons_of_pos (by simp [hqueued])]
    refine congrArg (w :: ·) (filter_congr fun j hj => ?_)
    rw [hphase j fun hjw => hnodup.1 (hjw ▸ hj)]
  have hstage : l.stage = .passing := by simp [h.stage, hpointo]
  have hholders : s.activeHolders = 0 := by simpa [hpointo] using h.holders
  have hdraining' : s'.draining = s.draining := by rw [hs']; rfl
  refine ⟨⟨⟨h.drainer_none hdraining, .inr ⟨hstage, by simp [hqueue], ?_⟩⟩, trivial⟩, some o,
    Sim.of_placed
      { nodup := hnodup.2
        taken := fun _ _ _ => by rw [hs']; exact h.taken o rfl (by simp [hpointo])
        free := fun ho => absurd ho (by simp)
        word := by rw [hs']; exact h.word
        holders := by rw [hs']; simpa [move, setPhase] using hholders
        late := fun hd => absurd hd (by simp [hdraining', hdraining])
        stage := by simp [hpointo']
        queue := by simp [hqueue]
        drainer := by rw [hs']; exact h.drainer
        finished := by rw [hs']; exact h.finished } fun j => ?_⟩
  · simp [h.ticket, hpointw, hqueued]
  rw [show given s' (some o) = some w by simp [hpointo'], hdraining']
  by_cases hjw : j = w
  · subst hjw
    constructor <;> simp [hpoint j hwo, hpointw, hphasew, hnodup.1, hwo.symm, hdraining]
  by_cases hjo : j = o
  · subst hjo
    have hstands : j ∈ line s' (some j) → s.phase j = .cancelled := fun hj =>
      h.cancelled (by simp [hpointo]) (by rw [hline]; exact mem_cons_of_mem _ hj)
    constructor <;> simp [hpointo', hphase j hjw, h.ticket, hpointo, hjw, Ne.symm hjw, hdraining]
    exact hstands
  · rw [hpoint j hjo, hphase j hjw]
    simpa [hjw] using (h.placed j).congr Iff.rfl (by simp [hline, hjw])
      (by simp [hpointo, Ne.symm hjw])

/-- An unlock posts the resumption of the waiter it has granted: the waiter is the owner
from here on. -/
theorem Sim.handOver {w : ℕ} (h : Sim l s (some o)) (hpointo : s.point o = .unlocking (.resume w))
    (hpoint : ∀ j, j ≠ o → j ≠ w → s'.point j = s.point j) (hpointo' : s'.point o = .done)
    (hpointw' : s'.point w = .posted .guard)
    (hs' : s' = { s with point := s'.point, inFlight := s'.inFlight, resumers := s'.resumers }) :
    Follows l (s', []) := by
  obtain ⟨hpointw, hphasew⟩ := h.handed o w rfl (by simp [hpointo])
  have hdraining : s.draining = false := h.not_draining (i := o) (by simp [hpointo])
  have hphase : s'.phase = s.phase := by rw [hs']
  have hdraining' : s'.draining = s.draining := by rw [hs']
  have hline : line s' (some w) = line s (some o) := by
    rw [hs']
    simp [line, hpointo, hpointw']
  have hholders : s.activeHolders = 1 := by simpa [hpointo] using h.holders
  refine ⟨trivial, some w, Sim.of_placed
      { nodup := hline ▸ h.nodup
        taken := fun o' ho ht => by simp [← Option.some.inj ho, hpointw'] at ht
        free := fun ho => absurd ho (by simp)
        word := fun _ => iff_of_false (by simp) (by
          rw [hs']
          exact fun hword => absurd ((h.word hdraining).mpr hword) (by simp))
        holders := by rw [hs']; simpa [hpointw'] using hholders
        late := fun hd => absurd hd (by simp [hdraining', hdraining])
        stage := by rw [fairLock.run_nil, h.stage]; simp [hpointo, hpointw']
        queue := by rw [fairLock.run_nil, h.queue, hline, hphase]
        drainer := by rw [hs']; exact h.drainer
        finished := by rw [hs']; exact h.finished } fun j => ?_⟩
  rw [show given s' (some w) = none by simp [hpointw'], hline, hdraining', hphase, fairLock.run_nil,
    h.ticket]
  by_cases hjw : j = w
  · subst hjw
    have hnot : j ∉ line s (some o) := fun hin => by simpa [hphasew] using h.standing j hin
    constructor <;> simp [hpointw, hpointw', hphasew, hnot, hdraining]
  by_cases hjo : j = o
  · subst hjo
    constructor <;> simp [hpointo', hpointo, Ne.symm hjw, hdraining]
    exact h.cancelled (by simp [hpointo])
  rw [hpoint j hjo hjw, ← h.ticket]
  exact (h.placed j).congr (by simp [Ne.symm hjw, Ne.symm hjo]) Iff.rfl
    (by simp [hpointo, Ne.symm hjw])

theorem Sim.setFree (h : Sim l s (some o))
    (hpointo : s.point o = .unlocking .terminalCas ∨ s.point o = .unlocking .drainCas)
    (hword : s.word = .locked []) (hresidual : s.residual = [])
    (hpoint : ∀ j, j ≠ o → s'.point j = s.point j) (hpointo' : s'.point o = .done)
    (hs' : s' = { s with word := .notLocked, point := s'.point }) : Follows l (s', [.freed o]) := by
  have hline : line s (some o) = [] := by
    obtain ho | ho := hpointo <;> simp [line, ho, hresidual, hword]
  have hgiven : given s (some o) = none := by obtain ho | ho := hpointo <;> simp [ho]
  have hqueue : l.queue = [] := by
    rw [h.queue, hline]
    rfl
  have hphase : s'.phase = s.phase := by rw [hs']
  have hdraining' : s'.draining = s.draining := by rw [hs']
  have hresidual' : s'.residual = [] := by rw [hs']; exact hresidual
  have hword' : s'.word = .notLocked := by rw [hs']
  have hline' : line s' none = [] := line_none s' hresidual' hword'
  have hstage : l.stage = .passing := by obtain ho | ho := hpointo <;> simp [h.stage, ho]
  have hholders : s.activeHolders = 0 := by
    obtain ho | ho := hpointo <;> simpa [ho] using h.holders
  have hticket : l.ticket o = .completed := by
    obtain ho | ho := hpointo <;> simp [h.ticket, ho]
  refine ⟨⟨⟨hstage, hqueue⟩, trivial⟩, none, .of_placed
      { nodup := by simp [hline']
        taken := fun _ _ _ => hresidual'
        free := fun _ => hresidual'
        word := fun _ => iff_of_true rfl hword'
        holders := by rw [hs']; exact hholders
        late := fun _ => ⟨hresidual', by simp [hword', LockWord.waiters], by simp⟩
        stage := rfl
        queue := by simp [hqueue, hline']
        drainer := by rw [hs']; exact h.drainer
        finished := by rw [hs']; exact h.finished } fun j => ?_⟩
  rw [hline', show given s' none = none from rfl, hphase, hdraining']
  by_cases hjo : j = o
  · subst hjo
    constructor <;> simp [hpointo', hticket]
  have hj := h.placed j
  rw [hline, hgiven] at hj
  rw [hpoint j hjo]
  simpa using hj.congr (by simp [Ne.symm hjo]) Iff.rfl Iff.rfl

/-- A waiter in the line is cancelled: it stands on, and is not waited for. -/
theorem Sim.takeOut (h : Sim l s owner) (hpointi : s.point i = .queued)
    (hphasei : s.phase i = .queued) (hpoint : ∀ j, j ≠ i → s'.point j = s.point j)
    (hpointi' : s'.point i = .schedule .aborted) (hphase : ∀ j, j ≠ i → s'.phase j = s.phase j)
    (hphasei' : s'.phase i = .cancelled)
    (hs' : s' = { s with phase := s'.phase, point := s'.point }) :
    Follows l (s', [.cancelled i]) := by
  have hdraining : s.draining = false := h.not_draining (i := i) (by simp [hpointi])
  have hdraining' : s'.draining = s.draining := by rw [hs']
  have hnot : owner ≠ some i := by
    intro ho
    exact ne_queued_of_token ((h.token i).mpr ho) hpointi
  have hsame : ∀ o, owner = some o → s'.point o = s.point o := by
    intro o ho
    refine hpoint o ?_
    rintro rfl
    exact hnot ho
  have hheir : given s owner ≠ some i := by
    intro hheir
    simpa [hphasei] using ((h.placed i).handed hheir).2
  have hline : line s' owner = line s owner :=
    line_of_point s s' owner (fun o ho => by rw [hsame o ho]) (by rw [hs']) (by rw [hs'])
  obtain ⟨hgiven, hstage, hcount⟩ := owner_congr hsame
  have hticket : l.ticket i = .waiting := by simp [h.ticket, hpointi, hphasei]
  refine ⟨⟨hticket, trivial⟩, owner, Sim.of_placed
      { nodup := hline ▸ h.nodup
        taken := fun o ho ht => by
          rw [hsame o ho] at ht
          rw [hs']
          exact h.taken o ho ht
        free := fun ho => by rw [hs']; exact h.free ho
        word := by rw [hs']; exact h.word
        holders := by rw [hcount, ← h.holders, hs']
        late := fun hd => absurd hd (by simp [hdraining', hdraining])
        stage := h.stage.trans hstage.symm
        queue := by
          rw [hline]
          exact (congrArg (List.erase · i) h.queue).trans
            (filter_erase h.nodup hphase (by simp [hphasei']))
        drainer := by rw [hs']; exact h.drainer
        finished := by rw [hs']; exact h.finished } fun j => ?_⟩
  rw [hline, hgiven, hdraining']
  by_cases hji : j = i
  · subst hji
    constructor <;> simp [hpointi', hphasei', hnot, hheir, hdraining, -given]
  rw [hpoint j hji, hphase j hji]
  simpa [hji] using h.placed j

end Frames

end Fixpp.Analysis.Mutex
