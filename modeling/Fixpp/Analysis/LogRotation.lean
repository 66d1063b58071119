import Fixpp.Model.FileSink

/-!
# What a rotation does to a shared directory

Archives are told by their names: `<base>.`, something and `.log`. Sinks leave each other's
files alone as long as no base name goes on from another with a dot.
-/

namespace Fixpp.Analysis.LogRotation

open Model Model.FileSinkConfig List

variable {cfg other : FileSinkConfig} {dir : List LogFile} {suffix : Bytes} {renames : Bool}
  {sinks : List FileSinkConfig} {f : LogFile}

theorem freeCandidate_some {name : Bytes} (fuel counter : ℕ)
    (h : cfg.freeCandidate dir suffix fuel counter = some name) :
    ∃ s, name = cfg.archivePath s := by
  induction fuel generalizing counter with
  | zero => cases h
  | succ fuel ih =>
    rw [freeCandidate] at h
    split at h
    · exact ih _ h
    cases h
    exact ⟨_, rfl⟩

theorem archiveLive_eq (cfg : FileSinkConfig) (dir : List LogFile) (suffix : Bytes) :
    cfg.archiveLive dir suffix = dir ∨ ∃ s, cfg.archiveLive dir suffix = dir.map fun f =>
      if f.name = cfg.livePath then
        { f with name := cfg.archivePath s, archivedBy := cfg.baseName } else f := by
  unfold archiveLive
  dsimp only
  split
  · exact .inl rfl
  next name hname =>
  split at hname
  · obtain ⟨s, rfl⟩ := freeCandidate_some _ _ hname
    exact .inr ⟨s, rfl⟩
  cases hname
  exact .inr ⟨suffix, rfl⟩

theorem mem_rotate (h : f ∈ cfg.rotate dir suffix renames) :
    f = { name := cfg.livePath } ∨ f ∈ dir ∨ ∃ g ∈ dir, g.name = cfg.livePath ∧
      ∃ s, f = { g with name := cfg.archivePath s, archivedBy := cfg.baseName } := by
  rcases mem_append.mp h with h | h
  · have h := mem_of_mem_filter h
    split at h
    · rcases archiveLive_eq cfg dir suffix with heq | ⟨s, heq⟩ <;> rw [heq] at h
      · exact .inr (.inl h)
      obtain ⟨g, hg, rfl⟩ := mem_map.mp h
      split
      next hlive => exact .inr (.inr ⟨g, hg, hlive, s, rfl⟩)
      · exact .inr (.inl hg)
    · exact .inr (.inl h)
  · exact .inl (mem_singleton.mp h)

theorem not_mem_rotate (h : f ∈ dir) (hgone : f ∉ cfg.rotate dir suffix renames) :
    f.name = cfg.livePath ∨ cfg.isArchived f.name = true := by
  by_contra! hf
  have hkept : f ∈ if renames then cfg.archiveLive dir suffix else dir := by
    split
    · rcases archiveLive_eq cfg dir suffix with heq | ⟨s, heq⟩ <;> rw [heq]
      · exact h
      · exact mem_map.mpr ⟨f, h, if_neg hf.1⟩
    · exact h
  refine hgone (mem_append_left _ (mem_filter.mpr ⟨hkept, ?_⟩))
  simp only [hf.1, decide_eq_true_eq, not_false_eq_true, and_true, ne_eq]
  intro hremoved
  have hlisted := mem_of_mem_take hremoved
  rw [listArchived, mem_insertionSort, mem_filter] at hlisted
  exact hf.2 hlisted.2

/-- No base name goes on from another with a dot. -/
def Apart (sinks : List FileSinkConfig) : Prop :=
  ∀ b ∈ sinks, ∀ c ∈ sinks, ¬ b.baseName ++ ascii "." <+: c.baseName

def Ascribed (sinks : List FileSinkConfig) (dir : List LogFile) : Prop :=
  ∀ f ∈ dir, ∀ c ∈ sinks, c.isArchived f.name = true → f.archivedBy = c.baseName

theorem baseName_eq {x : Bytes} (hapart : Apart sinks) (hcfg : cfg ∈ sinks)
    (hother : other ∈ sinks) (h : other.isArchived (cfg.baseName ++ ascii "." ++ x) = true) :
    other.baseName = cfg.baseName := by
  have hown : cfg.baseName ++ ascii "." <+: cfg.baseName ++ ascii "." ++ x := prefix_append ..
  have hprefix : other.baseName ++ ascii "." <+: cfg.baseName ++ ascii "." ++ x := by
    simp only [isArchived, Bool.and_eq_true] at h
    exact isPrefixOf_iff_prefix.mp h.1.1.2
  rcases prefix_or_prefix_of_prefix hprefix hown with hle | hle
  · rcases prefix_concat_iff.mp hle with heq | hlt
    · exact append_cancel_right heq
    · exact absurd hlt (hapart _ hother _ hcfg)
  rcases prefix_concat_iff.mp hle with heq | hlt
  · exact (append_cancel_right heq).symm
  · exact absurd hlt (hapart _ hcfg _ hother)

theorem ascribed_rotate (hapart : Apart sinks) (hcfg : cfg ∈ sinks) (h : Ascribed sinks dir) :
    Ascribed sinks (cfg.rotate dir suffix renames) := by
  intro f hf c hc harchived
  rcases mem_rotate hf with rfl | hdir | ⟨g, hg, hlive, s, rfl⟩
  · have hbase : c.baseName = cfg.baseName := by
      apply baseName_eq hapart hcfg hc (x := ascii "log")
      rwa [append_assoc]
    simp [isArchived, livePath, hbase] at harchived
  · exact h f hdir c hc harchived
  rw [archivePath, append_assoc] at harchived
  rw [baseName_eq hapart hcfg hc harchived]

def rotations (dir : List LogFile) (run : List (FileSinkConfig × Bytes × Bool)) : List LogFile :=
  run.foldl (fun dir r => r.1.rotate dir r.2.1 r.2.2) dir

def sharedDir : List LogFile :=
  [{ name := ascii "fix.log" }, { name := ascii "gw.1.log", archivedBy := ascii "gw" }]

end Fixpp.Analysis.LogRotation

/-! ## The newest lines are kept

A sink alone in its directory loses its oldest archives only, as long as every rename succeeds
and the name of a new archive sorts behind those of the others. -/

namespace Fixpp.Analysis.LogSuffix

open Model Model.FileSinkConfig List

variable {cfg : FileSinkConfig} {archives : List LogFile} {live f : LogFile} {suffix : Bytes}
  {emitted : List Bytes}

/-- Archives in the order of their names. -/
structure Archives (cfg : FileSinkConfig) (archives : List LogFile) : Prop where
  archived : ∀ f ∈ archives, cfg.isArchived f.name = true
  sorted : (archives.map (·.name)).Pairwise (· < ·)

theorem not_isArchived_livePath : cfg.isArchived cfg.livePath = false := by
  simp [isArchived]

theorem isArchived_archivePath (h : suffix ≠ []) :
    cfg.isArchived (cfg.archivePath suffix) = true := by
  have hpos := length_pos_iff.mpr h
  have hlength : cfg.livePath.length + 1 < (cfg.archivePath suffix).length := by
    simp [archivePath, livePath, ascii]
    omega
  simp only [isArchived, Bool.and_eq_true, decide_eq_true_eq, bne_iff_ne, isPrefixOf_iff_prefix,
    isSuffixOf_iff_suffix]
  refine ⟨⟨⟨?_, ?_⟩, suffix_append _ _⟩, ?_⟩
  · simp [livePath, ascii] at hlength ⊢
    omega
  · rw [archivePath, append_assoc]
    exact prefix_append _ _
  · intro heq
    rw [heq] at hlength
    omega

namespace Archives

variable (h : Archives cfg archives)
include h

theorem name_ne (hf : f ∈ archives) : f.name ≠ cfg.livePath := by
  intro hname
  have harchived := h.archived f hf
  rw [hname, not_isArchived_livePath] at harchived
  cases harchived

theorem listArchived : cfg.listArchived archives = archives.map (·.name) := by
  rw [FileSinkConfig.listArchived, filter_eq_self.mpr (by simpa using h.archived)]
  exact (h.sorted.imp List.le_of_lt).insertionSort_eq

theorem of_suffix {kept : List LogFile} (hkept : kept <:+ archives) : Archives cfg kept where
  archived f hf := h.archived f (hkept.mem hf)
  sorted := h.sorted.sublist (hkept.sublist.map _)

theorem removed (k : ℕ) :
    archives.filter (fun f => f.name ∉ (archives.map (·.name)).take k) = archives.drop k := by
  induction archives generalizing k with
  | nil => simp
  | cons f archives ih =>
    cases k with
    | zero => simp
    | succ k =>
      rw [drop_succ_cons, ← ih (h.of_suffix (suffix_cons _ _)) k, filter_cons_of_neg (by simp)]
      apply filter_congr
      intro g hg
      have hlt := rel_of_pairwise_cons h.sorted (mem_map_of_mem hg)
      have hne : g.name ≠ f.name := fun heq => List.lt_irrefl _ (heq ▸ hlt)
      simp [hne]

end Archives

/-- The name of the archive of a rotation sorts behind those of the other archives. -/
def sortsLast (cfg : FileSinkConfig) (dir : List LogFile) (suffix : Bytes) : Bool :=
  suffix ≠ [] ∧ ∀ f ∈ dir, cfg.isArchived f.name → f.name < cfg.archivePath suffix

theorem archiveLive_eq (h : Archives cfg archives) (hlive : live.name = cfg.livePath)
    (hlast : sortsLast cfg (archives ++ [live]) suffix = true) :
    ∃ newest : LogFile, newest.lines = live.lines ∧ Archives cfg (archives ++ [newest]) ∧
      cfg.archiveLive (archives ++ [live]) suffix = archives ++ [newest] := by
  obtain ⟨hne, hlast⟩ := of_decide_eq_true hlast
  have hlater : ∀ f ∈ archives, f.name < cfg.archivePath suffix := by
    intro f hf
    exact hlast f (mem_append_left _ hf) (h.archived f hf)
  refine ⟨{ live with name := cfg.archivePath suffix, archivedBy := cfg.baseName }, rfl, ?_, ?_⟩
  · constructor
    · simpa [or_imp, forall_and, isArchived_archivePath hne] using h.archived
    · rw [map_append, pairwise_append]
      refine ⟨h.sorted, pairwise_singleton _ _, ?_⟩
      simpa using hlater
  · have hfree : cfg.archivePath suffix ∉ (archives ++ [live]).map (·.name) := by
      rw [map_append, mem_append, mem_map]
      rintro (⟨f, hf, heq⟩ | hmem)
      · exact List.lt_irrefl _ (heq ▸ hlater f hf)
      · have harchived : cfg.isArchived (cfg.archivePath suffix) = true := isArchived_archivePath hne
        rw [(mem_singleton.mp hmem).trans hlive, not_isArchived_livePath] at harchived
        cases harchived
    have hkept : archives.map (fun f => if f.name = cfg.livePath then { f with
        name := cfg.archivePath suffix, archivedBy := cfg.baseName } else f) = archives := by
      rw [map_congr_left fun f hf => if_neg (h.name_ne hf), map_id']
    rw [archiveLive, if_neg hfree]
    dsimp only
    rw [map_append, hkept, map_singleton, if_pos hlive]

/-- A directory of archives and the live file, with the newest lines of those emitted. -/
def NewestKept (cfg : FileSinkConfig) (emitted : List Bytes) (dir : List LogFile) : Prop :=
  dir.flatMap (·.lines) <:+ emitted ∧ ∃ archives live, dir = archives ++ [live] ∧
    live.name = cfg.livePath ∧ Archives cfg archives ∧ archives.length ≤ cfg.maxKeepCount

theorem newestKept_rotate (h : Archives cfg archives) (hlive : live.name = cfg.livePath)
    (hlast : sortsLast cfg (archives ++ [live]) suffix = true)
    (hsuffix : (archives ++ [live]).flatMap (·.lines) <:+ emitted) :
    NewestKept cfg emitted (cfg.rotate (archives ++ [live]) suffix true) := by
  obtain ⟨newest, hlines, hnew, heq⟩ := archiveLive_eq h hlive hlast
  have hrotate : cfg.rotate (archives ++ [live]) suffix true =
      (archives ++ [newest]).drop ((archives ++ [newest]).length - cfg.maxKeepCount) ++
        [{ name := cfg.livePath }] := by
    rw [FileSinkConfig.rotate, if_pos rfl, heq, ← hnew.removed, hnew.listArchived,
      length_map]
    congr 1
    apply filter_congr
    intro f hf
    simp [hnew.name_ne hf]
  rw [hrotate]
  generalize hk : (archives ++ [newest]).length - cfg.maxKeepCount = k
  refine ⟨?_, _, _, rfl, rfl, hnew.of_suffix (drop_suffix k _), by simp at hk ⊢; omega⟩
  have hall : (archives ++ [live]).flatMap (·.lines) = (archives ++ [newest]).flatMap (·.lines) := by
    simp [hlines]
  rw [hall, ← take_append_drop k (archives ++ [newest]), flatMap_append] at hsuffix
  simpa using (suffix_append _ _).trans hsuffix

/-- Every rename succeeds, to a name that sorts behind those of the archives. -/
def inOrder (cfg : FileSinkConfig) : SinkState → List SinkEmit → Bool
  | _, [] => true
  | w, e :: emits =>
    (w.rotates cfg e → e.renames ∧ sortsLast cfg (w.written cfg e) e.suffix) ∧
      inOrder cfg (w.emit cfg e) emits

theorem newestKept_emit {w : SinkState} {e : SinkEmit} (h : NewestKept cfg emitted w.dir)
    (horder : w.rotates cfg e = true →
      e.renames = true ∧ sortsLast cfg (w.written cfg e) e.suffix = true) :
    NewestKept cfg (emitted ++ [e.line]) (w.emit cfg e).dir := by
  obtain ⟨hsuffix, archives, live, hdir, hlive, harchives, hcount⟩ := h
  have hwritten : w.written cfg e =
      archives ++ [{ live with lines := live.lines ++ [e.line] }] := by
    rw [SinkState.written, hdir, map_append, map_singleton, if_pos hlive,
      map_congr_left fun f hf => if_neg (harchives.name_ne hf), map_id']
  have hnewest : (w.written cfg e).flatMap (·.lines) <:+ emitted ++ [e.line] := by
    obtain ⟨lost, rfl⟩ := hsuffix
    exact ⟨lost, by simp [hwritten, hdir]⟩
  unfold SinkState.emit
  split
  next hrotates =>
    obtain ⟨hrenames, hlast⟩ := horder hrotates
    rw [hrenames]
    rw [hwritten] at hlast hnewest ⊢
    exact newestKept_rotate harchives hlive hlast hnewest
  · exact ⟨hnewest, _, _, hwritten, hlive, harchives, hcount⟩

def everyLine : FileSinkConfig := { baseName := ascii "fix", maxFileBytes := 0, maxKeepCount := 1 }

def dirBehind (emits : List SinkEmit) : List LogFile :=
  (emits.foldl (SinkState.emit everyLine) { dir := [{ name := ascii "fix.log" }] }).dir

end Fixpp.Analysis.LogSuffix
