import Fixpp.Foundation.Chains
import Fixpp.Model.LengthPairs

/-!
# Parent paths

The walk to the outermost group ends for every table of links. It fails exactly where the links
lead into a cycle, also one that does not pass the start.
-/

namespace Fixpp.Analysis.ParentPath

open Model Foundation Relation

/-- `outer` is the group around `inner`. -/
def IsParent (links : ParentLinks) (outer inner : UInt16) : Prop :=
  inner ≠ 0 ∧ outer ≠ 0 ∧ links.lookup inner = some outer

/-- Tag `t` is `start` or stands somewhere around it. -/
def Encloses (links : ParentLinks) (start t : UInt16) : Prop :=
  start ≠ 0 ∧ ReflTransGen (IsParent links) t start

def MeetsCycle (links : ParentLinks) (start : UInt16) : Prop :=
  ∃ t, Encloses links start t ∧ TransGen (IsParent links) t t

variable {links : ParentLinks} {start cur t : UInt16} {path rev : List UInt16}

theorem isParent_leftUnique : Relator.LeftUnique (IsParent links) := by
  intro a b t ha hb
  exact Option.some.inj (ha.2.2.symm.trans hb.2.2)

theorem isParent_getD (ht : t ≠ 0) (hne : (links.lookup t).getD 0 ≠ 0) :
    IsParent links ((links.lookup t).getD 0) t := by
  cases hl : links.lookup t with
  | none => exact absurd (by rw [hl]; rfl) hne
  | some p =>
    rw [hl] at hne
    exact ⟨ht, hne, hl⟩

theorem Encloses.ne_zero (h : Encloses links start t) : t ≠ 0 := by
  obtain rfl | ⟨_, hp, -⟩ := h.2.cases_head
  · exact h.1
  · exact hp.2.1

/-- The tags in `rev` have been taken, the last one in front, and `cur` comes next. -/
structure Walked (links : ParentLinks) (start : UInt16) (rev : List UInt16) (cur : UInt16) :
    Prop where
  chain : rev.IsChain (IsParent links)
  encloses : ∀ t ∈ rev, Encloses links start t
  started : start ∈ rev ∨ rev = [] ∧ cur = start
  next : ∀ t ∈ rev.head?, cur = (links.lookup t).getD 0
  linked : cur ≠ 0 → ∀ t ∈ rev, t ∈ links.keys

theorem Walked.push (h : Walked links start rev cur) (hcur : cur ≠ 0) :
    Walked links start (cur :: rev) ((links.lookup cur).getD 0) := by
  have hparent : ∀ t ∈ rev.head?, IsParent links cur t := by
    intro t ht
    rw [h.next t ht]
    apply isParent_getD (h.encloses t (List.mem_of_mem_head? ht)).ne_zero
    rwa [← h.next t ht]
  have hencl : Encloses links start cur := by
    cases rev with
    | nil =>
      obtain hmem | ⟨-, rfl⟩ := h.started
      · cases hmem
      · exact ⟨hcur, .refl⟩
    | cons t rev =>
      obtain ⟨hstart, ht⟩ := h.encloses t List.mem_cons_self
      exact ⟨hstart, ht.head (hparent t rfl)⟩
  refine ⟨List.isChain_cons.mpr ⟨hparent, h.chain⟩, ?_, .inl ?_, ?_, ?_⟩
  · exact List.forall_mem_cons.mpr ⟨hencl, h.encloses⟩
  · obtain hmem | ⟨-, rfl⟩ := h.started
    · exact List.mem_cons_of_mem cur hmem
    · exact List.mem_cons_self
  · rintro t ⟨⟩
    rfl
  · intro hne
    have hlinked := (isParent_getD hcur hne).2.2
    exact List.forall_mem_cons.mpr ⟨AList.lookup_isSome.mp (hlinked ▸ rfl), h.linked hcur⟩

/-- The loop ends behind the outermost tag, or at its bound. -/
theorem walkParents_ends (h : Walked links start path.reverse cur) :
    ∃ rev cur', Walked links start rev cur' ∧
      (cur' = 0 ∧ walkParents links path cur = some rev ∨
        cur' ≠ 0 ∧ rev.length > links.keys.length ∧ walkParents links path cur = none) := by
  fun_induction walkParents links path cur with
  | case1 path => exact ⟨_, 0, h, .inl ⟨rfl, rfl⟩⟩
  | case2 path cur hcur hlen =>
    exact ⟨_, cur, h, .inr ⟨hcur, by rwa [List.length_reverse], rfl⟩⟩
  | case3 path cur hcur _ ih =>
    apply ih
    rw [List.reverse_append]
    exact h.push hcur

/-- More tags with a link than links: one was taken twice. -/
theorem Walked.meetsCycle (h : Walked links start rev cur) (hcur : cur ≠ 0)
    (hlen : rev.length > links.keys.length) : MeetsCycle links start := by
  by_contra hno
  have hnodup : rev.Nodup := nodup_of_isChain h.chain fun t ht hcycle =>
    hno ⟨t, h.encloses t ht, hcycle⟩
  have hle := (List.subperm_of_subset hnodup (h.linked hcur)).length_le
  omega

section Ended

variable (h : Walked links start rev 0)
include h

theorem Walked.not_isParent {x p : UInt16} (hx : x ∈ rev.head?) : ¬IsParent links p x := by
  intro hp
  have hzero := h.next x hx
  rw [hp.2.2] at hzero
  exact hp.2.1 hzero.symm

theorem Walked.acyclic (ht : t ∈ rev) : ¬TransGen (IsParent links) t t := by
  cases rev with
  | nil => cases ht
  | cons x l =>
    apply not_transGen_of_acc
    apply acc_of_isChain isParent_leftUnique h.chain _ ht
    exact ⟨x, fun p hp => absurd hp (h.not_isParent rfl)⟩

theorem Walked.mem_of_encloses (ht : Encloses links start t) : t ∈ rev := by
  obtain ⟨hstart, hreach⟩ := ht
  induction hreach using ReflTransGen.head_induction_on with
  | refl => exact h.started.resolve_right fun hnil => hstart hnil.2.symm
  | head hp _ ih =>
    cases rev with
    | nil => cases ih
    | cons x l =>
      obtain rfl | hmem := List.mem_cons.mp ih
      · exact absurd hp (h.not_isParent rfl)
      · exact mem_of_rel_mem isParent_leftUnique h.chain hmem hp

end Ended

/-- The walk fails exactly where the links run into a cycle; otherwise it gives `start` and all
that stands around it, outermost first and each tag once. -/
theorem parent_path_exact (links : ParentLinks) (start : UInt16) :
    (groupParentPath links start = none ↔ MeetsCycle links start) ∧
      ∀ path, groupParentPath links start = some path →
        path.Nodup ∧ path.IsChain (IsParent links) ∧ ∀ t, t ∈ path ↔ Encloses links start t := by
  have hstart : Walked links start [].reverse start := by constructor <;> simp
  unfold groupParentPath
  obtain ⟨rev, cur, h, ⟨rfl, heq⟩ | ⟨hcur, hlen, heq⟩⟩ := walkParents_ends hstart
  · simp only [heq, reduceCtorEq, false_iff, Option.some.injEq, forall_eq']
    refine ⟨?_, nodup_of_isChain h.chain fun t => h.acyclic, h.chain, fun t => ?_⟩
    · rintro ⟨t, ht, hcycle⟩
      exact h.acyclic (h.mem_of_encloses ht) hcycle
    · exact ⟨h.encloses t, h.mem_of_encloses⟩
  · simp [heq, h.meetsCycle hcur hlen]

end Fixpp.Analysis.ParentPath
