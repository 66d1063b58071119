import Fixpp.Analysis.Decimal

/-!
# Fields written and read back

A list of fields written one after the other is read back as that list (`splitFields_rendered`)
when each value ends where the reader looks for its end: at the next SOH, or, behind a Length
field, after the counted bytes. `Readable` says so with the carry the reader arrives with.
-/

namespace Fixpp.Model

open Foundation Writer List

/-- The fields the header scan reads, each with its value. -/
def splitFields (hooks : DictHooks) (frame : Bytes) : List Field :=
  (headerCut hooks frame).fields.map fun f => (f.tag, f.value frame)

def Readable (hooks : DictHooks) : LengthDataCarry → List Field → Prop
  | _, [] => True
  | carry, f :: rest => f.1 ≤ tagMax ∧ EndsRight carry f ∧ Readable hooks (carry.next hooks f) rest

variable {hooks : DictHooks} {carry : LengthDataCarry} {f : Field} {fields : List Field}

theorem readValue_rendered (h : EndsRight carry f) (rest : Bytes) :
    carry.readValue hooks f.1 (f.2 ++ soh :: rest) = some (f.2, soh :: rest, carry.next hooks f) :=
  readValue_iff.mpr ⟨rfl, h, .inr ⟨rest, rfl⟩, rfl⟩

theorem readTag_rendered {tag : ℕ} (h : tag ≤ tagMax) (value : Bytes) :
    readTag false 0 (renderU32 tag ++ equalsSign :: value) = some (tag, value) :=
  readTag_iff.mpr ⟨renderU32 tag, renderU32_ne_nil tag, rfl, tagFrom_renderU32 h⟩

theorem fieldBytes_append (f : Field) (rest : Bytes) :
    fieldBytes f ++ rest = renderU32 f.1 ++ equalsSign :: (f.2 ++ soh :: rest) := by
  simp [fieldBytes]

theorem fieldBytes_eq {tag : ℕ} {text : String} (h : renderU32 tag ++ [equalsSign] = ascii text)
    (value : Bytes) : fieldBytes (tag, value) = ascii text ++ value ++ [soh] := by
  rw [fieldBytes, ← h]
  simp

theorem fieldBytes_eight (value : Bytes) : fieldBytes (8, value) = ascii "8=" ++ value ++ [soh] :=
  fieldBytes_eq (by decide) value

theorem fieldBytes_nine (value : Bytes) : fieldBytes (9, value) = ascii "9=" ++ value ++ [soh] :=
  fieldBytes_eq (by decide) value

theorem fieldBytes_ten (value : Bytes) : fieldBytes (10, value) = ascii "10=" ++ value ++ [soh] :=
  fieldBytes_eq (by decide) value

theorem headerRead_rendered (hooks : DictHooks) (n : ℕ) (htag : f.1 ≤ tagMax)
    (hend : EndsRight carry f) (rest : Bytes) :
    headerRead hooks n carry (fieldBytes f ++ rest) =
      some ({ tag := f.1, start := n - (f.2 ++ soh :: rest).length
              stop := n - (soh :: rest).length }, rest, carry.next hooks f) := by
  unfold headerRead
  rw [fieldBytes_append, readTag_rendered htag]
  dsimp only
  rw [readValue_rendered hend]
  rfl

theorem fieldBytes_ne_nil (f : Field) : fieldBytes f ≠ [] := by
  simp [fieldBytes]

theorem cut_rendered {frame : Bytes} (fields : List Field) (fuel : ℕ) (carry : LengthDataCarry)
    (h : Readable hooks carry fields) (hfuel : fields.length ≤ fuel)
    (hsuffix : fields.flatMap fieldBytes <:+ frame) :
    let c := (headerRead hooks frame.length).cut fuel carry (fields.flatMap fieldBytes)
    c.items.map (fun f => (f.tag, f.value frame)) = fields ∧ c.stuck = none := by
  refine Reader.cut_written fieldBytes_ne_nil (fun carry f rest hready hsuffix => ?_) fields h hfuel
    hsuffix
  obtain ⟨htag, hend, hrest⟩ := hready
  have hread := headerRead_rendered hooks frame.length htag hend (rest.flatMap fieldBytes)
  have hvalue : f.2 ++ soh :: rest.flatMap fieldBytes <:+ frame := by
    rw [fieldBytes_append] at hsuffix
    exact List.IsSuffix.trans ⟨renderU32 f.1 ++ [equalsSign], by simp⟩ hsuffix
  refine ⟨_, _, hread, ?_, hrest⟩
  rw [value_eq_of_suffix hvalue rfl]

theorem length_le_flatMap_fieldBytes (fields : List Field) :
    fields.length ≤ (fields.flatMap fieldBytes).length := by
  induction fields with
  | nil => exact Nat.le_refl 0
  | cons f fields ih =>
    rw [flatMap_cons, length_append, length_cons]
    have hone : 1 ≤ (fieldBytes f).length := by
      rw [fieldBytes, length_append, length_singleton]
      omega
    omega

theorem splitFields_rendered (h : Readable hooks {} fields) :
    splitFields hooks (fields.flatMap fieldBytes) = fields ∧
      (headerCut hooks (fields.flatMap fieldBytes)).malformedAt = none := by
  obtain ⟨hitems, hstuck⟩ := cut_rendered fields (fields.flatMap fieldBytes).length {} h
    (length_le_flatMap_fieldBytes fields) (suffix_refl _)
  refine ⟨hitems, ?_⟩
  unfold headerCut
  dsimp only
  rw [hstuck]
  rfl

/-! ## Neighbours -/

/-- The value of `g`, right behind `f`, ends where the reader looks for its end. -/
def Follows (hooks : DictHooks) (f g : Field) : Prop :=
  EndsRight (LengthDataCarry.next hooks {} f) g

/-- What the carry held in front of the field before does not matter. -/
theorem endsRight_next {g : Field} : EndsRight (carry.next hooks f) g ↔ Follows hooks f g := by
  unfold Follows EndsRight LengthDataCarry.next
  by_cases hpair : hooks f.1 ≠ 0
  · simp only [if_pos hpair]
  · simp [hpair]

theorem readable_cons_iff : Readable hooks carry (f :: fields) ↔
      (∀ g ∈ f :: fields, g.1 ≤ tagMax) ∧ EndsRight carry f ∧
        (f :: fields).IsChain (Follows hooks) := by
  induction fields generalizing carry f with
  | nil => simp [Readable]
  | cons g fields ih =>
    rw [Readable, ih, endsRight_next, isChain_cons_cons]
    constructor
    · rintro ⟨htag, hend, htags, hfollows, hchain⟩
      exact ⟨forall_mem_cons.mpr ⟨htag, htags⟩, hend, hfollows, hchain⟩
    rintro ⟨htags, hend, hfollows, hchain⟩
    obtain ⟨htag, htags⟩ := forall_mem_cons.mp htags
    exact ⟨htag, hend, htags, hfollows, hchain⟩

/-- No pairs at all: every value ends at the next SOH. -/
def DictHooks.noPairs : DictHooks := fun _ => 0

theorem readable_noPairs (hcarry : carry.dataTag = 0) (htags : ∀ f ∈ fields, f.1 ≤ tagMax)
    (hvalues : ∀ f ∈ fields, ∀ b ∈ f.2, b ≠ soh) : Readable DictHooks.noPairs carry fields := by
  induction fields generalizing carry with
  | nil => trivial
  | cons f fields ih =>
    refine ⟨htags f mem_cons_self, ?_, ?_⟩
    · unfold EndsRight
      rw [if_neg fun h => h.1 hcarry]
      exact hvalues f mem_cons_self
    · exact ih rfl (fun g hg => htags g (mem_cons_of_mem _ hg))
        fun g hg => hvalues g (mem_cons_of_mem _ hg)

end Fixpp.Model
