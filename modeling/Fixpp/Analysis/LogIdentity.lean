import Fixpp.Analysis.FileLog

/-!
# Which log a pair of CompIDs opens

The name of a log is the two CompIDs with a separator between them, which the CompIDs may
contain. Where neither SenderCompID, or neither TargetCompID, can be taken for a part of the
separator, the name gives the pair back.
-/

namespace Fixpp.Analysis

open Model List

variable {sender sender' rest rest' target target' : Bytes}

/-- A log written for a pair of CompIDs: it starts with the sentinel of the pair. -/
def WrittenFor (cfg : FileStoreConfig) (sender target log : Bytes) : Prop :=
  ∃ rest, log = cfg.encode (sentinelRecord (sessionTripleHash sender target)) ++ rest

/-- A store made for the first pair never opens a log written for the second: the names
differ, or the log is refused. -/
def KeptApart (f : FileStoreFactory) (sender target sender' target' : Bytes) : Prop :=
  logFilename sender target ≠ logFilename sender' target' ∨
    ∀ (h : f.maxFrameBytes ≤ 256 * 1024) (files : Bytes → Bytes),
      WrittenFor (f.configFor sender' target' h) sender' target'
        (files (logFilename sender target)) →
      ∃ e, f.make sender target files = .error e

/-- The SenderCompID has no two underscores in a row and does not end in one. -/
abbrev EndsAtSeparator (sender : Bytes) : Prop := ¬ ascii "__" <:+: sender ++ ascii "_"

/-- The TargetCompID has no two underscores in a row and does not start with one. -/
abbrev StartsAtSeparator (target : Bytes) : Prop := ¬ ascii "__" <:+: ascii "_" ++ target

/-- A SenderCompID that ends at the separator is not the longer one of two that give
the same name: the separator behind the shorter one would lie within it. -/
theorem EndsAtSeparator.length_le (h : EndsAtSeparator sender')
    (heq : sender ++ (ascii "__" ++ rest) = sender' ++ (ascii "__" ++ rest')) :
    sender'.length ≤ sender.length := by
  by_contra hlt
  have hlong : sender' ++ ascii "_" <+: sender ++ (ascii "__" ++ rest) := by
    rw [heq]
    exact ⟨ascii "_" ++ rest', by simp [ascii]⟩
  have hshort : sender ++ ascii "__" <+: sender ++ (ascii "__" ++ rest) := by
    rw [← append_assoc]
    exact prefix_append _ _
  have hpre : sender ++ ascii "__" <+: sender' ++ ascii "_" := by
    refine prefix_of_prefix_length_le hshort hlong ?_
    simp only [length_append, ascii, length_map]
    simp
    omega
  exact h ((suffix_append sender (ascii "__")).isInfix.trans hpre.isInfix)

theorem StartsAtSeparator.length_le (h : StartsAtSeparator target')
    (heq : rest ++ (ascii "__" ++ target) = rest' ++ (ascii "__" ++ target')) :
    target'.length ≤ target.length := by
  by_contra hlt
  have hlong : ascii "_" ++ target' <:+ rest ++ (ascii "__" ++ target) := by
    rw [heq]
    exact ⟨rest' ++ ascii "_", by simp [ascii]⟩
  have hsuf : ascii "__" ++ target <:+ ascii "_" ++ target' := by
    refine suffix_of_suffix_length_le (suffix_append _ _) hlong ?_
    simp only [length_append, ascii, length_map]
    simp
    omega
  exact h ((prefix_append (ascii "__") target).isInfix.trans hsuf.isInfix)

theorem logFilename_injective (h : EndsAtSeparator sender ∧ EndsAtSeparator sender' ∨
      StartsAtSeparator target ∧ StartsAtSeparator target')
    (heq : logFilename sender target = logFilename sender' target') :
    sender = sender' ∧ target = target' := by
  have hname := append_cancel_right heq
  simp only [append_assoc] at hname
  obtain ⟨hs, hs'⟩ | ⟨ht, ht'⟩ := h
  · have hlen : sender.length = sender'.length :=
      Nat.le_antisymm (hs.length_le hname.symm) (hs'.length_le hname)
    obtain ⟨hsender, hrest⟩ := append_inj hname hlen
    exact ⟨hsender, append_cancel_left hrest⟩
  have hlen : target.length = target'.length :=
    Nat.le_antisymm (ht.length_le hname.symm) (ht'.length_le hname)
  obtain ⟨hsender, hrest⟩ := append_inj' hname (by simp [hlen])
  exact ⟨hsender, append_cancel_left hrest⟩

def smallFrameFactory : FileStoreFactory := { maxFrameBytes := 64, crc32c := fun _ => 0 }

/-- The log that a store made for the pair `A`, `A__A` starts. -/
def startedLog : Bytes :=
  (smallFrameFactory.configFor (ascii "A") (ascii "A__A") (by decide)).freshLog (targets 1 1)

end Fixpp.Analysis
