import Fixpp.Model.Authorization

/-!
# The principal of a certificate is not its commonName

The scan looks for `CN=` and the line has ` = ` behind every type, so it never finds the
commonName of a subject (`cnStart_behind_equals`), only text inside a value.
-/

namespace Fixpp.Analysis.CertificatePrincipal

open Model List

/-! ## What the scan finds -/

/-- The scan stops in front of this text. -/
def FoundAt (pre : Option UInt8) (text : Bytes) : Prop :=
  (ascii "CN=").isPrefixOf text = true ∧ dnBoundary pre = true ∧
    (text.drop 3).takeWhile (· ∉ ascii ",") ≠ []

/-- The scan finds nothing in a text behind this byte. -/
def Quiet (pre : Option UInt8) (text : Bytes) : Prop := parseCn pre text = []

variable {pre : Option UInt8}

/-- At the place the scan finds stands the value it returns, behind an equals sign. -/
theorem cnStart_behind_equals {pos start : ℕ} {text : Bytes}
    (h : cnStart pre pos text = some start) :
    ∃ n, start = pos + n + 1 ∧ text[n]? = some 61 ∧
      parseCn pre text = (text.drop (n + 1)).takeWhile (· ∉ ascii ",") := by
  induction text generalizing pre pos with
  | nil => cases h
  | cons b rest ih =>
    unfold cnStart at h
    unfold parseCn
    dsimp only at h ⊢
    split at h
    next hfound =>
      rw [if_pos hfound]
      cases h
      obtain ⟨tail, htail⟩ := isPrefixOf_iff_prefix.mp hfound.1
      refine ⟨2, rfl, ?_, rfl⟩
      rw [← htail]
      rfl
    next hfound =>
      rw [if_neg hfound]
      obtain ⟨n, hstart, hbyte, hvalue⟩ := ih h
      exact ⟨n + 1, by omega, hbyte, hvalue⟩

/-! ## The scan over the printed name -/

theorem quiet_cons (pre : Option UInt8) (b : UInt8) (rest : Bytes) :
    Quiet pre (b :: rest) ↔ ¬FoundAt pre (b :: rest) ∧ Quiet (some b) rest := by
  have hstep : FoundAt pre (b :: rest) ↔ (ascii "CN=").isPrefixOf (b :: rest) = true ∧
      dnBoundary pre = true ∧ (rest.drop 2).takeWhile (· ∉ ascii ",") ≠ [] := .rfl
  unfold Quiet
  rw [parseCn]
  split
  next h => exact iff_of_false h.2.2 fun hno => hno.1 (hstep.mpr h)
  next h => exact (and_iff_right fun hfound => h (hstep.mp hfound)).symm

theorem quiet_cons_of_ne (pre : Option UInt8) {b : UInt8} (rest : Bytes) (hb : b ≠ 67) :
    Quiet pre (b :: rest) ↔ Quiet (some b) rest := by
  rw [quiet_cons]
  apply and_iff_right
  intro hfound
  have hprefix := isPrefixOf_iff_prefix.mp hfound.1
  exact hb (cons_prefix_cons.mp hprefix).1.symm

/-- A type and the ` = ` behind it: the third byte from any place of the type on is a byte
of the type or a space, and no equals sign. -/
theorem quiet_type {type : Bytes} (rest : Bytes) (hplain : 61 ∉ type) :
    Quiet pre (type ++ (ascii " = " ++ rest)) ↔ Quiet (some 32) rest := by
  induction type generalizing pre with
  | nil =>
    show Quiet pre (32 :: 61 :: 32 :: rest) ↔ _
    rw [quiet_cons_of_ne _ _ (by decide), quiet_cons_of_ne _ _ (by decide),
      quiet_cons_of_ne _ _ (by decide)]
  | cons b type ih =>
    rw [cons_append, quiet_cons, ih fun h => hplain (mem_cons_of_mem b h)]
    apply and_iff_right
    intro hfound
    have hprefix : (ascii "CN=").isPrefixOf (b :: (type ++ (ascii " = " ++ rest))) = true :=
      hfound.1
    have hname : ascii "CN=" = [67, 78, 61] := by decide
    have hequals : ascii " = " = [32, 61, 32] := by decide
    rcases type with - | ⟨c, - | ⟨d, type⟩⟩
    · simp [hname, hequals] at hprefix
    · simp [hname, hequals] at hprefix
    · simp_all

theorem foundAt_append_comma (pre : Option UInt8) (text tail : Bytes) :
    FoundAt pre (text ++ 44 :: tail) ↔ FoundAt pre text := by
  have hname : ascii "CN=" = [67, 78, 61] := by decide
  have hcomma : ascii "," = [44] := by decide
  unfold FoundAt
  rw [hname, hcomma]
  rcases text with - | ⟨b, - | ⟨c, - | ⟨d, - | ⟨e, text⟩⟩⟩⟩ <;> simp [takeWhile_cons]

/-- A value in front of the next attribute: nothing is found across the comma. -/
theorem quiet_value (value rest : Bytes) :
    Quiet pre (value ++ (ascii ", " ++ rest)) ↔ Quiet pre value ∧ Quiet (some 32) rest := by
  show Quiet pre (value ++ 44 :: 32 :: rest) ↔ Quiet pre value ∧ Quiet (some 32) rest
  induction value generalizing pre with
  | nil =>
    exact (and_iff_right rfl).symm
  | cons b value ih =>
    rw [cons_append, quiet_cons, quiet_cons, ih, ← cons_append, foundAt_append_comma, and_assoc]

section Printed

variable (escape : Bytes → Bytes)

theorem quiet_attributes (subject : List NameAttribute) (pre : Option UInt8) (value : Bytes) :
    Quiet pre (value ++ subject.flatMap fun b => ascii ", " ++ b.print escape) ↔
      Quiet pre value ∧ ∀ b ∈ subject, Quiet (some 32) (escape b.value) := by
  induction subject generalizing pre value with
  | nil => simp
  | cons b subject ih =>
    rw [flatMap_cons, append_assoc, quiet_value, NameAttribute.print, append_assoc,
      append_assoc, quiet_type _ b.plain, ih, forall_mem_cons]

theorem quiet_extractDn (subject : List NameAttribute) : Quiet none (extractDn escape subject) ↔
      ∀ a ∈ subject, Quiet (some 32) (escape a.value) := by
  cases subject with
  | nil => exact iff_of_true rfl (by simp)
  | cons a subject =>
    rw [extractDn, NameAttribute.print, append_assoc, append_assoc,
      quiet_type _ a.plain, quiet_attributes, forall_mem_cons]

/-! ## The place of a value -/

/-- The line up to the value of an attribute behind others. -/
def printedBefore (before : List NameAttribute) (a : NameAttribute) : Bytes :=
  (before.flatMap fun b => b.print escape ++ ascii ", ") ++ a.type ++ ascii " = "

theorem extractDn_at (before : List NameAttribute) (a : NameAttribute)
    (after : List NameAttribute) :
    extractDn escape (before ++ a :: after) = printedBefore escape before a ++
      (escape a.value ++ after.flatMap fun b => ascii ", " ++ b.print escape) := by
  induction before with
  | nil => simp [extractDn, printedBefore, NameAttribute.print]
  | cons b before ih =>
    have hnext : extractDn escape (b :: before ++ a :: after) =
        b.print escape ++ ascii ", " ++ extractDn escape (before ++ a :: after) := by
      cases before <;> simp [extractDn]
    rw [hnext, ih]
    simp [printedBefore]

/-- The principal is what is printed for a commonName, taken from the place where it is
printed. -/
def IsCnAt (subject : List NameAttribute) (start : ℕ) (principal : Bytes) : Prop :=
  ∃ before a after, subject = before ++ a :: after ∧ a.type = ascii "CN" ∧
    start = (printedBefore escape before a).length ∧ principal = escape a.value

/-- A principal that is taken from the commonName is one of the subject's, and a subject
with a commonName has one. -/
structure PrincipalIsCn (subject : List NameAttribute) (pid : PeerIdentity) : Prop where
  own : principalSource pid = .cn → ∃ start, cnStart none 0 pid.subjectDn = some start ∧
    IsCnAt escape subject start (extractPrincipal pid)
  found : (∃ a ∈ subject, a.type = ascii "CN" ∧ a.value ≠ []) → principalSource pid = .cn

theorem not_isCnAt {subject : List NameAttribute} {start : ℕ} {principal : Bytes}
    (hstart : cnStart none 0 (extractDn escape subject) = some start) :
    ¬IsCnAt escape subject start principal := by
  rintro ⟨before, a, after, rfl, -, hplace, -⟩
  obtain ⟨n, hn, hbyte, -⟩ := cnStart_behind_equals hstart
  -- In front of a printed value stands a space.
  have hspace : printedBefore escape before a =
      (before.flatMap fun b => b.print escape ++ ascii ", ") ++ a.type ++ [32, 61] ++ [32] := by
    simp [printedBefore, ascii]
  rw [hspace, length_append, length_singleton] at hplace
  rw [extractDn_at, hspace, append_assoc, getElem?_append_right (by omega),
    show n - _ = 0 by omega] at hbyte
  exact absurd (Option.some.inj hbyte) (by decide)

end Printed

theorem principalSource_eq_cn_iff (pid : PeerIdentity) :
    principalSource pid = .cn ↔ ¬Quiet none pid.subjectDn := by
  unfold principalSource Quiet
  split_ifs <;> simp_all

/-- The principal is what the policy takes it for exactly when the scan finds nothing in
the values and there is nothing to find. -/
theorem principal_is_cn_iff (escape : Bytes → Bytes) (subject : List NameAttribute)
    (pid : PeerIdentity) :
    PrincipalIsCn escape subject { pid with subjectDn := extractDn escape subject } ↔
      (∀ a ∈ subject, parseCn (some 32) (escape a.value) = []) ∧
        ∀ a ∈ subject, a.type = ascii "CN" → a.value = [] := by
  let shown : PeerIdentity := { pid with subjectDn := extractDn escape subject }
  have hsource : principalSource shown = .cn ↔ ¬∀ a ∈ subject, Quiet (some 32) (escape a.value) :=
    (principalSource_eq_cn_iff shown).trans (not_congr (quiet_extractDn escape subject))
  constructor
  · intro h
    have hquiet : principalSource shown ≠ .cn := by
      intro hcn
      obtain ⟨start, hstart, hplace⟩ := h.own hcn
      exact not_isCnAt escape hstart hplace
    refine ⟨not_not.mp fun hno => hquiet (hsource.mpr hno), fun a ha hcn => ?_⟩
    by_contra hvalue
    exact hquiet (h.found ⟨a, ha, hcn, hvalue⟩)
  · rintro ⟨hquiet, hnone⟩
    refine ⟨fun hcn => absurd hquiet (hsource.mp hcn), ?_⟩
    rintro ⟨a, ha, hcn, hvalue⟩
    exact absurd (hnone a ha hcn) hvalue

/-- A subject without a commonName, and with an equals sign in a value that is not one. -/
theorem principal_of_organization :
    let subject : List NameAttribute := [⟨ascii "O", ascii "Acme XCN=1", by decide⟩]
    PrincipalIsCn escapeSpecial subject { subjectDn := extractDn escapeSpecial subject } :=
  (principal_is_cn_iff escapeSpecial [⟨ascii "O", ascii "Acme XCN=1", by decide⟩] {}).mpr
    (by decide +kernel)

/-- The commonName of a subject is not found, and text in another attribute is taken for
one. -/
theorem principal_from_organization :
    let alice : List NameAttribute := [⟨ascii "CN", ascii "alice", by decide⟩]
    let forged : List NameAttribute :=
      [⟨ascii "O", ascii "x CN=root", by decide⟩, ⟨ascii "CN", ascii "alice", by decide⟩]
    principalSource { subjectDn := extractDn escapeSpecial alice } = .sha256Fingerprint ∧
      principalSource { subjectDn := extractDn escapeSpecial forged } = .cn ∧
      extractPrincipal { subjectDn := extractDn escapeSpecial forged } = ascii "root" ∧
      ¬PrincipalIsCn escapeSpecial alice { subjectDn := extractDn escapeSpecial alice } := by
  refine ⟨by decide +kernel, by decide +kernel, by decide +kernel, fun h => ?_⟩
  have hfound := h.found ⟨_, mem_singleton_self _, rfl, by decide⟩
  exact absurd hfound (by decide +kernel)

end Fixpp.Analysis.CertificatePrincipal
