import Fixpp.Model.StrictFramer
import Fixpp.Analysis.Decimal
import Fixpp.Analysis.FramerStability

/-!
# The parsers accept the well-formed frames

`parse_frame` finds a complete frame exactly where a `WireFrame` within the limit starts
(`parseFrame_iff`), and so does `parse_resync_candidate` within its limits. So the two find the
same frames (`candidate_frame_iff_complete`).
-/

namespace Fixpp.Analysis.FrameParsing

open Interface Model Model.Framer Model.StrictFramer List
open FramerStability

variable {f : WireFrame} {bodyOff value l o k count : ℕ} {head rest beginString bytes : Bytes}
  {cfg : Config}

def view (f : WireFrame) : FrameView := ⟨f.bytes, f.head.length, f.body.length⟩

/-! ## The trailer -/

theorem byteAt_append_add (p l : Bytes) (i : ℕ) : byteAt (p ++ l) (p.length + i) = byteAt l i := by
  unfold byteAt
  rw [getD_append_right _ _ _ _ (Nat.le_add_right _ _), Nat.add_sub_cancel_left]

theorem checksumOf_prefix (p l : Bytes) : checksumOf (p ++ l) p.length = checksum p := by
  unfold checksumOf checksum
  rw [take_left]

variable {bodyLen limit : ℕ} {digits : Bytes}

theorem checkTrailer_eq_frame {p tail : Bytes} {x a b c d e f g : UInt8}
    (hlen : bodyOff + bodyLen = (p ++ [x]).length) :
    checkTrailer (p ++ [x] ++ a :: b :: c :: d :: e :: f :: g :: tail) bodyOff bodyLen =
        .frame (bodyOff + bodyLen + 7) bodyOff bodyLen ↔
      x = soh ∧ [a, b, c] = ascii "10=" ∧ g = soh ∧ (∀ y ∈ [d, e, f], isDigit y = true) ∧
        decimal [d, e, f] = checksum (p ++ [x]) := by
  have hbyte : ∀ i, byteAt (p ++ [x] ++ a :: b :: c :: d :: e :: f :: g :: tail)
      (bodyOff + bodyLen + i) = byteAt (a :: b :: c :: d :: e :: f :: g :: tail) i := by
    intro i
    rw [hlen]
    exact byteAt_append_add _ _ i
  have hlast : byteAt (p ++ [x] ++ a :: b :: c :: d :: e :: f :: g :: tail)
      (bodyOff + bodyLen - 1) = x := by
    rw [hlen, length_append, length_singleton, Nat.add_sub_cancel, append_assoc]
    exact byteAt_append_add p _ 0
  have hsum : checksumOf (p ++ [x] ++ a :: b :: c :: d :: e :: f :: g :: tail)
      (bodyOff + bodyLen) = checksum (p ++ [x]) := by
    rw [hlen, checksumOf_prefix]
  have h0 := hbyte 0
  rw [Nat.add_zero] at h0
  unfold checkTrailer
  simp only [h0, hbyte, hlast, hsum]
  have hascii : ([a, b, c] = ascii "10=") ↔ a = 49 ∧ b = 48 ∧ c = equalsSign := by
    rw [show ascii "10=" = [49, 48, equalsSign] by decide]
    simp
  have hdecimal : decimal [d, e, f] =
      digitValue d * 100 + digitValue e * 10 + digitValue f := by
    simp only [decimal, foldl_cons, foldl_nil]
    omega
  have hdigits : (∀ y ∈ [d, e, f], isDigit y = true) ↔
      isDigit d = true ∧ isDigit e = true ∧ isDigit f = true := by simp
  rw [hascii, hdecimal, hdigits]
  simp only [resyncGarble, ite_eq_iff, reduceCtorEq, and_false, false_or, not_or, ne_eq, not_not,
    Bool.not_eq_false, and_true]
  constructor
  · rintro ⟨hmark, hsoh, hdigits, hend, hcheck⟩
    exact ⟨hsoh, hmark, hend, hdigits, hcheck⟩
  rintro ⟨hsoh, hmark, hend, hdigits, hcheck⟩
  exact ⟨hmark, hsoh, hdigits, hend, hcheck⟩

/-- The trailer is accepted when a body that ends a field, the CheckSum field and the
right CheckSum follow the head. -/
theorem checkTrailer_iff (hpos : 0 < bodyLen) (hlen : bodyLen + 7 ≤ rest.length) :
    checkTrailer (head ++ rest) head.length bodyLen =
        .frame (head.length + bodyLen + 7) head.length bodyLen ↔
      ∃ content checks tail, rest = content ++ [soh] ++ (ascii "10=" ++ checks ++ [soh]) ++ tail ∧
        content.length + 1 = bodyLen ∧ checks.length = 3 ∧ (∀ y ∈ checks, isDigit y = true) ∧
        decimal checks = checksum (head ++ (content ++ [soh])) := by
  constructor
  · intro h
    obtain ⟨content, last, hcontent, hsplit⟩ : ∃ content last, content.length + 1 = bodyLen ∧
        rest = content ++ last ∧ 8 ≤ last.length := by
      refine ⟨rest.take (bodyLen - 1), rest.drop (bodyLen - 1), ?_, (take_append_drop _ _).symm, ?_⟩
      · rw [length_take]
        omega
      rw [length_drop]
      omega
    obtain ⟨rfl, hlast⟩ := hsplit
    match last, hlast with
    | x :: a :: b :: c :: d :: e :: f :: g :: tail, _ =>
      have hshape : head ++ (content ++ x :: a :: b :: c :: d :: e :: f :: g :: tail) =
          head ++ content ++ [x] ++ a :: b :: c :: d :: e :: f :: g :: tail := by simp
      rw [hshape] at h
      obtain ⟨rfl, hmark, rfl, hdigits, hcheck⟩ := (checkTrailer_eq_frame (by
        simp only [length_append, length_singleton]
        omega)).mp h
      refine ⟨content, [d, e, f], tail, ?_, hcontent, rfl, hdigits, ?_⟩
      · rw [← hmark]
        simp
      · rw [hcheck, append_assoc]
  · rintro ⟨content, checks, tail, rfl, hcontent, hthree, hdigits, hcheck⟩
    match checks, hthree with
    | [d, e, f], _ =>
      have hshape : head ++ (content ++ [soh] ++ (ascii "10=" ++ [d, e, f] ++ [soh]) ++ tail) =
          head ++ content ++ [soh] ++ 49 :: 48 :: equalsSign :: d :: e :: f :: soh :: tail := by
        rw [show ascii "10=" = [49, 48, equalsSign] by decide]
        simp
      rw [hshape]
      refine (checkTrailer_eq_frame ?_).mpr ⟨rfl, by decide, rfl, hdigits, ?_⟩
      · simp only [length_append, length_singleton]
        omega
      · rw [hcheck, append_assoc]

def headOf (beginString digits : Bytes) : Bytes :=
  ascii "8=" ++ beginString ++ [soh] ++ (ascii "9=" ++ digits ++ [soh])

theorem headOf_append (beginString digits rest : Bytes) : headOf beginString digits ++ rest =
      56 :: equalsSign :: (beginString ++ soh :: 57 :: equalsSign :: (digits ++ soh :: rest)) := by
  rw [headOf, show ascii "8=" = [56, equalsSign] by decide,
    show ascii "9=" = [57, equalsSign] by decide]
  simp

theorem length_headOf (beginString digits : Bytes) :
    (headOf beginString digits).length = 2 + beginString.length + 1 + 2 + digits.length + 1 := by
  simp [headOf, ascii]
  omega

/-- The frame of a head within `limit` whose trailer is in order: what both parsers look
for behind the header fields. -/
structure Closes (limit : ℕ) (head rest : Bytes) (bodyLen : ℕ) : Prop where
  fits : head.length + bodyLen + 7 ≤ limit
  present : bodyLen + 7 ≤ rest.length
  checked : checkTrailer (head ++ rest) head.length bodyLen =
    .frame (head.length + bodyLen + 7) head.length bodyLen

theorem wireFrame_of_closes (hbegin : ∀ b ∈ beginString, b ≠ soh) (hne : digits ≠ [])
    (hall : ∀ b ∈ digits, isDigit b = true) (hpos : decimal digits ≠ 0)
    (h : Closes limit (headOf beginString digits) rest (decimal digits)) :
    ∃ f : WireFrame, f.beginString = beginString ∧ f.lengthDigits = digits ∧
      f.body.length = decimal digits ∧ f.bytes <+: headOf beginString digits ++ rest := by
  obtain ⟨content, checks, tail, rfl, hcontent, hthree, hdigits, hcheck⟩ :=
    (checkTrailer_iff (Nat.pos_of_ne_zero hpos) h.present).mp h.checked
  let f : WireFrame :=
    { beginString := beginString, lengthDigits := digits, content := content
      checkDigits := checks, begin_clean := hbegin, length_nonempty := hne
      length_digits := hall, length_counts := hcontent.symm
      check_three := hthree, check_digits := hdigits, check_sums := hcheck }
  refine ⟨f, rfl, rfl, f.length_body.trans hcontent, tail, ?_⟩
  simp [f, WireFrame.bytes, WireFrame.head, WireFrame.body, WireFrame.trailer, headOf, append_assoc]

theorem bytes_append (f : WireFrame) (tail : Bytes) : f.bytes ++ tail =
    headOf f.beginString f.lengthDigits ++ (f.body ++ f.trailer ++ tail) := by
  simp [WireFrame.bytes, WireFrame.head, headOf, append_assoc]

theorem closes_of_wireFrame (hfits : f.bytes.length ≤ limit) (tail : Bytes) :
    Closes limit f.head (f.body ++ f.trailer ++ tail) f.body.length := by
  have hlen := f.length_bytes
  have hpresent : f.body.length + 7 ≤ (f.body ++ f.trailer ++ tail).length := by
    simp only [length_append, f.length_trailer]
    omega
  refine ⟨by omega, hpresent, (checkTrailer_iff ?_ hpresent).mpr ⟨f.content, f.checkDigits, tail,
    rfl, f.length_body.symm, f.check_three, f.check_digits, f.check_sums⟩⟩
  rw [f.length_body]
  omega

/-! ## The BodyLength -/

theorem le_foldl_decimal (value : ℕ) (digits : Bytes) :
    value ≤ digits.foldl (fun v d => v * 10 + digitValue d) value := by
  induction digits generalizing value with
  | nil => exact Nat.le_refl _
  | cons d digits ih =>
    have := ih (value * 10 + digitValue d)
    rw [foldl_cons]
    omega

theorem sizeSub_of_le {a b : ℕ} (ha : a < sizeLimit) (h : b ≤ a) : sizeSub a b = a - b := by
  unfold sizeSub
  rw [show a + sizeLimit - b = a - b + sizeLimit by omega, Nat.add_mod_right,
    Nat.mod_eq_of_lt (by omega)]

theorem readBodyLength_of_le (hlimit : limit < sizeLimit) (hdigits : ∀ b ∈ digits, isDigit b = true)
    (hle : digits.foldl (fun v d => v * 10 + digitValue d) value ≤ limit) :
    readBodyLength limit value digits =
      .ok (digits.foldl (fun v d => v * 10 + digitValue d) value) := by
  induction digits generalizing value with
  | nil => rfl
  | cons d digits ih =>
    have hd := hdigits d mem_cons_self
    rw [foldl_cons] at hle
    have hstep := le_foldl_decimal (value * 10 + digitValue d) digits
    rw [readBodyLength, hd, if_neg (by decide), sizeSub_of_le hlimit (by omega),
      if_neg (by omega), Nat.mod_eq_of_lt (by omega), foldl_cons]
    exact ih (fun b hb => hdigits b (mem_cons_of_mem _ hb)) hle

/-- A limit of two digits or more is never wrapped under, and what is read is what
the digits spell. -/
theorem decimal_of_readBodyLength {n : ℕ} (hlimit : limit < sizeLimit) (hnine : 9 ≤ limit)
    (h : readBodyLength limit value digits = .ok n) :
    (∀ b ∈ digits, isDigit b = true) ∧ digits.foldl (fun v d => v * 10 + digitValue d) value = n := by
  induction digits generalizing value with
  | nil =>
    cases h
    exact ⟨fun b hb => (nomatch hb), rfl⟩
  | cons d digits ih =>
    simp only [readBodyLength, ite_eq_iff, reduceCtorEq, and_false, false_or,
      Bool.not_eq_false] at h
    obtain ⟨hdigit, hle, h⟩ := h
    have hlt := digitValue_lt hdigit
    rw [sizeSub_of_le hlimit (by omega)] at hle
    rw [Nat.mod_eq_of_lt (by omega)] at h
    obtain ⟨hall, hvalue⟩ := ih h
    refine ⟨fun b hb => ?_, hvalue⟩
    rcases mem_cons.mp hb with rfl | hin
    · exact hdigit
    · exact hall b hin

/-! ## The strict parser -/

theorem checkTrailer_frame_iff :
    checkTrailer bytes bodyOff bodyLen = .frame l o k ↔
      (l = bodyOff + bodyLen + 7 ∧ o = bodyOff ∧ k = bodyLen) ∧
        checkTrailer bytes bodyOff bodyLen = .frame (bodyOff + bodyLen + 7) bodyOff bodyLen := by
  rcases checkTrailer_cases bytes bodyOff bodyLen with ⟨kind, hc⟩ | hc | hc <;>
    simp [hc, resyncGarble, eq_comm]

theorem parseTail_iff :
    parseTail limit (head ++ rest) head.length bodyLen = .complete l o k ↔
      (l = head.length + bodyLen + 7 ∧ o = head.length ∧ k = bodyLen) ∧
        Closes limit head rest bodyLen := by
  unfold parseTail
  rw [length_append, if_neg (by omega)]
  constructor
  · intro h
    simp only [ite_eq_iff, reduceCtorEq, and_false, false_or] at h
    obtain ⟨-, hpresent, h⟩ := h
    split at h
    next hc =>
      obtain ⟨⟨rfl, rfl, rfl⟩, hc⟩ := checkTrailer_frame_iff.mp hc
      split at h
      · cases h
      cases h
      exact ⟨⟨rfl, rfl, rfl⟩, by omega, by omega, hc⟩
    all_goals cases h
  · rintro ⟨⟨rfl, rfl, rfl⟩, hfits, hpresent, hc⟩
    rw [if_neg (by omega), if_neg (by omega), hc]
    dsimp only
    rw [if_neg (by omega)]

theorem parseFrame_eq (hbegin : ∀ b ∈ beginString, b ≠ soh) (hdigits : ∀ b ∈ digits, b ≠ soh) :
    parseFrame limit (headOf beginString digits ++ rest) =
      if digits = [] then .error .wireInvalidBodyLength
      else
        match readBodyLength limit 0 digits with
        | .error code => .error code
        | .ok n =>
          if n = 0 then .error .wireInvalidBodyLength
          else if n > limit then .error .wireFrameTooLarge
          else parseTail limit (headOf beginString digits ++ rest)
            (headOf beginString digits).length n := by
  rw [length_headOf, headOf_append, parseFrame]
  rw [splitValue_append hbegin (.inr ⟨_, rfl⟩)]
  dsimp only
  rw [parseLength]
  generalize hsplit : splitValue (digits ++ soh :: rest) = parts
  obtain rfl := hsplit.symm.trans (splitValue_append hdigits (.inr ⟨_, rfl⟩))
  rfl

theorem soh_of_splitValue {value after : Bytes} {b : UInt8}
    (h : splitValue bytes = (value, b :: after)) :
    (∀ x ∈ value, x ≠ soh) ∧ bytes = value ++ soh :: after := by
  have hclean := not_soh_of_splitValue bytes
  have happend := append_of_splitValue bytes
  have hrest := rest_of_splitValue bytes
  rw [h] at hclean happend hrest
  refine ⟨hclean, ?_⟩
  rcases hrest with hnil | ⟨rest, hrest⟩
  · cases hnil
  cases hrest
  exact happend.symm

theorem header_of_complete (h : parseFrame limit bytes = .complete l o k) :
    ∃ beginString digits rest, (∀ b ∈ beginString, b ≠ soh) ∧ (∀ b ∈ digits, b ≠ soh) ∧
      bytes = headOf beginString digits ++ rest := by
  unfold parseFrame at h
  split at h
  · cases h
  split at h
  · cases h
  rename_i htag
  split at h
  · cases h
  split at h
  · cases h
  rename_i heq
  split at h
  · cases h
  rename_i beginString first after hsplit
  obtain ⟨hclean, rfl⟩ := soh_of_splitValue hsplit
  unfold parseLength at h
  split at h
  · cases h
  · cases h
  split at h
  · cases h
  rename_i hnine
  split at h
  · cases h
  rename_i digits first' rest' hsplit'
  obtain ⟨hclean', rfl⟩ := soh_of_splitValue hsplit'
  simp only [ne_eq, not_or, not_not] at htag heq hnine
  refine ⟨beginString, digits, rest', hclean, hclean', ?_⟩
  rw [headOf_append, htag, heq, hnine.1, hnine.2]

theorem parseFrame_iff (hlimit : limit < sizeLimit) :
    parseFrame limit bytes = .complete l o k ↔
      ∃ f : WireFrame, f.bytes.length ≤ limit ∧ f.bytes <+: bytes ∧
        l = f.bytes.length ∧ o = f.head.length ∧ k = f.body.length := by
  constructor
  · intro h
    obtain ⟨beginString, digits, rest, hbegin, hclean, rfl⟩ := header_of_complete h
    rw [parseFrame_eq hbegin hclean] at h
    split at h
    · cases h
    rename_i hne
    split at h
    · cases h
    rename_i n hn
    simp only [ite_eq_iff, reduceCtorEq, and_false, false_or] at h
    obtain ⟨hzero, -, h⟩ := h
    obtain ⟨⟨rfl, rfl, rfl⟩, hcloses⟩ := parseTail_iff.mp h
    have hnine : 9 ≤ limit := by
      have := hcloses.fits
      rw [length_headOf] at this
      omega
    obtain ⟨hall, hvalue⟩ := decimal_of_readBodyLength hlimit hnine hn
    subst hvalue
    obtain ⟨f, rfl, rfl, hbody, hprefix⟩ := wireFrame_of_closes hbegin hne hall hzero hcloses
    have hlen := f.length_bytes
    rw [hbody] at hlen
    exact ⟨f, hlen.trans_le hcloses.fits, hprefix, hlen.symm, rfl, hbody.symm⟩
  · rintro ⟨f, hfits, ⟨tail, rfl⟩, rfl, rfl, rfl⟩
    have hlen := f.length_bytes
    have hbody := f.length_body
    have hread : readBodyLength limit 0 f.lengthDigits = .ok f.body.length := by
      have hvalue : decimal f.lengthDigits = f.body.length := by
        rw [f.length_counts, hbody]
      rw [← hvalue]
      refine readBodyLength_of_le hlimit f.length_digits ?_
      rw [← decimal, hvalue]
      omega
    have hclean : ∀ b ∈ f.lengthDigits, b ≠ soh :=
      fun b hb => (ne_of_isDigit (f.length_digits b hb)).2
    rw [bytes_append, parseFrame_eq f.begin_clean hclean, if_neg f.length_nonempty, hread]
    dsimp only
    rw [if_neg (by omega), if_neg (by omega)]
    exact parseTail_iff.mpr ⟨⟨hlen, rfl, rfl⟩, closes_of_wireFrame hfits tail⟩

/-! ## The resync parser -/

structure WithinLimits (cfg : Config) (f : WireFrame) : Prop where
  beginString : f.beginString.length ≤ cfg.maxBeginStringBytes
  lengthDigits : f.lengthDigits.length ≤ bodyLengthDigitCap
  frame : f.bytes.length ≤ cfg.maxFrameBytes

theorem scanBeginString_append {cap : ℕ} {value : Bytes} (rest : Bytes)
    (hclean : ∀ b ∈ value, b ≠ soh) (hcap : count + value.length ≤ cap) :
    scanBeginString cap count (value ++ soh :: rest) = .found (count + value.length) 0 rest := by
  induction value generalizing count with
  | nil => simp [scanBeginString]
  | cons b value ih =>
    rw [length_cons] at hcap
    rw [cons_append, scanBeginString, if_neg (hclean b mem_cons_self),
      if_neg (by omega), ih (fun c hc => hclean c (mem_cons_of_mem _ hc)) (by omega),
      length_cons, Nat.add_right_comm, Nat.add_assoc]

theorem scanBodyLength_append (rest : Bytes) (hdigits : ∀ b ∈ digits, isDigit b = true)
    (hcap : count + digits.length ≤ bodyLengthDigitCap)
    (hle : digits.foldl (fun v d => v * 10 + digitValue d) value ≤ limit) :
    scanBodyLength limit count value (digits ++ soh :: rest) =
      .found (count + digits.length) (digits.foldl (fun v d => v * 10 + digitValue d) value)
        rest := by
  induction digits generalizing count value with
  | nil => simp [scanBodyLength]
  | cons d digits ih =>
    have hd := hdigits d mem_cons_self
    rw [length_cons] at hcap
    rw [foldl_cons] at hle
    have hstep := le_foldl_decimal (value * 10 + digitValue d) digits
    rw [cons_append, scanBodyLength, if_neg (ne_of_isDigit hd).2, hd, if_neg (by decide),
      if_neg (by omega), if_neg (by omega),
      ih (fun c hc => hdigits c (mem_cons_of_mem _ hc)) (by omega) hle,
      length_cons, foldl_cons, Nat.add_right_comm, Nat.add_assoc]

theorem frameExtent_iff :
    frameExtent cfg (head ++ rest) head.length bodyLen = .frame l o k ↔
      (l = head.length + bodyLen + 7 ∧ o = head.length ∧ k = bodyLen) ∧
        Closes cfg.maxFrameBytes head rest bodyLen := by
  simp only [frameExtent, length_append, ite_eq_iff, reduceCtorEq, and_false, false_or]
  rw [checkTrailer_frame_iff]
  constructor
  · rintro ⟨hfits, hpresent, hsizes, hc⟩
    exact ⟨hsizes, by omega, by omega, hc⟩
  rintro ⟨hsizes, hfits, hpresent, hc⟩
  exact ⟨by omega, by omega, hsizes, hc⟩

theorem parseResyncCandidate_wireFrame (h : WithinLimits cfg f) (tail : Bytes) :
    parseResyncCandidate cfg (f.bytes ++ tail) =
      .frame f.bytes.length f.head.length f.body.length := by
  have hlen := f.length_bytes
  have hbody := f.length_body
  have hvalue : decimal f.lengthDigits = f.body.length := by
    rw [f.length_counts, hbody]
  have hextent : frameExtent cfg (headOf f.beginString f.lengthDigits ++
      (f.body ++ f.trailer ++ tail)) (headOf f.beginString f.lengthDigits).length f.body.length =
      .frame f.bytes.length f.head.length f.body.length :=
    frameExtent_iff.mpr ⟨⟨hlen, rfl, rfl⟩, closes_of_wireFrame h.frame tail⟩
  have hle : decimal f.lengthDigits ≤ cfg.maxFrameBytes := by
    have := h.frame
    omega
  have hcount : scanBodyLength cfg.maxFrameBytes 0 0
      (f.lengthDigits ++ soh :: (f.body ++ f.trailer ++ tail)) = _ :=
    scanBodyLength_append _ f.length_digits (by have := h.lengthDigits; omega) hle
  rw [← decimal, hvalue] at hcount
  rw [length_headOf, headOf_append] at hextent
  rw [bytes_append, headOf_append, parseResyncCandidate]
  rw [scanBeginString_append _ f.begin_clean (by have := h.beginString; omega)]
  dsimp only
  rw [parseBodyLength]
  simp only [ne_eq, not_true_eq_false, or_self, if_false]
  rw [hcount]
  have hpos : 0 < f.lengthDigits.length := length_pos_iff.mpr f.length_nonempty
  dsimp only
  rw [if_neg (by omega), Nat.zero_add, Nat.zero_add, hextent]

theorem PlainStop.ne_frame {why : Candidate} (h : PlainStop why) : why ≠ .frame l o k := by
  rcases h with rfl | rfl | ⟨kind, rfl⟩ <;> exact nofun

theorem wireFrame_of_candidate (h : parseResyncCandidate cfg bytes = .frame l o k) :
    ∃ f : WireFrame, WithinLimits cfg f ∧ f.bytes <+: bytes ∧
      l = f.bytes.length ∧ o = f.head.length ∧ k = f.body.length := by
  unfold parseResyncCandidate at h
  split at h
  · cases h
  split at h
  · cases h
  rename_i htag
  split at h
  · cases h
  rename_i eq value
  split at h
  · cases h
  rename_i heq
  have hbegin := scanBeginString_decides 0 (Nat.zero_le cfg.maxBeginStringBytes) value
  split at h
  · rename_i why hscan
    exact absurd h (PlainStop.ne_frame (hbegin.stopped hscan).1)
  rename_i beginLen v after hscan
  obtain ⟨⟨beginString, rfl, hclean, rfl, hbeginCap⟩, -⟩ := hbegin.found hscan
  unfold parseBodyLength at h
  split at h
  · cases h
  · cases h
  rename_i tag' eq' value'
  split at h
  · cases h
  rename_i hnine
  have hlength := scanBodyLength_decides 0 0 (Nat.zero_le _) (Nat.zero_le cfg.maxFrameBytes) value'
  split at h
  · rename_i why hscan'
    exact absurd h (PlainStop.ne_frame (hlength.stopped hscan').1)
  rename_i count n rest' hscan'
  obtain ⟨⟨digits, rfl, hall, rfl, hdigitCap, rfl, -⟩, -⟩ := hlength.found hscan'
  split at h
  · cases h
  rename_i hzero
  simp only [ne_eq, not_or, not_not] at htag heq hnine hzero
  obtain ⟨rfl, rfl⟩ := hnine
  subst htag heq
  rw [Nat.zero_add, Nat.zero_add, ← length_headOf, ← headOf_append, ← decimal] at h
  obtain ⟨⟨rfl, rfl, rfl⟩, hcloses⟩ := frameExtent_iff.mp h
  have hne : digits ≠ [] := by
    rintro rfl
    exact hzero.1 rfl
  obtain ⟨f, rfl, rfl, hbody, hprefix⟩ := wireFrame_of_closes hclean hne hall hzero.2 hcloses
  have hlen := f.length_bytes
  rw [hbody] at hlen
  rw [Nat.zero_add] at hbeginCap hdigitCap
  rw [headOf_append] at hprefix
  exact ⟨f, ⟨hbeginCap, hdigitCap, hlen.trans_le hcloses.fits⟩, hprefix, hlen.symm, rfl, hbody.symm⟩

/-! ## The two parsers -/

def beginStringValue (bytes : Bytes) : Bytes := (splitValue (bytes.drop 2)).1

def bodyLengthValue (bytes : Bytes) : Bytes :=
  (splitValue ((splitValue (bytes.drop 2)).2.drop 3)).1

/-- The caps of the resync parser on the header values. -/
structure WithinCaps (cfg : Config) (bytes : Bytes) : Prop where
  beginString : (beginStringValue bytes).length ≤ cfg.maxBeginStringBytes
  lengthDigits : (bodyLengthValue bytes).length ≤ bodyLengthDigitCap

theorem values_headOf (hbegin : ∀ b ∈ beginString, b ≠ soh) (hdigits : ∀ b ∈ digits, b ≠ soh)
    (rest : Bytes) :
    beginStringValue (headOf beginString digits ++ rest) = beginString ∧
      bodyLengthValue (headOf beginString digits ++ rest) = digits := by
  have hfirst := splitValue_append hbegin (.inr ⟨57 :: equalsSign :: (digits ++ soh :: rest), rfl⟩)
  have hsecond := splitValue_append hdigits (.inr ⟨rest, rfl⟩)
  unfold beginStringValue bodyLengthValue
  rw [headOf_append, drop_succ_cons, drop_succ_cons, drop_zero, hfirst]
  refine ⟨rfl, ?_⟩
  rw [drop_succ_cons, drop_succ_cons, drop_succ_cons, drop_zero, hsecond]

/-- Where the header values are within the caps of the resync parser, it reports a frame exactly
when the strict parser reports a complete one, with the same offsets. -/
theorem candidate_frame_iff_complete (cfg : Config) (hlimit : cfg.maxFrameBytes < sizeLimit)
    (bytes : Bytes) (hcaps : WithinCaps cfg bytes) (l o k : ℕ) :
    parseResyncCandidate cfg bytes = .frame l o k ↔
      parseFrame cfg.maxFrameBytes bytes = .complete l o k := by
  rw [parseFrame_iff hlimit]
  constructor
  · intro h
    obtain ⟨f, hlimits, hprefix, hsizes⟩ := wireFrame_of_candidate h
    exact ⟨f, hlimits.frame, hprefix, hsizes⟩
  rintro ⟨f, hfits, ⟨tail, rfl⟩, rfl, rfl, rfl⟩
  obtain ⟨hbegin, hdigits⟩ := values_headOf f.begin_clean
    (fun b hb => (ne_of_isDigit (f.length_digits b hb)).2) (f.body ++ f.trailer ++ tail)
  rw [bytes_append] at hcaps
  refine parseResyncCandidate_wireFrame ⟨?_, ?_, hfits⟩ tail
  · rw [← hbegin]
    exact hcaps.beginString
  rw [← hdigits]
  exact hcaps.lengthDigits

/-- A heartbeat is found by both. -/
theorem heartbeat_candidate_iff_complete :
    parseFrame (256 * 1024) (headOf (ascii "FIX.4.2") (ascii "5") ++
        (ascii "35=0" ++ [soh] ++ (ascii "10=161" ++ [soh]))) = .complete 26 14 5 := by
  refine (candidate_frame_iff_complete {} (by decide) _ ⟨?_, ?_⟩ 26 14 5).mp ?_ <;> decide +kernel

end Fixpp.Analysis.FrameParsing
