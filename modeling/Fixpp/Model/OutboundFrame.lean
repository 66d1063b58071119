import Fixpp.Model.Resend

/-!
# Outbound frames

`build_send_frame_` makes the frame of an application message from the caller's
payload, and `logon_credentials.hpp` finds and masks the Password(554) values of
a frame before the store gets it.
-/

namespace Fixpp.Model

/-! ## Application frames -/

/-- `kSendFrameBytes`, also the size of the two scratch buffers. -/
def sendFrameBytes : ℕ := 4096

/-- `kRefusedTags`: fields the session writes itself. -/
def refusedTags : List ℕ := [8, 9, 10, 34, 35, 49, 52, 56]

def sendHeaderTags : List ℕ :=
  [8, 9, 34, 35, 43, 49, 50, 52, 56, 57, 90, 91, 97, 115, 116, 122, 128,
    129, 142, 143, 144, 145, 212, 213, 347, 369, 370, 627, 628, 629, 630, 1128, 1129, 1156]

/-- The bytes of a field with its SOH, and whether the Length in front of it counts its value. -/
structure PayloadField where
  tag : ℕ
  bytes : Bytes
  counted : Bool

/-- The scanner pass over the fields behind the MsgType; `none` for a malformed
payload. -/
def payloadFields (hooks : DictHooks) : ℕ → LengthDataCarry → Bytes → Option (List PayloadField)
  | _, _, [] => some []
  | 0, _, _ => none
  | fuel + 1, carry, b :: bytes =>
    match scanField hooks carry (b :: bytes) with
    | (.ok (tag, value), rest, carry') =>
      if value = [] ∨ tag ∈ refusedTags then none
      else
        let field : PayloadField :=
          { tag := tag
            bytes := (b :: bytes).take ((b :: bytes).length - rest.length)
            counted := decide (carry.dataTag ≠ 0 ∧ carry.dataTag = tag) }
        (payloadFields hooks fuel carry' rest).map (field :: ·)
    | _ => none

/-- Each field with its class: a header field, or a counted Data behind one. -/
def withHeaderClass (cfg : SessionConfig) : Bool → List PayloadField → List (Bool × PayloadField)
  | _, [] => []
  | prevHeader, f :: rest =>
    let header :=
      if f.counted then prevHeader else decide (f.tag ∈ sendHeaderTags) || cfg.isHeaderTag f.tag
    (header, f) :: withHeaderClass cfg header rest

variable (cfg : SessionConfig)

/-- The PossDup fields are the session's own unless the configuration lets the
caller set them. -/
def excised (f : PayloadField) : Bool :=
  !f.counted && !cfg.allowPosDup && (f.tag = 43 || f.tag = 122)

/-- The excision and header partition passes: header fields first, each group in
the caller's order. -/
def partitionFields (fields : List PayloadField) : Bytes :=
  let kept := (withHeaderClass cfg false fields).filter fun f => !excised cfg f.2
  let headerPass := kept.filter fun f => f.1
  let bodyPass := kept.filter fun f => !f.1
  (headerPass ++ bodyPass).flatMap fun f => f.2.bytes

def stampedField (tag : String) (value : Bytes) : Bytes := ascii tag ++ value ++ [soh]

def sendFrame (body : Bytes) : Bytes :=
  let bytes := stampedField "8=" cfg.beginString ++
    stampedField "9=" (Writer.renderU32 body.length) ++ body
  bytes ++ stampedField "10=" (Writer.checksumDigits bytes)

/-- `build_send_frame_` for the peeked number and the SendingTime stamp. -/
def buildSendFrame (payload : Bytes) (seq : ℕ) (sendingTime : Bytes) : Except Error Bytes :=
  let msgType := payload.takeWhile (· ≠ soh)
  let lead := msgType ++ [soh]
  if (ascii "35=").isPrefixOf payload = false ∨ payload.getLast? ≠ some soh ∨
      msgType.length ≤ 3 then
    .error .appPayloadMalformed
  else match payloadFields cfg.hooks payload.length {} (payload.drop lead.length) with
    | none => .error .appPayloadMalformed
    | some fields =>
      let rest := partitionFields cfg fields
      let body := lead ++ stampedField "34=" (Writer.renderU32 seq) ++
        stampedField "49=" cfg.senderCompId ++ stampedField "52=" sendingTime ++
        stampedField "56=" cfg.targetCompId ++ rest
      if lead.length + rest.length > sendFrameBytes ∨ body.length > sendFrameBytes ∨
          (sendFrame cfg body).length > sendFrameBytes then
        .error .wireFrameTooLarge
      else .ok (sendFrame cfg body)

/-- A control character or an equals sign. -/
def containsForbiddenConfigByte (value : Bytes) : Bool :=
  value.any fun c => decide (c < 32) || c = equalsSign

/-- The check of `open` on the texts that go into every frame; a session whose
configuration fails it does not open. -/
def SessionConfig.textsAllowed : Bool :=
  !(containsForbiddenConfigByte cfg.senderCompId || containsForbiddenConfigByte cfg.targetCompId ||
    containsForbiddenConfigByte cfg.beginString)

/-! ## Passwords -/

/-- The value extents of every `554=` at the start of a field or behind an SOH,
counted or not; `pos` is the offset of the first byte. -/
def anchoredTag554 : ℕ → Bool → Bytes → List (ℕ × ℕ)
  | _, _, [] => []
  | pos, anchored, b :: rest =>
    let later := anchoredTag554 (pos + 1) (b = soh) rest
    if anchored = true ∧ (ascii "554=").isPrefixOf (b :: rest) then
      (pos + 4, pos + 4 + (rest.drop 3).findIdx (· = soh)) :: later
    else later

/-- The tag of a field as the walk reads it: any digits, none for 0. -/
def looseTag (digits : Bytes) : Option ℕ :=
  digits.foldl (fun acc c => acc.bind fun tag =>
    if isDigit c then accumulateTagDigit tag c else none) (some 0)

/-- The walk of `for_each_tag554_value`: the value extents of the genuine
Password fields. Behind a malformed count every anchored `554=` is one. -/
def walkTag554 (hooks : DictHooks) : ℕ → LengthDataCarry → ℕ → Bytes → List (ℕ × ℕ)
  | 0, _, _, _ => []
  | _, _, _, [] => []
  | fuel + 1, carry, pos, b :: bytes =>
    let split := (b :: bytes).span fun c => c ≠ equalsSign ∧ c ≠ soh
    match looseTag split.1, split.2.head? == some equalsSign with
    | some tag, true =>
      match carry.readValue hooks tag (split.2.drop 1) with
      | none => anchoredTag554 pos true (b :: bytes)
      | some (value, rest, carry') =>
        let vstart := pos + split.1.length + 1
        let vend := vstart + value.length
        let later := walkTag554 hooks fuel carry' (vend + 1) (rest.drop 1)
        if split.1 = ascii "554" then (vstart, vend) :: later else later
    | _, _ =>
      let rest := skipField split.2
      walkTag554 hooks fuel { carry with dataTag := 0 }
        (pos + ((b :: bytes).length - rest.length)) rest

variable (hooks : DictHooks)

variable (frame : Bytes)

def tag554Values : List (ℕ × ℕ) :=
  if anchoredTag554 0 true frame = [] then [] else walkTag554 hooks frame.length {} 0 frame

def frameHasGenuineTag554 : Bool :=
  tag554Values hooks frame ≠ []

/-- `mask_tag554_same_length_inplace`: every byte of a Password value becomes
an asterisk. -/
def maskTag554 : Bytes :=
  let values := tag554Values hooks frame
  frame.mapIdx fun k b => if values.any fun v => v.1 ≤ k && k < v.2 then 42 else b

@[simp] theorem length_maskTag554 : (maskTag554 hooks frame).length = frame.length := by
  simp [maskTag554]

/-- Offset `k` lies in a Password value of the frame. -/
def InPassword (k : ℕ) : Prop :=
  ∃ v ∈ tag554Values hooks frame, v.1 ≤ k ∧ k < v.2

theorem any_tag554_iff (k : ℕ) :
    ((tag554Values hooks frame).any fun v => v.1 ≤ k && k < v.2) = true ↔
      InPassword hooks frame k := by
  simp [InPassword]

/-- Masking puts an asterisk into every byte of a Password value. -/
theorem getElem?_maskTag554_in {hooks : DictHooks} {frame : Bytes} {k : ℕ}
    (hin : InPassword hooks frame k) :
    (maskTag554 hooks frame)[k]? = frame[k]?.map fun _ => 42 := by
  have hany := (any_tag554_iff hooks frame k).mpr hin
  simp only [maskTag554, List.getElem?_mapIdx, hany, if_true]

/-- Masking changes no byte outside a Password value. -/
theorem getElem?_maskTag554_out {hooks : DictHooks} {frame : Bytes} {k : ℕ}
    (hout : ¬ InPassword hooks frame k) : (maskTag554 hooks frame)[k]? = frame[k]? := by
  have hany := (any_tag554_iff hooks frame k).not.mpr hout
  simp only [maskTag554, List.getElem?_mapIdx, if_neg hany, Option.map_id']

def maxMaskableLogonBytes : ℕ := 256

/-- A Logon with a Password: the frames whose stored copy is masked. -/
def carriesPassword : Bool :=
  frameHasGenuineTag554 hooks frame && (scanFrameHeader hooks frame).msgType = ascii "A"

/-- `skip_store`: a Logon with a Password that does not fit the masking buffer. -/
def skipsStore : Bool :=
  carriesPassword hooks frame && maxMaskableLogonBytes < frame.length

def storedImage : Bytes :=
  if carriesPassword hooks frame then maskTag554 hooks frame else frame

end Fixpp.Model
