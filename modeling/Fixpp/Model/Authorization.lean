import Fixpp.Model.Prelude

/-!
# Peer identities and the CompID authorization policy

The TLS handshake gives a `peer_identity`, which `CompIdAuthorizationPolicy` reduces to one
principal; the policy holds the pairs of a principal and a CompID it may assert.
-/

namespace Fixpp.Model

structure PeerIdentity where
  subjectDn : Bytes := []
  sanDnsNames : List Bytes := []
  sanUris : List Bytes := []
  leafFingerprint : Bytes := []
  deriving DecidableEq, Repr

/-- What may stand in front of an attribute of a distinguished name. -/
def dnBoundary (pre : Option UInt8) : Bool := pre.all (· ∈ ascii ", /")

/-- The scan of `parse_cn_from_dn`; `pre` is the byte in front. -/
def parseCn (pre : Option UInt8) : Bytes → Bytes
  | [] => []
  | b :: rest =>
    let value := (rest.drop 2).takeWhile (· ∉ ascii ",")
    -- `OCN=` is no commonName, and an empty one lets the scan go on.
    if (ascii "CN=").isPrefixOf (b :: rest) = true ∧ dnBoundary pre = true ∧ value ≠ [] then value
    else parseCn (some b) rest

def fingerprintToHex (fingerprint : Bytes) : Bytes :=
  let hexChar (n : ℕ) : UInt8 := ((ascii "0123456789abcdef").drop n).headD 0
  fingerprint.flatMap fun b => [hexChar (b.toNat / 16), hexChar (b.toNat % 16)]

/-- The first of commonName, SAN-DNS, SAN-URI and fingerprint that is not empty. -/
def extractPrincipal (pid : PeerIdentity) : Bytes :=
  let cn := parseCn none pid.subjectDn
  if cn ≠ [] then cn
  else if pid.sanDnsNames.headD [] ≠ [] then pid.sanDnsNames.headD []
  else if pid.sanUris.headD [] ≠ [] then pid.sanUris.headD []
  else fingerprintToHex pid.leafFingerprint

/-- The principals with the CompIDs they may assert. -/
structure CompIdAuthorizationPolicy where
  bindings : List (Bytes × Bytes) := []
  deriving DecidableEq, Repr

/-- `authorize`; without a binding every identity is refused. -/
def CompIdAuthorizationPolicy.authorize (policy : CompIdAuthorizationPolicy) (pid : PeerIdentity)
    (assertedCompId : Bytes) : Bool :=
  (extractPrincipal pid, assertedCompId) ∈ policy.bindings

example : parseCn none (ascii "O=Acme,OCN=no,CN=,CN=ACME-1,C=US") = ascii "ACME-1" := by decide

/-! ## The subject name of a certificate

`extract_dn` prints the subject of a peer's certificate on one line, in which the policy looks for
the commonName. Of OpenSSL's printing only its form is fixed: each attribute as its type, ` = `
and its value, joined by a comma and a space. `escapeSpecial` is the escaping of RFC 2253.
-/

/-- An attribute of a subject: its short name or OID, in which no `=` can stand, and its
value. -/
structure NameAttribute where
  type : Bytes
  value : Bytes
  plain : 61 ∉ type

def NameAttribute.print (escape : Bytes → Bytes) (a : NameAttribute) : Bytes :=
  a.type ++ ascii " = " ++ escape a.value

def extractDn (escape : Bytes → Bytes) : List NameAttribute → Bytes
  | [] => []
  | a :: rest => a.print escape ++ rest.flatMap fun b => ascii ", " ++ b.print escape

/-- A backslash in front of each special character. -/
def escapeSpecial (value : Bytes) : Bytes :=
  value.flatMap fun b => if b ∈ ascii ",+\"\\<>;" then [92, b] else [b]

/-- Where in the text the scan of `parse_cn_from_dn` finds its value. -/
def cnStart (pre : Option UInt8) (pos : ℕ) : Bytes → Option ℕ
  | [] => none
  | b :: rest =>
    let value := (rest.drop 2).takeWhile (· ∉ ascii ",")
    if (ascii "CN=").isPrefixOf (b :: rest) = true ∧ dnBoundary pre = true ∧ value ≠ [] then
      some (pos + 3)
    else cnStart (some b) (pos + 1) rest

inductive PrincipalSource
  | cn
  | sanDns
  | sanUri
  | sha256Fingerprint
  deriving DecidableEq, Repr

/-- The source of the principal that `extract_principal` returns. -/
def principalSource (pid : PeerIdentity) : PrincipalSource :=
  if parseCn none pid.subjectDn ≠ [] then .cn
  else if pid.sanDnsNames.headD [] ≠ [] then .sanDns
  else if pid.sanUris.headD [] ≠ [] then .sanUri
  else .sha256Fingerprint

/-! ## Certificate pins

A `Pinset` publishes its pins in a snapshot that is never written to: `add` and `remove` make a
new one and store the pointer to it. `PinWorld` is the memory of the snapshots together with the
pin sets of a program. One cell stands for the empty snapshots of all constructors. -/

/-- `Certificate`, as far as a pin takes it over. -/
structure LeafCertificate where
  sha256 : Bytes
  subjectDn : Bytes := []
  sanDnsNames : List Bytes := []

structure Pin where
  sha256 : Bytes
  subjectDn : Bytes
  sanDns : List Bytes
  addedAt : ℕ
  deriving DecidableEq, Repr

def LeafCertificate.pin (cert : LeafCertificate) (now : ℕ) : Pin where
  sha256 := cert.sha256
  subjectDn := cert.subjectDn
  sanDns := cert.sanDnsNames
  addedAt := now

inductive PinsetError
  | tlsPinsetCapacityExhausted
  | tlsPinAlreadyPresent
  | tlsPinNotFound
  | tlsPinsetAllocFailed
  deriving DecidableEq, Repr

/-- Its configuration and `snapshot_`, a cell of the memory. -/
structure Pinset where
  maxPins : ℕ := 16
  snapshot : ℕ

/-- The snapshots ever made and the pin sets that publish them. -/
structure PinWorld where
  snapshots : List (List Pin)
  pinsets : ℕ → Pinset

namespace PinWorld

def constructed (maxPins : ℕ → ℕ) : PinWorld where
  snapshots := [[]]
  pinsets k := { maxPins := maxPins k, snapshot := 0 }

variable (w : PinWorld) (k : ℕ)

def pins : List Pin := w.snapshots.getD (w.pinsets k).snapshot []

def store (pins : List Pin) : PinWorld where
  snapshots := w.snapshots ++ [pins]
  pinsets := Function.update w.pinsets k { w.pinsets k with snapshot := w.snapshots.length }

/-- `Pinset::add`; the copies may run out of memory. -/
def add (cert : LeafCertificate) (now : ℕ) (allocates : Bool) :
    PinWorld × Except PinsetError Unit :=
  let cur := w.pins k
  if cur.length ≥ (w.pinsets k).maxPins then (w, .error .tlsPinsetCapacityExhausted)
  else if cur.any fun p => p.sha256 = cert.sha256 then (w, .error .tlsPinAlreadyPresent)
  else if allocates = false then (w, .error .tlsPinsetAllocFailed)
  else (w.store k (cur ++ [cert.pin now]), .ok ())

/-- The clone is made before it is known whether the pin is there. -/
def remove (sha256 : Bytes) (allocates : Bool) : PinWorld × Except PinsetError Unit :=
  let cur := w.pins k
  if allocates = false then (w, .error .tlsPinsetAllocFailed)
  else if cur.any (fun p => p.sha256 = sha256) = false then (w, .error .tlsPinNotFound)
  else (w.store k (cur.filter fun p => p.sha256 ≠ sha256), .ok ())

/-- The move of `other` to `k` by the constructor or the assignment; only the latter can
be to itself. -/
def move (other : ℕ) : PinWorld :=
  if k = other then w
  else ({ w with pinsets := Function.update w.pinsets k (w.pinsets other) }).store other []

end PinWorld

/-- A call on a pin set. A move that cannot allocate the new empty snapshot ends the
process, so it does not return. -/
inductive PinsetCall
  | add (k : ℕ) (cert : LeafCertificate) (now : ℕ) (allocates : Bool)
  | remove (k : ℕ) (sha256 : Bytes) (allocates : Bool)
  | move (k other : ℕ)

def PinWorld.call (w : PinWorld) : PinsetCall → PinWorld × Except PinsetError Unit
  | .add k cert now allocates => w.add k cert now allocates
  | .remove k sha256 allocates => w.remove k sha256 allocates
  | .move k other => (w.move k other, .ok ())

def PinWorld.run (w : PinWorld) (calls : List PinsetCall) : PinWorld :=
  calls.foldl (fun w c => (w.call c).1) w

end Fixpp.Model
