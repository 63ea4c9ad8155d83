import FortigateDns.Go.Frames
import Mathlib.Data.List.AList
import Mathlib.Data.List.Lex
import Mathlib.Data.List.Sort

/-!
# Fingerprints of events and of credentials

`NewSemanticFingerprint` and `newCredentialMaterial`: the streams they write into the hash, and
the digests. Strings are byte strings here, with no assumption on their contents.
-/

namespace FortigateDns

open Go

/-- The fixed informer categories. -/
def eventKinds : List (List Byte) :=
  ["Service", "Ingress", "Gateway", "HTTPRoute", "EndpointSlice", "FortiGateDNSTarget", "FortiGateDNSPolicy",
    "FortiGateDNSRecordOwnership", "FortiGateDNSChangePlan", "SecretMetadata"].map asciiBytes

/-- The kind is a known one. -/
def validEventKind (kind : List Byte) : Bool := eventKinds.contains kind

/-- `SemanticFields`, a `map[string]string`. -/
abbrev SemanticFields := AList fun _ : List Byte => List Byte

/-- What `writeFingerprintPart` writes. -/
def writeFingerprintPart (value : List Byte) : List Byte :=
  decimal value.length ++ [byteOf ':'] ++ value ++ [byteOf '\x00']

/-- The stream that `NewSemanticFingerprint` hashes; `order` is the order in which the map is
ranged over. -/
def semanticStream (order : List (List Byte) → List (List Byte)) (kind : List Byte) (fields : SemanticFields) :
    List Byte :=
  let keys := (order fields.keys).insertionSort (· ≤ ·)
  writeFingerprintPart kind ++
    keys.flatMap fun key => writeFingerprintPart key ++ writeFingerprintPart ((fields.lookup key).getD [])

/-- `sha256.Sum256` and `hex.EncodeToString` of a stream. -/
@[irreducible] def streamHex (stream : List Byte) : List Char := Sha256.hex (Sha256.sum (stream.map Fin.val))

/-- The error of `NewSemanticFingerprint`. -/
inductive FingerprintError
  | unsupportedEventKind (kind : List Byte)
  deriving DecidableEq, Repr

/-- Only known kinds have one. -/
def newSemanticFingerprint (order : List (List Byte) → List (List Byte)) (kind : List Byte)
    (fields : SemanticFields) :
    Except FingerprintError (List Char) :=
  if !validEventKind kind then .error (.unsupportedEventKind kind)
  else .ok (streamHex (semanticStream order kind fields))

/-- What `hashPart` writes: eight big-endian bytes of `uint64(len(value))`, then the value. -/
def hashPart (value : List Byte) : List Byte := bigEndian 8 (value.length % 2 ^ 64) ++ value

/-- The stream that `newCredentialMaterial` hashes. -/
def credentialStream (token ca : List Byte) (versions : List (List Byte)) : List Byte :=
  hashPart token ++ hashPart ca ++ versions.flatMap hashPart

/-- The credentials and their digest. -/
structure CredentialMaterial where
  apiToken : List Byte
  caBundle : List Byte
  fingerprint : List Char

/-- Token, bundle and versions are hashed together. -/
def newCredentialMaterial (token ca : List Byte) (versions : List (List Byte)) : CredentialMaterial where
  apiToken := token
  caBundle := ca
  fingerprint := streamHex (credentialStream token ca versions)

end FortigateDns
