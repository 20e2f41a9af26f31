import Fathomry.Failure
import Fathomry.Invocation

/-!
# Objects of a store

What the uploads of the store have in common: errors, the limits of a source,
the parts of an upload and what is known of a transfer.

The limits are those that `validate` has let through. In particular a
transfer of the greatest length fits into the greatest number of parts.
-/

namespace Minio

variable {ε : Type}

inductive Kind where
  | input
  | write
  | integrity
  | limit
  | protocol
  | cleanup
  | state
  | authority
  | unsupported
deriving DecidableEq

inductive Cause (ε : Type) where
  | unexpectedEOF
  | noProgress
  | other (err : ε)

abbrev Err (ε : Type) := Fault Kind Unit (Cause ε)

def providerID : String := "objectstore.minio.v7"

def failure (kind : Kind) (operation : String) (causes : List (Option (Err ε))) : Err ε :=
  .new kind operation providerID () causes

/-- `nativeFailure`: an error with what the context and the code of the
response add to it. -/
def nativeFailure (kind : Kind) (operation : String) (added : List (Option (Err ε)))
    (err : Option (Err ε)) : Option (Err ε) :=
  err.map (fun e => failure kind operation (some e :: added))

/-- `5 << 20`: the least size of a part that is not the last one. -/
def minPartBytes : ℕ := 5 * 2 ^ 20

theorem minPartBytes_le : minPartBytes ≤ 16 * 2 ^ 20 := by decide

/-- **The limits of a source.** -/
structure Settings where
  bucket : String
  partBytes : ℕ
  maxParts : ℕ
  maxTransferBytes : ℕ
  le_partBytes : minPartBytes ≤ partBytes
  partBytes_le : partBytes ≤ 16 * 2 ^ 20
  maxParts_pos : 0 < maxParts
  maxParts_le : maxParts ≤ 1000
  maxTransferBytes_pos : 0 < maxTransferBytes
  maxTransferBytes_le : maxTransferBytes ≤ partBytes * maxParts

def validText (value : String) (maximum : ℕ) (empty : Bool) : Bool :=
  decide (value.utf8ByteSize ≤ maximum) && (empty || value ≠ "")
    && value.toList.all (fun c => decide (32 ≤ c.toNat) && c.toNat ≠ 127)

/-- `validETag`: no quotation mark and no backslash. -/
def validETag (value : String) : Bool :=
  validText value 256 true && value.toList.all (fun c => c.toNat ≠ 34 && c.toNat ≠ 92)

def confirms (etag : String) : Bool := etag ≠ "" && validETag etag

structure CompletePart where
  number : ℕ
  etag : String
deriving DecidableEq

inductive Effect where
  | notSubmitted
  | unknown
  | acknowledged
deriving DecidableEq

/-- `Transfer`, without the digests. An upload id that is not there is
empty. -/
structure Transfer where
  effect : Effect
  bytes : ℕ
  complete : Bool
  uploadID : String
  partsAcknowledged : ℕ
  completionAttempted : Bool
  abortAttempted : Bool
  abortAcknowledged : Bool
deriving DecidableEq

def Transfer.new : Transfer := ⟨.notSubmitted, 0, false, "", 0, false, false, false⟩

/-- What a native call says about the object it has made. -/
structure UploadInfo where
  bucket : String
  key : String
  etag : String

end Minio
