import UtxoSpend.Bytes.Hex
import UtxoSpend.Text.Base58

/-!
# Why wire data, keys and signatures are refused

One cause for every defect; the wording is in the `message` functions.
-/

namespace UtxoSpend

inductive PrivateKeyDefect
  | wrongLength (actual : Nat)
  | emptyText
  | outOfRange
  deriving DecidableEq

inductive PublicKeyDefect
  | noBytes
  | notAPoint
  deriving DecidableEq

inductive SignaturePart
  | r
  | s
  deriving DecidableEq

inductive SignatureDefect
  | tooShort
  | noHeader
  | badLength
  | badIntegerLength (part : SignaturePart)
  | noIntegerMarker (part : SignaturePart)
  | integerTooWide
  | zero
  | aboveOrder
  | noNonce
  deriving DecidableEq

inductive WifDefect
  | base58 (cause : Base58Error)
  | badCompressionFlag
  | badLength (actual : Nat)
  deriving DecidableEq

/-- Why wire data, a text, a key or a signature is refused. -/
inductive DecodeError
  | unexpectedEnd
  | paddedCount (value : UInt64)
  | hex (cause : HexError)
  | base58 (cause : Base58Error)
  | checksumMismatch
  | wif (defect : WifDefect)
  | privateKey (defect : PrivateKeyDefect)
  | publicKey (defect : PublicKeyDefect)
  | signature (defect : SignatureDefect)
  deriving DecidableEq

namespace PrivateKeyDefect

def message : PrivateKeyDefect → String
  | wrongLength actual => s!"expected 32 bytes, got {actual}"
  | emptyText => "private key hex is empty"
  | outOfRange => "signature error"

end PrivateKeyDefect

namespace PublicKeyDefect

def message : PublicKeyDefect → String
  | noBytes => "pubkey bytes are empty"
  | notAPoint => "signature error"

end PublicKeyDefect

namespace SignaturePart

def name : SignaturePart → String
  | r => "R"
  | s => "S"

end SignaturePart

namespace SignatureDefect

def message : SignatureDefect → String
  | tooShort => "malformed signature: too short"
  | noHeader => "malformed signature: no header magic"
  | badLength => "malformed signature: bad length"
  | badIntegerLength part => s!"malformed signature: bogus {part.name} length"
  | noIntegerMarker part => s!"malformed signature: no {part.name} int marker"
  | integerTooWide => "integer value too large for 32 bytes"
  | zero => "signature R or S is zero"
  | aboveOrder => "signature R or S is >= curve.N"
  | noNonce => "signature error"

end SignatureDefect

namespace WifDefect

def message : WifDefect → String
  | base58 cause => s!"invalid base58: {cause.message}"
  | badCompressionFlag => "malformed private key: invalid compression flag"
  | badLength actual => s!"malformed private key: invalid length {actual}"

end WifDefect

namespace DecodeError

def message : DecodeError → String
  | unexpectedEnd => "unexpected end of data"
  | paddedCount value => s!"non-canonical varint encoding of {value.toNat}"
  | hex cause => s!"invalid hex: {cause.message}"
  | base58 cause => s!"invalid base58: {cause.message}"
  | checksumMismatch => "checksum mismatch"
  | wif defect => s!"invalid WIF format: {defect.message}"
  | privateKey defect => s!"invalid private key: {defect.message}"
  | publicKey defect => s!"invalid public key: {defect.message}"
  | signature defect => s!"invalid signature: {defect.message}"

end DecodeError

end UtxoSpend
