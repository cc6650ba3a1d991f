import UtxoSpend.DecodeError
import UtxoSpend.Key.Signature

/-!
# The tagged form of signatures

A signature is written as a sequence of two integers, each with a tag and a length, with `s` in its
lower half. Reading is lenient: integers may carry any number of leading zeros, and bytes after the
declared length are ignored, so that the hash type that follows a signature does no harm.
-/

namespace UtxoSpend.Der

def sequenceTag : UInt8 := 0x30

def integerTag : UInt8 := 0x02

/-- The shortest integer that denotes `v`, with a zero in front if its first bit is set. -/
def canonical (v : ByteVector 32) : Bytes :=
  let short :=
    match Bytes.dropZeros v.bytes with
    | [] => [0]
    | b :: r => b :: r
  match short with
  | b :: r => if b &&& 0x80 ≠ 0 then 0 :: b :: r else b :: r
  | [] => []

def encodeInteger (body : Bytes) : Bytes := integerTag :: UInt8.ofNat body.length :: body

/-- Writes a signature with `s` in its lower half. -/
def encode (sig : Signature) : Bytes :=
  let r := canonical sig.r
  let s := canonical sig.normalS
  sequenceTag :: UInt8.ofNat (4 + r.length + s.length) :: (encodeInteger r ++ encodeInteger s)

def readInteger (part : SignaturePart) : Bytes → Except DecodeError (Bytes × Bytes)
  | tag :: rest =>
    if tag = integerTag then
      match rest with
      | [] => .error (.signature (.badIntegerLength part))
      | size :: body =>
        if size.toNat ≠ 0 ∧ size.toNat ≤ body.length then
          .ok (body.take size.toNat, body.drop size.toNat)
        else .error (.signature (.badIntegerLength part))
    else .error (.signature (.noIntegerMarker part))
  | [] => .error (.signature (.noIntegerMarker part))

def toScalar (integer : Bytes) : Except DecodeError (ByteVector 32) :=
  let short := Bytes.dropZeros integer
  if h : short.length ≤ 32 then
    .ok ⟨Bytes.padLeft 32 short, by simp [Bytes.padLeft]; omega⟩
  else .error (.signature .integerTooWide)

/-- Both integers lie in `[1, order)`. -/
def checkRange (sig : Signature) : Except DecodeError Signature :=
  if sig.r.toNat = 0 ∨ sig.s.toNat = 0 then .error (.signature .zero)
  else if Secp256k1.order ≤ sig.r.toNat ∨ Secp256k1.order ≤ sig.s.toNat then
    .error (.signature .aboveOrder)
  else .ok sig

def readBody (body : Bytes) : Except DecodeError Signature := do
  let (r, rest) ← readInteger .r body
  if rest.length < 3 then
    throw (.signature (.badIntegerLength .r))
  let (s, _) ← readInteger .s rest
  let r ← toScalar r
  let s ← toScalar s
  checkRange ⟨r, s⟩

/-- Reads a signature from the front of `bs`. -/
def decode (bs : Bytes) : Except DecodeError Signature :=
  if bs.length < 8 then .error (.signature .tooShort)
  else
    match bs with
    | tag :: size :: rest =>
      if tag ≠ sequenceTag then .error (.signature .noHeader)
      else if size.toNat < 6 ∨ rest.length < size.toNat then .error (.signature .badLength)
      else readBody (rest.take size.toNat)
    | _ => .error (.signature .tooShort)

end UtxoSpend.Der
