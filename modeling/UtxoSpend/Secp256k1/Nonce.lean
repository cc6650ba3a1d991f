import UtxoSpend.Hash.Compound
import UtxoSpend.Secp256k1.Field

/-!
# The deterministic nonce of RFC 6979

The nonce is drawn from the secret and the digest with HMAC-SHA256, so that signing needs no
randomness and gives the same signature every time. The digest enters as it is: one that denotes a
number above the curve order is not reduced first.
-/

namespace UtxoSpend.Secp256k1.Nonce

/-- The generator's two secret strings. -/
structure Generator where
  key : Bytes
  value : Bytes

namespace Generator

def mix (g : Generator) (tag : UInt8) (data : Bytes) : Generator :=
  let key := Hash.Hmac.code g.key (g.value ++ tag :: data)
  ⟨key, Hash.Hmac.code key g.value⟩

def seed (secret digest : Nat) : Generator :=
  let data := Bytes.toBE 32 secret ++ Bytes.toBE 32 digest
  let start : Generator := ⟨List.replicate 32 0, List.replicate 32 1⟩
  (start.mix 0 data).mix 1 data

end Generator

/-- The first of at most `tries` candidates that is a valid nonce. A candidate is refused with a
probability below `2 ^ -127`, so a few tries are more than ever happen. -/
def draw? : Nat → Generator → Option Nat
  | 0, _ => none
  | tries + 1, g =>
    let value := Hash.Hmac.code g.key g.value
    let k := Bytes.beNat value
    if 0 < k ∧ k < order then some k
    else draw? tries (Generator.mix ⟨g.key, value⟩ 0 [])

def derive? (secret digest : Nat) : Option Nat := draw? 64 (Generator.seed secret digest)

end UtxoSpend.Secp256k1.Nonce
