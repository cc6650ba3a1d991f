import UtxoSpend.Secp256k1.Nonce
import UtxoSpend.Secp256k1.Point

/-!
# ECDSA on numbers
-/

namespace UtxoSpend.Secp256k1.Ecdsa

def lowS (s : Nat) : Nat := if halfOrder < s then order - s else s

/-- Signs a digest number with the deterministic nonce; `s` is at most half the order. -/
def sign? (secret digest : Nat) : Option (Nat × Nat) := do
  let k ← Nonce.derive? secret digest
  let point ← (Point.generator.scale k).toAffine?
  let r := point.x % order
  let s := inverse order k * ((digest + r * secret) % order) % order
  if r = 0 ∨ s = 0 then none else some (r, lowS s)

/-- Whether `(r, s)` signs a digest number for a public point; both must lie in `[1, order)`. -/
def verify (key : Affine) (digest r s : Nat) : Bool :=
  if r = 0 ∨ order ≤ r ∨ s = 0 ∨ order ≤ s then false
  else
    let w := inverse order s
    let left := Point.generator.scale (digest * w % order)
    let right := (Point.ofAffine key).scale (r * w % order)
    match (left.add right).toAffine? with
    | none => false
    | some point => point.x % order == r

end UtxoSpend.Secp256k1.Ecdsa
