/-!
# Arithmetic modulo the field prime and the group order

Residues are natural numbers below their modulus.
-/

namespace UtxoSpend.Secp256k1

def fieldPrime : Nat := 0xfffffffffffffffffffffffffffffffffffffffffffffffffffffffefffffc2f

/-- The number of points of the curve. -/
def order : Nat := 0xfffffffffffffffffffffffffffffffebaaedce6af48a03bbfd25e8cd0364141

def halfOrder : Nat := 0x7fffffffffffffffffffffffffffffff5d576e7357a4501ddfe92f46681b20a0

def powMod (m base exponent : Nat) : Nat :=
  if exponent = 0 then 1
  else
    let rest := powMod m (base * base % m) (exponent / 2)
    if exponent % 2 = 1 then rest * base % m else rest
termination_by exponent
decreasing_by omega

/-- The inverse of a residue modulo a prime, by Fermat's theorem; zero has the inverse zero. -/
def inverse (m a : Nat) : Nat := powMod m a (m - 2)

def subMod (m a b : Nat) : Nat := (a + (m - b)) % m

/-- A candidate for the square root of a field element: the root if there is one. -/
def sqrtCandidate (a : Nat) : Nat := powMod fieldPrime a ((fieldPrime + 1) / 4)

end UtxoSpend.Secp256k1
