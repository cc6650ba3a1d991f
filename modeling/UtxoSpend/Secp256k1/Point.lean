import UtxoSpend.Secp256k1.Field

/-!
# The curve `y² = x³ + 7` and its group

Points are kept with a common denominator, so that adding needs no division: `(x, y, z)` stands for
`(x / z², y / z³)`, and for the neutral point when `z` is zero.
-/

namespace UtxoSpend.Secp256k1

/-- A point that is not the neutral one, by its coordinates. -/
structure Affine where
  x : Nat
  y : Nat
  deriving DecidableEq

/-- A point with a denominator. -/
structure Point where
  x : Nat
  y : Nat
  z : Nat

def curveRhs (x : Nat) : Nat := (x * x % fieldPrime * x + 7) % fieldPrime

def Affine.isOnCurve (p : Affine) : Bool := p.y * p.y % fieldPrime == curveRhs p.x

/-- The point with abscissa `x` whose ordinate has the given parity. -/
def Affine.lift? (x : Nat) (odd : Bool) : Option Affine :=
  let root := sqrtCandidate (curveRhs x)
  if root * root % fieldPrime = curveRhs x then
    some ⟨x, if (root % 2 == 1) == odd then root else subMod fieldPrime 0 root⟩
  else none

namespace Point

def neutral : Point := ⟨1, 1, 0⟩

def ofAffine (p : Affine) : Point := ⟨p.x, p.y, 1⟩

def generator : Point :=
  ⟨0x79be667ef9dcbbac55a06295ce870b07029bfcdb2dce28d959f2815b16f81798,
   0x483ada7726a3c4655da4fbfc0e1108a8fd17b448a68554199c47d08ffb10d4b8, 1⟩

def toAffine? (p : Point) : Option Affine :=
  if p.z = 0 then none
  else
    let i := inverse fieldPrime p.z
    let i2 := i * i % fieldPrime
    some ⟨p.x * i2 % fieldPrime, p.y * (i2 * i % fieldPrime) % fieldPrime⟩

def double (p : Point) : Point :=
  if p.z = 0 then neutral
  else
    let m := fieldPrime
    let yy := p.y * p.y % m
    let s := 4 * (p.x * yy) % m
    let t := 3 * (p.x * p.x) % m
    let x := subMod m (t * t % m) (2 * s % m)
    let y := subMod m (t * subMod m s x % m) (8 * (yy * yy) % m)
    ⟨x, y, 2 * (p.y * p.z) % m⟩

def add (p q : Point) : Point :=
  if p.z = 0 then q
  else if q.z = 0 then p
  else
    let m := fieldPrime
    let pz := p.z * p.z % m
    let qz := q.z * q.z % m
    let u1 := p.x * qz % m
    let u2 := q.x * pz % m
    let s1 := p.y * (qz * q.z % m) % m
    let s2 := q.y * (pz * p.z % m) % m
    if u1 = u2 then
      if s1 = s2 then double p else neutral
    else
      let h := subMod m u2 u1
      let r := subMod m s2 s1
      let hh := h * h % m
      let hhh := hh * h % m
      let v := u1 * hh % m
      let x := subMod m (r * r % m) ((hhh + 2 * v) % m)
      let y := subMod m (r * subMod m v x % m) (s1 * hhh % m)
      ⟨x, y, h * (p.z * q.z % m) % m⟩

def scale (k : Nat) (p : Point) : Point :=
  if k = 0 then neutral
  else
    let half := double (scale (k / 2) p)
    if k % 2 = 1 then add half p else half
termination_by k
decreasing_by omega

end Point

end UtxoSpend.Secp256k1
