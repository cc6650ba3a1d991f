import Mathlib
import UtxoSpend.Key.PrivateKey
import UtxoSpend.Proofs.Key.Der

/-!
# What signing gives

Main statement: a signature that a key makes is in range and in the lower half, so that it can be
written and read back; that it verifies is relied on, digest by digest.
-/

namespace UtxoSpend

namespace Secp256k1

theorem order_eq : order = 2 * halfOrder + 1 := by decide

theorem order_lt : order < 256 ^ 32 := by decide

theorem Ecdsa.lowS_range {s : Nat} (hpos : 0 < s) (hlt : s < order) :
    0 < lowS s ∧ lowS s ≤ halfOrder := by
  have horder := order_eq
  unfold lowS
  split_ifs
  · omega
  · omega

theorem Ecdsa.sign?_range {secret digest r s : Nat} (h : sign? secret digest = some (r, s)) :
    0 < r ∧ r < order ∧ 0 < s ∧ s ≤ halfOrder := by
  simp only [sign?, Option.bind_eq_bind, Option.bind_eq_some_iff] at h
  obtain ⟨k, -, point, -, h⟩ := h
  split_ifs at h with hzero
  cases h
  have horder : 0 < order := by decide
  have hs := lowS_range (Nat.pos_of_ne_zero (not_or.mp hzero).2) (Nat.mod_lt _ horder)
  exact ⟨Nat.pos_of_ne_zero (not_or.mp hzero).1, Nat.mod_lt _ horder, hs.1, hs.2⟩

end Secp256k1

namespace PrivateKey

/-- What is relied on in signing a digest: a nonce is found, and the signature verifies for the
public key. -/
def Signs (key : PrivateKey) (digest : Bytes) : Prop :=
  ∃ r s, Secp256k1.Ecdsa.sign? key.scalar (PublicKey.digestNumber digest) = some (r, s) ∧
    Secp256k1.Ecdsa.verify key.publicKey.point (PublicKey.digestNumber digest) r s = true

/-- The definition of signing, as an equation of functions: an equation of values would have the
nonce search computed when it is checked. -/
theorem sign_def :
    sign = fun key digest =>
      match Secp256k1.Ecdsa.sign? key.scalar (PublicKey.digestNumber digest) with
      | some (r, s) => .ok ⟨.ofNat 32 r, .ofNat 32 s⟩
      | none => .error (.signature .noNonce) := rfl

theorem exists_sign {key : PrivateKey} {digest : Bytes} (h : key.Signs digest) :
    ∃ sig, key.sign digest = .ok sig ∧ Der.InRange sig ∧ sig.isLowS = true ∧
      key.publicKey.verify digest sig = true := by
  obtain ⟨r, s, hsign, hverify⟩ := h
  obtain ⟨hr, hrorder, hs, hlow⟩ := Secp256k1.Ecdsa.sign?_range hsign
  have horder := Secp256k1.order_eq
  have hwidth := Secp256k1.order_lt
  have hrnat : (ByteVector.ofNat 32 r).toNat = r := ByteVector.toNat_ofNat_of_lt (by omega)
  have hsnat : (ByteVector.ofNat 32 s).toNat = s := ByteVector.toNat_ofNat_of_lt (by omega)
  have hisLow : Signature.isLowS ⟨.ofNat 32 r, .ofNat 32 s⟩ = true := by
    rw [Signature.isLowS, hsnat]
    exact decide_eq_true hlow
  refine ⟨⟨.ofNat 32 r, .ofNat 32 s⟩, ?_, ?_, hisLow, ?_⟩
  · rw [sign_def]
    beta_reduce
    rw [hsign]
  · rw [Der.InRange, hrnat, hsnat]
    omega
  · rw [PublicKey.verify, Signature.normalS, if_pos hisLow, hrnat, hsnat]
    exact hverify

end PrivateKey

end UtxoSpend
