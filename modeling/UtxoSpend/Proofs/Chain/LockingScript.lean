import Mathlib
import UtxoSpend.Chain.Chain
import UtxoSpend.Proofs.Script.Chunks
import UtxoSpend.Proofs.Script.Template
import UtxoSpend.Proofs.Text.Base58Check

/-!
# Paying to an address

A standard script can be built from a hash, recognised by the bytes around the hash, or read chunk
by chunk.  An address of a chain tells by its version which of the two is built.  Main statement:
all three agree on both standard scripts, and paying to the text of an address builds the script
that locks to its hash.
-/

namespace UtxoSpend

namespace Script

variable {s : Script} {hash : ByteVector 20}

/-! ## Recognition -/

theorem frames_iff (bs front back : Bytes) :
    (bs.length = front.length + 20 + back.length ∧ bs.take front.length = front) ∧
        bs.drop (front.length + 20) = back ↔
      ∃ hash : ByteVector 20, bs = front ++ (hash.bytes ++ back) := by
  constructor
  · rintro ⟨⟨hlength, hfront⟩, hback⟩
    have hhash : ((bs.drop front.length).take 20).length = 20 := by
      rw [List.length_take, List.length_drop]
      omega
    refine ⟨⟨_, hhash⟩, ?_⟩
    calc bs = bs.take front.length ++ bs.drop front.length := (List.take_append_drop _ _).symm
      _ = bs.take front.length ++
          ((bs.drop front.length).take 20 ++ (bs.drop front.length).drop 20) := by
        rw [List.take_append_drop 20]
      _ = front ++ ((bs.drop front.length).take 20 ++ back) := by
        rw [List.drop_drop, hfront, hback]
  · rintro ⟨hash, rfl⟩
    refine ⟨⟨?_, List.take_left⟩, ?_⟩
    · rw [List.length_append, List.length_append, hash.length_eq, Nat.add_assoc]
    · rw [← List.drop_drop, List.drop_left, List.drop_left' hash.length_eq]

theorem isPayToKeyHash_iff : s.isPayToKeyHash = true ↔ ∃ hash, s = payToKeyHash hash := by
  cases s with
  | mk bytes =>
      have h := frames_iff bytes [Opcode.dup, Opcode.hash160, 20]
        [Opcode.equalVerify, Opcode.checkSig]
      simp only [isPayToKeyHash, Bool.and_eq_true, beq_iff_eq, payToKeyHash, mk.injEq]
      exact h

theorem isPayToScriptHash_iff : s.isPayToScriptHash = true ↔ ∃ hash, s = payToScriptHash hash := by
  cases s with
  | mk bytes =>
      have h := frames_iff bytes [Opcode.hash160, 20] [Opcode.equal]
      simp only [isPayToScriptHash, Bool.and_eq_true, beq_iff_eq, payToScriptHash, mk.injEq]
      exact h

theorem payToKeyHash_injective : Function.Injective payToKeyHash := by
  intro a b h
  simp only [payToKeyHash, mk.injEq, List.cons.injEq, true_and] at h
  apply ByteVector.ext
  exact List.append_cancel_right h

theorem payToScriptHash_injective : Function.Injective payToScriptHash := by
  intro a b h
  simp only [payToScriptHash, mk.injEq, List.cons.injEq, true_and] at h
  apply ByteVector.ext
  exact List.append_cancel_right h

theorem keyHash_payToKeyHash (hash : ByteVector 20) : (payToKeyHash hash).keyHash = .ok hash := by
  have hempty : (payToKeyHash hash).isEmpty = false := rfl
  have hrecognised : (payToKeyHash hash).isPayToKeyHash = true := isPayToKeyHash_iff.mpr ⟨hash, rfl⟩
  have hbytes : ((payToKeyHash hash).bytes.drop 3).take 20 = hash.bytes :=
    List.take_left' hash.length_eq
  rw [keyHash, hempty, if_neg Bool.false_ne_true, if_pos hrecognised, hbytes, ByteVector.ofBytes?,
    dif_pos hash.length_eq]

/-- The hash is told of the scripts that lock to it, and of no others. -/
theorem keyHash_eq_ok_iff : s.keyHash = .ok hash ↔ s = payToKeyHash hash := by
  constructor
  · intro h
    by_cases hrecognised : s.isPayToKeyHash = true
    · obtain ⟨locked, rfl⟩ := isPayToKeyHash_iff.mp hrecognised
      rw [keyHash_payToKeyHash] at h
      cases h
      rfl
    · rw [keyHash] at h
      split_ifs at h
  · rintro rfl
    exact keyHash_payToKeyHash hash

/-! ## Chunks -/

def keyHashChunks (hash : ByteVector 20) : List Chunk :=
  [⟨Opcode.dup, none⟩, ⟨Opcode.hash160, none⟩, ⟨20, some hash.bytes⟩, ⟨Opcode.equalVerify, none⟩,
    ⟨Opcode.checkSig, none⟩]

def scriptHashChunks (hash : ByteVector 20) : List Chunk :=
  [⟨Opcode.hash160, none⟩, ⟨20, some hash.bytes⟩, ⟨Opcode.equal, none⟩]

theorem wellFormed_push20 (hash : ByteVector 20) : Chunk.WellFormed ⟨20, some hash.bytes⟩ :=
  .direct (by decide) (by decide) hash.length_eq

theorem chunks_eq_keyHashChunks_iff :
    s.chunks = .ok (keyHashChunks hash) ↔ s = payToKeyHash hash := by
  have hformed : ∀ c ∈ keyHashChunks hash, c.WellFormed := by
    simp only [keyHashChunks, List.forall_mem_cons, wellFormed_push20, true_and]
    exact ⟨.bare (by decide), .bare (by decide), .bare (by decide), .bare (by decide), by simp⟩
  cases s with
  | mk bytes =>
      rw [chunks, Chunk.decode_eq_ok_iff, and_iff_right hformed, payToKeyHash, mk.injEq]
      rfl

theorem chunks_eq_scriptHashChunks_iff :
    s.chunks = .ok (scriptHashChunks hash) ↔ s = payToScriptHash hash := by
  have hformed : ∀ c ∈ scriptHashChunks hash, c.WellFormed := by
    simp only [scriptHashChunks, List.forall_mem_cons, wellFormed_push20, true_and]
    exact ⟨.bare (by decide), .bare (by decide), by simp⟩
  cases s with
  | mk bytes =>
      rw [chunks, Chunk.decode_eq_ok_iff, and_iff_right hformed, payToScriptHash, mk.injEq]
      rfl

/-- The bytes around the hash and the chunks both tell the standard scripts from all others, and the
hash of a key is told of the scripts that lock to it alone. -/
structure StandardForms (s : Script) : Prop where
  keyHash_bytes : s.isPayToKeyHash = true ↔ ∃ hash, s = payToKeyHash hash
  keyHash_told : ∀ hash, s.keyHash = .ok hash ↔ s = payToKeyHash hash
  keyHash_chunks : s.isPayToKeyHash = true ↔ ∃ hash, s.chunks = .ok (keyHashChunks hash)
  scriptHash_bytes : s.isPayToScriptHash = true ↔ ∃ hash, s = payToScriptHash hash
  scriptHash_chunks : s.isPayToScriptHash = true ↔ ∃ hash, s.chunks = .ok (scriptHashChunks hash)
  not_both : ¬(s.isPayToKeyHash = true ∧ s.isPayToScriptHash = true)

theorem standardForms (s : Script) : s.StandardForms where
  keyHash_bytes := isPayToKeyHash_iff
  keyHash_told hash := keyHash_eq_ok_iff
  keyHash_chunks := by
    simp only [isPayToKeyHash_iff, chunks_eq_keyHashChunks_iff]
  scriptHash_bytes := isPayToScriptHash_iff
  scriptHash_chunks := by
    simp only [isPayToScriptHash_iff, chunks_eq_scriptHashChunks_iff]
  not_both := by
    rintro ⟨hkey, hscript⟩
    obtain ⟨hash, rfl⟩ := isPayToKeyHash_iff.mp hkey
    rw [isPayToScriptHash_payToKeyHash] at hscript
    cases hscript

end Script

/-! ## Addresses -/

namespace Chain

variable {c : Chain} {hash : ByteVector 20}

theorem lockingScript_keyVersion :
    c.lockingScript ⟨c.keyVersion, hash⟩ = .ok (.payToKeyHash hash) := by
  rw [lockingScript, if_pos rfl]

/-- The version of key hashes is tried first, so the other one has to differ from it. -/
theorem lockingScript_scriptVersion (hversions : c.keyVersion ≠ c.scriptVersion) :
    c.lockingScript ⟨c.scriptVersion, hash⟩ = .ok (.payToScriptHash hash) := by
  rw [lockingScript, if_neg hversions.symm, if_pos rfl]

theorem lockingScript_of_foreign {a : Address} (hkey : a.version ≠ c.keyVersion)
    (hscript : a.version ≠ c.scriptVersion) :
    c.lockingScript a = .error (.unsupportedVersion a.version) := by
  rw [lockingScript, if_neg hkey, if_neg hscript]

theorem lockingScriptOfText_of_ofText {text : String} {a : Address}
    (h : Address.ofText text = .ok a) : c.lockingScriptOfText text = c.lockingScript a := by
  rw [lockingScriptOfText, h]

theorem lockingScriptOfText_toText (a : Address) :
    c.lockingScriptOfText a.toText = c.lockingScript a :=
  lockingScriptOfText_of_ofText (Address.ofText_eq_ok_iff.mpr rfl)

/-- Paying to the text of an address locks to its hash, in the standard script that its version asks
for, and every other version is refused.  The bytes around the hash, the chunks and the template
tell the same scripts apart, and each of these holds one hash. -/
theorem lockingScript_exact (c : Chain) (hversions : c.keyVersion ≠ c.scriptVersion) :
    (∀ hash, c.lockingScriptOfText (Address.toText ⟨c.keyVersion, hash⟩) =
      .ok (.payToKeyHash hash)) ∧
    (∀ hash, c.lockingScriptOfText (Address.toText ⟨c.scriptVersion, hash⟩) =
      .ok (.payToScriptHash hash)) ∧
    (∀ text a, Address.ofText text = .ok a → a.version ≠ c.keyVersion →
      a.version ≠ c.scriptVersion →
        c.lockingScriptOfText text = .error (.unsupportedVersion a.version)) ∧
    Function.Injective Script.payToKeyHash ∧ Function.Injective Script.payToScriptHash ∧
    ∀ s : Script, s.StandardForms := by
  constructor
  · intro hash
    rw [lockingScriptOfText_toText, lockingScript_keyVersion]
  constructor
  · intro hash
    rw [lockingScriptOfText_toText, lockingScript_scriptVersion hversions]
  constructor
  · intro text a htext hkey hscript
    rw [lockingScriptOfText_of_ofText htext, lockingScript_of_foreign hkey hscript]
  · exact ⟨Script.payToKeyHash_injective, Script.payToScriptHash_injective, Script.standardForms⟩

/-- The address of the hash that is all zeros locks to it on one chain, and is refused on another
whose versions are others. -/
theorem lockingScript_exact_zeroHash :
    bitcoin.keyVersion ≠ bitcoin.scriptVersion ∧
      bitcoinGold.keyVersion ≠ bitcoinGold.scriptVersion ∧
      bitcoin.lockingScriptOfText "1111111111111111111114oLvT2" =
        .ok (.payToKeyHash (.replicate 20 0)) ∧
      bitcoinGold.lockingScriptOfText "1111111111111111111114oLvT2" =
        .error (.unsupportedVersion 0) := by
  have htext : Address.ofText "1111111111111111111114oLvT2" = .ok ⟨0, .replicate 20 0⟩ := by
    decide +kernel
  have hbitcoin : bitcoin.keyVersion ≠ bitcoin.scriptVersion := by decide
  have hgold : bitcoinGold.keyVersion ≠ bitcoinGold.scriptVersion := by decide
  have hpays := (lockingScript_exact bitcoin hbitcoin).1 (.replicate 20 0)
  have hrefuses := (lockingScript_exact bitcoinGold hgold).2.2.1 _ _ htext
  refine ⟨hbitcoin, hgold, ?_, hrefuses (by decide) (by decide)⟩
  rw [Address.ofText_eq_ok_iff.mp htext]
  exact hpays

end Chain

end UtxoSpend
