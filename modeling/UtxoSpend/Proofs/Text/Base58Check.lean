import Mathlib
import UtxoSpend.Key.PrivateKey
import UtxoSpend.Proofs.Key.Signing
import UtxoSpend.Proofs.Text.Base58
import UtxoSpend.Script.Address

/-!
# Every checked payload has one text

The checksum of a payload leaves no choice, so a payload has one text, and so has an address.  A
private key has two payloads under every version, with and without the flag for compressed public
keys, and is written in the one with the flag.  Main statement: payloads, addresses and keys are
read from their texts and from no others.
-/

namespace UtxoSpend

namespace Base58Check

theorem length_checksum (payload : Bytes) : (checksum payload).length = checksumSize := by
  rw [checksum, List.length_take, (Hash.sha256d payload).length_eq]
  rfl

theorem verify_eq_ok_iff {decoded payload : Bytes} :
    verify decoded = .ok payload ↔ decoded = payload ++ checksum payload := by
  unfold verify
  dsimp only
  constructor
  · intro h
    split_ifs at h with hshort hchecksum
    cases h
    rw [← hchecksum, List.take_append_drop]
  · rintro rfl
    have hlength := length_checksum payload
    have hpayload : (payload ++ checksum payload).length - checksumSize = payload.length := by
      rw [List.length_append, hlength, Nat.add_sub_cancel]
    rw [if_neg (by rw [List.length_append, hlength]; omega), hpayload, List.take_left,
      List.drop_left, if_pos rfl]

theorem decode_eq_ok_iff {text : String} {payload : Bytes} :
    decode text = .ok payload ↔ text = encode payload := by
  rw [encode, ← Base58.decode_eq_ok_iff, decode]
  cases Base58.decode text with
  | error e => simp
  | ok decoded => simp [verify_eq_ok_iff]

theorem decode_encode (payload : Bytes) : decode (encode payload) = .ok payload :=
  decode_eq_ok_iff.mpr rfl

theorem encode_injective : Function.Injective encode := by
  intro a b h
  have hdecode := decode_encode a
  rw [h, decode_encode] at hdecode
  exact (Except.ok.inj hdecode).symm

end Base58Check

namespace Address

theorem ofPayload?_eq_some_iff {payload : Bytes} {a : Address} :
    ofPayload? payload = some a ↔ payload = a.version :: a.hash.bytes := by
  cases payload with
  | nil => simp [ofPayload?]
  | cons version hash =>
      rw [ofPayload?, ByteVector.ofBytes?, List.cons.injEq]
      constructor
      · intro h
        split_ifs at h with hlength
        · cases h
          exact ⟨rfl, rfl⟩
        · cases h
      · rintro ⟨rfl, rfl⟩
        rw [dif_pos a.hash.length_eq]
        rfl

theorem ofText_eq_ok_iff {text : String} {a : Address} : ofText text = .ok a ↔ text = a.toText := by
  rw [toText, ← Base58Check.decode_eq_ok_iff, ofText]
  cases Base58Check.decode text with
  | error e => simp
  | ok payload =>
      have hpayload : ofPayload? payload = some a ↔ payload = a.version :: a.hash.bytes :=
        ofPayload?_eq_some_iff
      cases h : ofPayload? payload with
      | none => simp_all
      | some b => simp_all

end Address

namespace PrivateKey

theorem length_toBytes (key : PrivateKey) : key.toBytes.length = 32 := Bytes.length_toBE 32 _

theorem ofBytes_eq_ok_iff {bs : Bytes} {key : PrivateKey} :
    ofBytes bs = .ok key ↔ bs = key.toBytes := by
  unfold ofBytes
  constructor
  · intro h
    split_ifs at h with hlength hrange
    cases h
    have hbytes := Bytes.toBE_beNat bs
    rw [not_not.mp hlength] at hbytes
    exact hbytes.symm
  · rintro rfl
    have hvalue : Bytes.beNat key.toBytes = key.scalar :=
      Bytes.beNat_toBE_of_lt (key.scalar_lt.trans Secp256k1.order_lt)
    have hrange : 0 < Bytes.beNat key.toBytes ∧ Bytes.beNat key.toBytes < Secp256k1.order := by
      rw [hvalue]
      exact ⟨key.scalar_pos, key.scalar_lt⟩
    rw [if_neg (not_not.mpr key.length_toBytes), dif_pos hrange]
    congr 2

theorem ofWifPayload_cons (version : UInt8) (rest : Bytes) :
    ofWifPayload (version :: rest) =
      if rest.length = 33 then
        if rest[32]? = some compressedFlag then ofBytes (rest.take 32)
        else .error (.wif .badCompressionFlag)
      else if rest.length = 32 then ofBytes (rest.take 32)
      else .error (.wif (.badLength (rest.length + 1 + Base58Check.checksumSize))) := by
  unfold ofWifPayload
  simp only [List.length_cons, Nat.reduceEqDiff, List.drop_one, List.tail_cons,
    List.getElem?_cons_succ]

theorem ofWifPayload_eq_ok_iff {payload : Bytes} {key : PrivateKey} :
    ofWifPayload payload = .ok key ↔
      ∃ version flag, (flag = [] ∨ flag = [compressedFlag]) ∧
        payload = version :: key.toBytes ++ flag := by
  constructor
  · intro h
    cases payload with
    | nil => cases h
    | cons version rest =>
        rw [ofWifPayload_cons] at h
        split_ifs at h with hflagged hflag hplain
        · have hlast : rest.drop 32 = [compressedFlag] := by
            obtain ⟨last, hdrop⟩ := List.length_eq_one_iff.mp
              (show (rest.drop 32).length = 1 by rw [List.length_drop, hflagged])
            have hget : (rest.drop 32)[0]? = rest[32]? := List.getElem?_drop
            rw [hdrop, hflag, List.getElem?_cons_zero, Option.some_inj] at hget
            rw [hdrop, hget]
          refine ⟨version, [compressedFlag], .inr rfl, ?_⟩
          rw [← ofBytes_eq_ok_iff.mp h, ← hlast, List.cons_append, List.take_append_drop]
        · refine ⟨version, [], .inl rfl, ?_⟩
          rw [← ofBytes_eq_ok_iff.mp h, List.append_nil, List.take_of_length_le hplain.le]
  · rintro ⟨version, flag, hflag, rfl⟩
    have hlength := key.length_toBytes
    have hkey : (key.toBytes ++ flag).take 32 = key.toBytes := by
      rw [← hlength, List.take_left]
    have hget : (key.toBytes ++ flag)[32]? = flag[0]? := by
      rw [List.getElem?_append_right hlength.le, hlength]
    rw [List.cons_append, ofWifPayload_cons, hkey, hget, List.length_append, hlength,
      ofBytes_eq_ok_iff.mpr rfl]
    rcases hflag with rfl | rfl
    · rfl
    · rfl

theorem ofWif_eq_ok_iff {text : String} {key : PrivateKey} :
    ofWif text = .ok key ↔
      ∃ version flag, (flag = [] ∨ flag = [compressedFlag]) ∧
        text = Base58Check.encode (version :: key.toBytes ++ flag) := by
  simp only [← Base58Check.decode_eq_ok_iff]
  unfold ofWif
  cases Base58Check.decode text with
  | error e => cases e <;> simp
  | ok payload => simp [ofWifPayload_eq_ok_iff]

theorem ofWif_toWif (key : PrivateKey) (version : UInt8) : ofWif (key.toWif version) = .ok key :=
  ofWif_eq_ok_iff.mpr ⟨version, [compressedFlag], .inr rfl, rfl⟩

/-- A key is written as a text only where the text holds the flag. -/
theorem toWif_eq_encode_iff {key : PrivateKey} {version : UInt8} {flag : Bytes} :
    key.toWif version = Base58Check.encode (version :: key.toBytes ++ flag) ↔
      flag = [compressedFlag] := by
  rw [toWif, Base58Check.encode_injective.eq_iff, List.append_cancel_left_eq, eq_comm]

end PrivateKey

/-! ## The texts -/

/-- Payloads and addresses are read from what they are written as and from nothing else.  A key is
read from what it is written as, and from one other text a version, which lacks the flag for
compressed public keys. -/
theorem Base58Check.texts_canonical :
    (∀ payload, Base58Check.decode (Base58Check.encode payload) = .ok payload) ∧
    (∀ text payload, Base58Check.decode text = .ok payload → Base58Check.encode payload = text) ∧
    (∀ text a, Address.ofText text = .ok a ↔ text = a.toText) ∧
    (∀ (key : PrivateKey) version, PrivateKey.ofWif (key.toWif version) = .ok key) ∧
    ∀ text key, PrivateKey.ofWif text = .ok key →
      key.toBytes.length = 32 ∧ ∃ version flag,
        Base58Check.decode text = .ok (version :: key.toBytes ++ flag) ∧
        (flag = [] ∨ flag = [PrivateKey.compressedFlag]) ∧
        (key.toWif version = text ↔ flag = [PrivateKey.compressedFlag]) := by
  refine ⟨decode_encode, fun text payload h => (decode_eq_ok_iff.mp h).symm,
    fun text a => Address.ofText_eq_ok_iff, PrivateKey.ofWif_toWif, fun text key h => ?_⟩
  obtain ⟨version, flag, hflag, rfl⟩ := PrivateKey.ofWif_eq_ok_iff.mp h
  exact ⟨key.length_toBytes, version, flag, decode_encode _, hflag,
    PrivateKey.toWif_eq_encode_iff⟩

/-- The address of the hash that is all zeros, and the least key in the form without the flag. -/
theorem Base58Check.texts_canonical_zeroHash :
    Base58Check.decode "1111111111111111111114oLvT2" = .ok (List.replicate 21 0) ∧
      Base58Check.encode (List.replicate 21 0) = "1111111111111111111114oLvT2" ∧
      PrivateKey.ofWif "5HpHagT65TZzG1PH3CSu63k8DbpvD8s5ip4nEB3kEsreAnchuDf" =
        .ok ⟨1, by decide, by decide⟩ ∧
      ∃ version flag, Base58Check.decode "5HpHagT65TZzG1PH3CSu63k8DbpvD8s5ip4nEB3kEsreAnchuDf" =
        .ok (version :: Bytes.toBE 32 1 ++ flag) := by
  have haddress : Base58Check.decode "1111111111111111111114oLvT2" = .ok (List.replicate 21 0) := by
    decide +kernel
  have hkey : PrivateKey.ofWif "5HpHagT65TZzG1PH3CSu63k8DbpvD8s5ip4nEB3kEsreAnchuDf" =
      .ok ⟨1, by decide, by decide⟩ := by decide +kernel
  obtain ⟨-, version, flag, hdecode, -, -⟩ := texts_canonical.2.2.2.2 _ _ hkey
  exact ⟨haddress, texts_canonical.2.1 _ _ haddress, hkey, version, flag, hdecode⟩

end UtxoSpend
