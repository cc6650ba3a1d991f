import Mathlib
import UtxoSpend.Proofs.Bytes.BigEndian
import UtxoSpend.Proofs.Bytes.Positional
import UtxoSpend.Proofs.Effect
import UtxoSpend.Text.Base58

/-!
# Every byte string has one Base58 text

A text is a byte string's digits in another base, written in an alphabet of ASCII characters.  Main
statement: a text is read as a byte string exactly if it is what the byte string is written as.
-/

namespace UtxoSpend

theorem Text.utf8_injective : Function.Injective Text.utf8 := by
  intro a b h
  have hbytes : (String.ofList a).toByteArray = (String.ofList b).toByteArray := by
    rw [String.toByteArray_ofList, String.toByteArray_ofList]
    exact congrArg List.toByteArray h
  have htext := String.toByteArray_inj.mp hbytes
  rw [← String.toList_ofList (l := a), htext, String.toList_ofList]

namespace Base58

/-! ## Digits -/

theorem utf8EncodeChar_digitChar {d : Nat} (h : d < 58) :
    ∃ c, String.utf8EncodeChar (digitChar d) = [c] ∧ c ≤ 127 ∧ digitValue? c = some d := by
  have htable : ∀ d : Fin 58, ∃ c, String.utf8EncodeChar (digitChar d) = [c] ∧ c ≤ 127 ∧
      digitValue? c = some d.val := by decide +kernel
  exact htable ⟨d, h⟩

theorem eq_utf8_of_digitValue? {c : UInt8} {d : Nat} (h : digitValue? c = some d) :
    d < 58 ∧ String.utf8EncodeChar (digitChar d) = [c] := by
  have htable : ∀ d : Fin 58,
      String.utf8EncodeChar (digitChar d) = [UInt8.ofNat (digitChar d).toNat] := by decide +kernel
  obtain ⟨hlt, hchar, -⟩ := List.findIdx?_eq_some_iff_getElem.mp h
  have hdigit : (digitChar d).toNat = c.toNat := by
    rw [digitChar, List.getD_eq_getElem _ _ hlt]
    exact beq_iff_eq.mp hchar
  refine ⟨hlt, ?_⟩
  rw [htable ⟨d, hlt⟩, hdigit, UInt8.ofNat_toNat]

theorem digitAt_eq_ok_iff {c : UInt8} {position d : Nat} :
    digitAt (c, position) = .ok d ↔ c ≤ 127 ∧ digitValue? c = some d := by
  unfold digitAt
  by_cases hc : c ≤ 127
  · rw [if_neg (UInt8.not_lt.mpr hc)]
    cases digitValue? c <;> simp [hc]
  · rw [if_pos (UInt8.not_le.mp hc)]
    simp [hc]

/-! ## Reading a text -/

theorem mapM_digitAt_utf8 {ds : List Nat} (h : ∀ d ∈ ds, d < 58) (position : Nat) :
    ((Text.utf8 (ds.map digitChar)).zipIdx position).mapM digitAt = .ok ds := by
  induction ds generalizing position with
  | nil => rfl
  | cons d ds ih =>
      obtain ⟨hd, hds⟩ := List.forall_mem_cons.mp h
      obtain ⟨c, hc, hascii, hvalue⟩ := utf8EncodeChar_digitChar hd
      have htext : Text.utf8 ((d :: ds).map digitChar) = c :: Text.utf8 (ds.map digitChar) := by
        rw [Text.utf8, List.map_cons, List.flatMap_cons, hc]
        rfl
      rw [htext, List.zipIdx_cons, List.mapM_cons, digitAt_eq_ok_iff.mpr ⟨hascii, hvalue⟩]
      change (do let r ← _; pure (d :: r)) = Except.ok (d :: ds)
      rw [ih hds]
      rfl

theorem eq_utf8_of_mapM_digitAt {text : Bytes} {position : Nat} {ds : List Nat}
    (h : (text.zipIdx position).mapM digitAt = .ok ds) :
    (∀ d ∈ ds, d < 58) ∧ text = Text.utf8 (ds.map digitChar) := by
  induction text generalizing position ds with
  | nil =>
      cases h
      exact ⟨by simp, rfl⟩
  | cons c text ih =>
      rw [List.zipIdx_cons, List.mapM_cons] at h
      obtain ⟨d, hd, h⟩ := Effect.except_bind_eq_ok.mp h
      obtain ⟨rest, hrest, h⟩ := Effect.except_bind_eq_ok.mp h
      cases h
      obtain ⟨hlt, htext⟩ := ih hrest
      obtain ⟨hdlt, hc⟩ := eq_utf8_of_digitValue? (digitAt_eq_ok_iff.mp hd).2
      refine ⟨List.forall_mem_cons.mpr ⟨hdlt, hlt⟩, ?_⟩
      rw [Text.utf8, List.map_cons, List.flatMap_cons, hc, htext]
      rfl

theorem decode_eq_ok_iff_digits {text : String} {bs : Bytes} :
    decode text = .ok bs ↔
      ∃ ds, (∀ d ∈ ds, d < 58) ∧ text.toList = ds.map digitChar ∧ bs = ofDigits ds := by
  unfold decode decodeUtf8
  constructor
  · intro h
    cases hdigits : (Text.utf8 text.toList).zipIdx.mapM digitAt with
    | error e =>
        rw [hdigits] at h
        cases h
    | ok ds =>
        rw [hdigits] at h
        cases h
        obtain ⟨hlt, htext⟩ := eq_utf8_of_mapM_digitAt hdigits
        exact ⟨ds, hlt, Text.utf8_injective htext, rfl⟩
  · rintro ⟨ds, hlt, htext, rfl⟩
    rw [htext, mapM_digitAt_utf8 hlt]
    rfl

/-! ## Both directions are changes of base -/

theorem encodeChars_eq (bs : Bytes) :
    encodeChars bs = (Positional.rebase 256 58 (bs.map UInt8.toNat)).map digitChar := by
  have hzeros : ((bs.map UInt8.toNat).takeWhile (· == 0)).length = leadingZeros bs := by
    have hzero : ((fun n : Nat => n == 0) ∘ UInt8.toNat) = (fun b : UInt8 => b == 0) := by
      funext b
      rw [Bool.eq_iff_iff]
      simp [← UInt8.toNat_inj]
    rw [List.takeWhile_map, List.length_map, leadingZeros, hzero]
  rw [encodeChars, Positional.rebase, List.map_append, List.map_replicate, hzeros,
    Bytes.beNat_eq_leNat_reverse, Bytes.leNat_eq_value, List.map_reverse (f := UInt8.toNat)]
  rfl

theorem ofDigits_eq (ds : List Nat) :
    ofDigits ds = (Positional.rebase 58 256 ds).map UInt8.ofNat := by
  rw [ofDigits, Positional.rebase, List.map_append, List.map_replicate, List.map_reverse]
  rfl

/-- A text is read as the byte string that is written as the text. -/
theorem decode_eq_ok_iff {text : String} {bs : Bytes} :
    decode text = .ok bs ↔ text = encode bs := by
  rw [decode_eq_ok_iff_digits]
  constructor
  · rintro ⟨ds, hlt, htext, rfl⟩
    have hbytes : ∀ b ∈ Positional.rebase 58 256 ds, b < 256 := fun b hb =>
      Positional.lt_of_mem_rebase (by decide) hb
    rw [encode, encodeChars_eq, ofDigits_eq, Bytes.map_toNat_map_ofNat hbytes,
      Positional.rebase_rebase (by decide) (by decide) hlt, ← htext, String.ofList_toList]
  · rintro rfl
    have hlt : ∀ b ∈ bs.map UInt8.toNat, b < 256 := by
      intro b hb
      obtain ⟨c, -, rfl⟩ := List.mem_map.mp hb
      exact c.toNat_lt
    refine ⟨Positional.rebase 256 58 (bs.map UInt8.toNat), fun d hd =>
      Positional.lt_of_mem_rebase (by decide) hd, ?_, ?_⟩
    · rw [encode, String.toList_ofList, encodeChars_eq]
    · rw [ofDigits_eq, Positional.rebase_rebase (by decide) (by decide) hlt,
        Bytes.map_ofNat_map_toNat]

end Base58

end UtxoSpend
