import Mathlib
import UtxoSpend.Proofs.Sighash.Fields
import UtxoSpend.Proofs.Sighash.SignedCopy

/-!
# What a message commits to

Whoever signs a message signs all that can be read off it.  Main statements: from the fork-id
message everything the flag signs can be read off, the parts behind a digest as long as the hash
does not collide on them; from the first message the flag and the whole copy that is signed.
-/

namespace UtxoSpend.Sighash

/-! ## The message with a fork id -/

namespace Preimage

variable {tx₁ tx₂ : Transaction} {i₁ i₂ : Nat} {f₁ f₂ : SighashFlag} {s₁ s₂ : Script}
  {a₁ a₂ : UInt64} {m : Bytes}

theorem agreeUnder_of_parts_eq (hbase : f₁.base = f₂.base)
    (hanyone : f₁.anyoneCanPay = f₂.anyoneCanPay) (hcount₁ : tx₁.Countable)
    (hcount₂ : tx₂.Countable) (hprevious : previousPart tx₁ f₁ = previousPart tx₂ f₂)
    (hsequence : sequencePart tx₁ f₁ = sequencePart tx₂ f₂)
    (houtput : outputPart tx₁ i₁ f₁ = outputPart tx₂ i₂ f₂) :
    tx₁.AgreeUnder f₁ i₁ tx₂ i₂ where
  references := by
    intro hclosed
    rw [previousPart, previousPart, ← hanyone, hclosed, if_neg (by decide),
      if_neg (by decide)] at hprevious
    exact OutPoint.flatMap_encode_inj (Option.some.inj hprevious)
  sequences := by
    intro hclosed hall
    rw [sequencePart, sequencePart, ← hanyone, ← hbase, hclosed, hall, if_pos (by decide),
      if_pos (by decide)] at hsequence
    exact Wire.flatMap_u32_inj (Option.some.inj hsequence)
  outputs := by
    intro hall
    rw [outputPart, outputPart, ← hbase, hall] at houtput
    exact Output.flatMap_encode_inj hcount₁.locking hcount₂.locking (Option.some.inj houtput)
  output := by
    intro hsingle
    rw [outputPart, outputPart, ← hbase, hsingle] at houtput
    exact Option.map_injective Output.encode_injective houtput

/-- One message for two requests: they agree on all that the flag signs, the flags on all but the
high byte of the fork id, where a chain without a fork id signs the id zero. What is only signed by
its digest agrees if the hash does not collide on what is hashed for the two. -/
theorem agree_of_message_eq (h₁ : message tx₁ i₁ f₁ s₁ a₁ = .ok m)
    (h₂ : message tx₂ i₂ f₂ s₂ a₂ = .ok m) :
    tx₁.AgreeAt i₁ tx₂ i₂ ∧ s₁ = s₂ ∧ a₁ = a₂ ∧
    f₁.base = f₂.base ∧ f₁.anyoneCanPay = f₂.anyoneCanPay ∧
    (tx₁.chain.forkId.getD 0).toNat % 2 ^ 24 = (tx₂.chain.forkId.getD 0).toNat % 2 ^ 24 ∧
    (CollisionFree (hashedParts tx₁ i₁ f₁ ++ hashedParts tx₂ i₂ f₂) →
      tx₁.Countable → tx₂.Countable → tx₁.AgreeUnder f₁ i₁ tx₂ i₂) := by
  obtain ⟨x, hx, hm₁⟩ := exists_fields_of_message h₁
  obtain ⟨y, hy, hm₂⟩ := exists_fields_of_message h₂
  have hfields := Fields.encode_injective (hm₁.trans hm₂.symm)
  rw [fields, fields, Fields.mk.injEq] at hfields
  obtain ⟨hversion, hprevious, hsequences, hreference, hcode, hamount, hsequence, houtputs,
    hlockTime, hword⟩ := hfields
  obtain ⟨⟨hkind, hopen, -⟩, hfork⟩ := SighashFlag.encode_eq_iff.mp (congrArg Wire.u32 hword)
  have hbase : f₁.base = f₂.base := hkind
  have hanyone : f₁.anyoneCanPay = f₂.anyoneCanPay := hopen
  refine ⟨⟨hversion, hlockTime, x, y, hx, hy, hreference, hsequence⟩, Script.mk.injEq _ _ ▸ hcode,
    hamount, hbase, hanyone, hfork, ?_⟩
  intro hfree hcount₁ hcount₂
  refine agreeUnder_of_parts_eq hbase hanyone hcount₁ hcount₂
    (hfree.eq_of_partDigest_eq ?_ ?_ hprevious) (hfree.eq_of_partDigest_eq ?_ ?_ hsequences)
    (hfree.eq_of_partDigest_eq ?_ ?_ houtputs)
  all_goals
    intro part hpart
    simp [hashedParts, hpart]

def cashTwoByTwo : Transaction := { twoByTwo with chain := .bitcoinCash }

/-- `twoByTwo` unsigned, on a chain whose fork id has only bits that no word of a flag keeps. -/
def farTwoByTwo : Transaction :=
  { twoByTwo.bare with chain := { Chain.bitcoinCash with forkId := some 0x1000000 } }

theorem agree_of_message_eq_twoByTwo : ∃ m,
    message cashTwoByTwo 1 ⟨.all, false, some 0⟩ ⟨[0xac]⟩ 7 = .ok m ∧
    message farTwoByTwo 1 ⟨.all, false, none⟩ ⟨[0xac]⟩ 7 = .ok m ∧
    CollisionFree (hashedParts cashTwoByTwo 1 ⟨.all, false, some 0⟩ ++
      hashedParts farTwoByTwo 1 ⟨.all, false, none⟩) ∧
    cashTwoByTwo.Countable ∧ farTwoByTwo.Countable ∧ cashTwoByTwo.AgreeAt 1 farTwoByTwo 1 ∧
    cashTwoByTwo.AgreeUnder ⟨.all, false, some 0⟩ 1 farTwoByTwo 1 := by
  let m := message cashTwoByTwo 1 ⟨.all, false, some 0⟩ ⟨[0xac]⟩ 7
  obtain ⟨bytes, hcash⟩ : ∃ bytes, m = .ok bytes := ⟨_, message_eq_encode_fields rfl _ _ _⟩
  have hfar : message farTwoByTwo 1 ⟨.all, false, none⟩ ⟨[0xac]⟩ 7 = .ok bytes := hcash
  have hparts : hashedParts farTwoByTwo 1 ⟨.all, false, none⟩ =
      hashedParts cashTwoByTwo 1 ⟨.all, false, some 0⟩ := by decide +kernel
  have hdistinct : (noDigest :: (hashedParts cashTwoByTwo 1 ⟨.all, false, some 0⟩).map
      Hash.sha256d).Nodup := by decide +kernel
  have hfree : CollisionFree (hashedParts cashTwoByTwo 1 ⟨.all, false, some 0⟩ ++
      hashedParts farTwoByTwo 1 ⟨.all, false, none⟩) := by
    refine CollisionFree.of_nodup ?_ hdistinct
    rw [hparts]
    exact List.append_subset.mpr ⟨List.Subset.refl _, List.Subset.refl _⟩
  have hcount₁ : cashTwoByTwo.Countable := ⟨by decide, by decide, by decide, by decide⟩
  have hcount₂ : farTwoByTwo.Countable := ⟨by decide, by decide, by decide, by decide⟩
  obtain ⟨hat, -, -, -, -, -, hunder⟩ := agree_of_message_eq hcash hfar
  exact ⟨bytes, hcash, hfar, hfree, hcount₁, hcount₂, hat, hunder hfree hcount₁ hcount₂⟩

end Preimage

/-! ## The message of the first algorithm -/

namespace Legacy

open Transaction

variable {tx tx₁ tx₂ : Transaction} {index i₁ i₂ : Nat} {flag f₁ f₂ : SighashFlag}
  {code s₁ s₂ : Script} {m : Bytes}

theorem message_eq_ok (h : message tx index flag code = .ok m) :
    index < tx.inputs.length ∧ (tx.signedCopy index flag code).encode ++ flag.encode = m := by
  by_cases hindex : index < tx.inputs.length
  · refine ⟨hindex, ?_⟩
    by_cases houtput : flag.base = .single → index < tx.outputs.length
    · rw [message_eq_encode_signedCopy hindex houtput, Except.ok.injEq] at h
      exact h
    · obtain ⟨hbase, hge⟩ := Classical.not_imp.mp houtput
      rw [message_of_lacking_output hindex hbase (Nat.le_of_not_lt hge)] at h
      cases h
  · simp only [message, List.getElem?_eq_none (Nat.le_of_not_lt hindex)] at h
    cases h

theorem signedCopyInputs_ne_nil (hindex : index < tx.inputs.length) :
    tx.signedCopyInputs index flag code ≠ [] := by
  have hpos : 0 < tx.inputs.length := Nat.zero_lt_of_lt hindex
  apply List.ne_nil_of_length_pos
  unfold signedCopyInputs
  cases flag.anyoneCanPay with
  | true => simp [hindex]
  | false => simpa using hpos

theorem mem_signedCopyInputs {x : Input} (h : x ∈ tx.signedCopyInputs index flag code) :
    ∃ signed, ∃ input ∈ tx.inputs, x = signedCopyInput signed flag.base code input := by
  have hmem : x ∈ tx.inputs.mapIdx fun i => signedCopyInput (i == index) flag.base code := by
    unfold signedCopyInputs at h
    cases hanyone : flag.anyoneCanPay with
    | true =>
        rw [hanyone, if_pos rfl, Option.mem_toList] at h
        exact List.mem_of_getElem? h
    | false =>
        rw [hanyone, if_neg (by decide)] at h
        exact h
  obtain ⟨i, hi, rfl⟩ := List.mem_mapIdx.mp hmem
  exact ⟨i == index, _, List.getElem_mem hi, rfl⟩

theorem mem_signedCopyOutputs {base : SighashBase} {o : Output}
    (h : o ∈ tx.signedCopyOutputs index base) : o ∈ tx.outputs ∨ o = .null := by
  cases base with
  | all => exact .inl h
  | none => cases h
  | single =>
      rcases List.mem_append.mp h with hnull | hsigned
      · exact .inr (List.eq_of_mem_replicate hnull)
      · exact .inl (List.mem_of_getElem? (Option.mem_toList.mp hsigned))

theorem countable_signedCopy (h : tx.Countable) (hindex : index < tx.inputs.length)
    (hcode : code.size < UInt64.size) : (tx.signedCopy index flag code).Countable where
  inputs := by
    have hinputs := h.inputs
    change (tx.signedCopyInputs index flag code).length < _
    unfold signedCopyInputs
    cases flag.anyoneCanPay with
    | true => exact Nat.lt_of_le_of_lt Option.length_toList_le (by decide)
    | false => simpa using hinputs
  outputs := by
    have hinputs := h.inputs
    have houtputs := h.outputs
    change (tx.signedCopyOutputs index flag.base).length < _
    cases flag.base with
    | all => exact houtputs
    | none => exact Nat.zero_lt_of_lt hinputs
    | single =>
        have hone : tx.outputs[index]?.toList.length ≤ 1 := Option.length_toList_le
        rw [signedCopyOutputs, List.length_append, List.length_replicate]
        omega
  unlocking := by
    intro x hx
    obtain ⟨signed, input, -, rfl⟩ := mem_signedCopyInputs hx
    cases signed with
    | true => exact hcode
    | false => exact Nat.zero_lt_of_lt hcode
  locking := by
    intro o ho
    rcases mem_signedCopyOutputs ho with hmem | rfl
    · exact h.locking o hmem
    · exact Nat.zero_lt_of_lt hcode

/-! ### What the copy shows when everything is signed -/

theorem map_previous_signedCopyInputs (hclosed : flag.anyoneCanPay = false) :
    (tx.signedCopyInputs index flag code).map Input.previous = tx.inputs.map Input.previous := by
  apply List.ext_getElem?
  intro j
  rw [List.getElem?_map, List.getElem?_map, getElem?_signedCopyInputs hclosed, Option.map_map]
  rfl

theorem map_sequence_signedCopyInputs (hclosed : flag.anyoneCanPay = false)
    (hall : flag.base = .all) :
    (tx.signedCopyInputs index flag code).map Input.sequence = tx.inputs.map Input.sequence := by
  apply List.ext_getElem?
  intro j
  rw [List.getElem?_map, List.getElem?_map, getElem?_signedCopyInputs hclosed, Option.map_map]
  congr 1
  funext input
  simp [signedCopyInput, hall]

theorem unlockingScript_signedCopyInputs (hclosed : flag.anyoneCanPay = false) (j : Nat) :
    (tx.signedCopyInputs index flag code)[j]?.map Input.unlockingScript =
      tx.inputs[j]?.map fun _ => if j = index then code else .empty := by
  rw [getElem?_signedCopyInputs hclosed, Option.map_map]
  congr 1
  funext input
  simp [signedCopyInput]

/-- The code stands in the copy at the signed input and nowhere else. -/
theorem code_eq_of_scripts_eq (h₁ : i₁ < tx₁.inputs.length) (h₂ : i₂ < tx₂.inputs.length)
    (h : ∀ j, (tx₁.inputs[j]?.map fun _ => if j = i₁ then s₁ else Script.empty) =
      tx₂.inputs[j]?.map fun _ => if j = i₂ then s₂ else Script.empty) :
    s₁ = s₂ ∧ (s₁ ≠ .empty → i₁ = i₂) := by
  have hleft := h i₁
  have hright := h i₂
  rw [List.getElem?_eq_getElem h₁, Option.map_some, if_pos rfl, eq_comm,
    Option.map_eq_some_iff] at hleft
  rw [List.getElem?_eq_getElem h₂, Option.map_some, if_pos rfl, Option.map_eq_some_iff] at hright
  obtain ⟨-, -, hleft⟩ := hleft
  obtain ⟨-, -, hright⟩ := hright
  by_cases hindex : i₁ = i₂
  · rw [if_pos hindex] at hleft
    exact ⟨hleft.symm, fun _ => hindex⟩
  · rw [if_neg hindex] at hleft
    rw [if_neg (Ne.symm hindex)] at hright
    exact ⟨hleft.symm.trans hright, fun hne => absurd hleft.symm hne⟩

/-- One message for two requests: the flags have one word, and what is signed is one copy.  If the
flag signs everything, the transactions agree in all but their unlocking scripts, for one code,
which only an empty one leaves open at which input. -/
theorem signedCopy_eq_of_message_eq (hcount₁ : tx₁.Countable) (hcount₂ : tx₂.Countable)
    (hcode₁ : s₁.size < UInt64.size) (hcode₂ : s₂.size < UInt64.size)
    (h₁ : message tx₁ i₁ f₁ s₁ = .ok m) (h₂ : message tx₂ i₂ f₂ s₂ = .ok m) :
    f₁.toUInt32 = f₂.toUInt32 ∧
    (tx₁.signedCopy i₁ f₁ s₁).written = (tx₂.signedCopy i₂ f₂ s₂).written ∧
    (f₁.base = .all → f₁.anyoneCanPay = false →
      tx₁.version = tx₂.version ∧ tx₁.lockTime = tx₂.lockTime ∧ tx₁.outputs = tx₂.outputs ∧
      tx₁.inputs.map Input.previous = tx₂.inputs.map Input.previous ∧
      tx₁.inputs.map Input.sequence = tx₂.inputs.map Input.sequence ∧
      s₁ = s₂ ∧ (s₁ ≠ .empty → i₁ = i₂)) := by
  obtain ⟨hindex₁, hm₁⟩ := message_eq_ok h₁
  obtain ⟨hindex₂, hm₂⟩ := message_eq_ok h₂
  obtain ⟨hwritten, hencode⟩ := Transaction.encode_append_inj (signedCopyInputs_ne_nil hindex₁)
    (signedCopyInputs_ne_nil hindex₂) (countable_signedCopy hcount₁ hindex₁ hcode₁)
    (countable_signedCopy hcount₂ hindex₂ hcode₂) (hm₁.trans hm₂.symm)
  have hword : f₁.toUInt32 = f₂.toUInt32 := Wire.u32_inj.mp hencode
  refine ⟨hword, hwritten, ?_⟩
  intro hall₁ hclosed₁
  obtain ⟨⟨hbase, hanyone, -⟩, -⟩ := SighashFlag.encode_eq_iff.mp hencode
  have hall₂ : f₂.base = .all := hbase ▸ hall₁
  have hclosed₂ : f₂.anyoneCanPay = false := hanyone ▸ hclosed₁
  simp only [written, Transaction.mk.injEq] at hwritten
  obtain ⟨hversion, hinputs, houtputs, hlockTime, -⟩ := hwritten
  refine ⟨hversion, hlockTime, ?_, ?_, ?_, ?_⟩
  · rw [signedCopy, signedCopy, hall₁, hall₂] at houtputs
    exact houtputs
  · have hprevious := congrArg (List.map Input.previous) hinputs
    rw [List.map_map, List.map_map] at hprevious
    exact (map_previous_signedCopyInputs hclosed₁).symm.trans
      (hprevious.trans (map_previous_signedCopyInputs hclosed₂))
  · have hsequence := congrArg (List.map Input.sequence) hinputs
    rw [List.map_map, List.map_map] at hsequence
    exact (map_sequence_signedCopyInputs hclosed₁ hall₁).symm.trans
      (hsequence.trans (map_sequence_signedCopyInputs hclosed₂ hall₂))
  · refine code_eq_of_scripts_eq hindex₁ hindex₂ fun j => ?_
    have hscript := congrArg (fun inputs => inputs[j]?.map Input.unlockingScript) hinputs
    simp only [List.getElem?_map, Option.map_map] at hscript
    exact (unlockingScript_signedCopyInputs hclosed₁ j).symm.trans
      (hscript.trans (unlockingScript_signedCopyInputs hclosed₂ j))

theorem signedCopy_eq_of_message_eq_twoByTwo : ∃ m,
    twoByTwo.Countable ∧ twoByTwo.bare.Countable ∧ Script.size ⟨[0xac]⟩ < UInt64.size ∧
    message twoByTwo 1 ⟨.all, false, some 0⟩ ⟨[0xac]⟩ = .ok m ∧
    message twoByTwo.bare 1 ⟨.all, false, some 0x1000000⟩ ⟨[0xac]⟩ = .ok m ∧
    SighashFlag.toUInt32 ⟨.all, false, some 0⟩ =
      SighashFlag.toUInt32 ⟨.all, false, some 0x1000000⟩ ∧
    twoByTwo.outputs = twoByTwo.bare.outputs := by
  let m := message twoByTwo 1 ⟨.all, false, some 0⟩ ⟨[0xac]⟩
  obtain ⟨bytes, hleft⟩ : ∃ bytes, m = .ok bytes :=
    ⟨_, message_eq_encode_signedCopy (by decide) (by decide) _⟩
  have hright : message twoByTwo.bare 1 ⟨.all, false, some 0x1000000⟩ ⟨[0xac]⟩ = .ok bytes := hleft
  have hcount₁ : twoByTwo.Countable := ⟨by decide, by decide, by decide, by decide⟩
  have hcount₂ : twoByTwo.bare.Countable := ⟨by decide, by decide, by decide, by decide⟩
  have hcode : Script.size ⟨[0xac]⟩ < UInt64.size := by decide
  obtain ⟨hword, -, hrest⟩ :=
    signedCopy_eq_of_message_eq hcount₁ hcount₂ hcode hcode hleft hright
  obtain ⟨-, -, houtputs, -⟩ := hrest rfl rfl
  exact ⟨bytes, hcount₁, hcount₂, hcode, hleft, hright, hword, houtputs⟩

end Legacy

end UtxoSpend.Sighash
