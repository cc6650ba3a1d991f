import Mathlib
import UtxoSpend.Proofs.Transaction.Unique

/-!
# Bytes that are not a transaction

Whatever is wrong with a byte string is reported as a defect of it, but for the mark of the other
encoding: a count of zero inputs and a one behind the version.  Main statement: what bytes decode
to is a transaction that can be written, a defect or that mark, and a written transaction neither
decodes when its end is missing nor when more follows it.
-/

namespace UtxoSpend

open Effect Read

namespace TransactionError

def IsDefect (e : TransactionError) : Prop := ∃ defect, e = .malformed defect

end TransactionError

open TransactionError (IsDefect)

/-! ## What reads fail with -/

namespace ReadTx

theorem field_failsOnly {α : Type} (part : TransactionField) (read : Read α) :
    FailsOnly IsDefect (field part read) := by
  intro c e d h
  rw [field] at h
  split at h
  · cases h
  · cases h
    exact ⟨_, rfl⟩

end ReadTx

theorem Read.list_failsOnly {ε α : Type} {P : ε → Prop} {read : EStateM ε Cursor α}
    (h : FailsOnly P read) (count : Nat) : FailsOnly P (list read count) := by
  induction count with
  | zero => exact .pure []
  | succ count ih => exact h.bind fun _ => ih.bind fun _ => .pure _

theorem Output.read_failsOnly : FailsOnly IsDefect Output.read :=
  (ReadTx.field_failsOnly _ _).bind fun _ => (ReadTx.field_failsOnly _ _).bind fun _ => .pure _

theorem Input.read_failsOnly : FailsOnly IsDefect Input.read := by
  refine (ReadTx.field_failsOnly _ _).bind fun id => ?_
  refine (ReadTx.field_failsOnly _ _).bind fun index => ?_
  refine (ReadTx.field_failsOnly _ _).bind fun script => ?_
  exact (ReadTx.field_failsOnly _ _).bind fun sequence => .pure _

/-! ## What reads give -/

namespace Read

theorem length_of_counted {c d : Cursor} {bs : Bytes} (h : counted c = .ok bs d) :
    bs.length < UInt64.size := by
  obtain ⟨size, u, -, hbytes⟩ := bind_eq_ok.mp h
  rw [(bytes_consumes hbytes).2]
  exact size.toNat_lt

theorem forall_mem_of_list {ε α : Type} {Q : α → Prop} {read : EStateM ε Cursor α}
    (h : ∀ c x d, read c = .ok x d → Q x) {count : Nat} {c d : Cursor} {xs : List α}
    (hread : list read count c = .ok xs d) : ∀ x ∈ xs, Q x := by
  induction count generalizing c xs with
  | zero =>
      cases hread
      simp
  | succ count ih =>
      obtain ⟨x, u, hx, hrest⟩ := bind_eq_ok.mp hread
      obtain ⟨ys, v, hys, hpure⟩ := bind_eq_ok.mp hrest
      cases hpure
      rw [List.forall_mem_cons]
      exact ⟨h c x u hx, ih hys⟩

end Read

theorem ReadTx.field_eq_ok {α : Type} {part : TransactionField} {read : Read α} {c d : Cursor}
    {x : α} (h : field part read c = .ok x d) : read c = .ok x d := by
  rw [field] at h
  split at h
  · rename_i hread
    cases h
    exact hread
  · cases h

theorem Output.size_of_read {c d : Cursor} {o : Output} (h : Output.read c = .ok o d) :
    o.lockingScript.size < UInt64.size := by
  obtain ⟨amount, c₁, hamount, h⟩ := bind_eq_ok.mp h
  obtain ⟨script, c₂, hscript, h⟩ := bind_eq_ok.mp h
  cases h
  exact length_of_counted (ReadTx.field_eq_ok hscript)

theorem Input.size_of_read {c d : Cursor} {i : Input} (h : Input.read c = .ok i d) :
    i.unlockingScript.size < UInt64.size := by
  obtain ⟨id, c₁, hid, h⟩ := bind_eq_ok.mp h
  obtain ⟨index, c₂, hindex, h⟩ := bind_eq_ok.mp h
  obtain ⟨script, c₃, hscript, h⟩ := bind_eq_ok.mp h
  obtain ⟨sequence, c₄, hsequence, h⟩ := bind_eq_ok.mp h
  cases h
  exact length_of_counted (ReadTx.field_eq_ok hscript)

namespace Transaction

theorem countable_of_read {c d : Cursor} {tx : Transaction} (h : read c = .ok tx d) :
    tx.inputs ≠ [] ∧ tx.Countable := by
  obtain ⟨-, inputCount, outputCount, c₁, c₂, c₃, c₄, c₅, -, -, hne, hinputs, -, houtputs, -⟩ :=
    stages_of_read h
  have hinsLength := (list_consumes Input.read_consumes hinputs).2
  have houtsLength := (list_consumes Output.read_consumes houtputs).2
  constructor
  · intro hnil
    rw [hnil, List.length_nil] at hinsLength
    exact hne (UInt64.toNat_inj.mp hinsLength.symm)
  · constructor
    · rw [hinsLength]
      exact inputCount.toNat_lt
    · rw [houtsLength]
      exact outputCount.toNat_lt
    · exact forall_mem_of_list (fun _ _ _ => Input.size_of_read) hinputs
    · exact forall_mem_of_list (fun _ _ _ => Output.size_of_read) houtputs

/-! ## A count of zero inputs -/

/-- What stands behind a count of zero inputs tells which error it is. -/
theorem read_noInputs {c : Cursor} {version : UInt32} {after : Bytes}
    (h : c.rest = Wire.u32 version ++ 0 :: after) :
    ∃ d, read c =
      .error (if after.head? = some segwitFlag then .segwit else .malformed .noInputs) d := by
  have hversion : ReadTx.field .version Read.u32 c = .ok version ⟨c.position + 4, 0 :: after⟩ :=
    ReadTx.field_accepts (u32_accepts version) _ _ ⟨h, rfl⟩
  have hcount : ReadTx.field .inputCount Read.compactSize ⟨c.position + 4, 0 :: after⟩ =
      .ok 0 ⟨c.position + 5, after⟩ :=
    ReadTx.field_accepts (compactSize_accepts 0) _ _ ⟨rfl, rfl⟩
  refine ⟨⟨c.position + 5, after⟩, ?_⟩
  rw [read, bind_of_ok hversion, bind_of_ok hcount, if_pos rfl]
  refine bind_of_error ?_
  rw [refuseNoInputs, get_bind_run, Cursor.peek?]
  split_ifs <;> rfl

/-- Only behind a count of zero inputs anything but a defect is found. -/
theorem read_eq_error {c d : Cursor} {e : TransactionError} (h : read c = .error e d) :
    IsDefect e ∨ ∃ version after, c.rest = Wire.u32 version ++ 0 :: after := by
  rcases bind_eq_error.mp h with hversion | ⟨version, c₁, hversion, h⟩
  · exact .inl (ReadTx.field_failsOnly _ _ _ _ _ hversion)
  · rcases bind_eq_error.mp h with hcount | ⟨inputCount, c₂, hcount, h⟩
    · exact .inl (ReadTx.field_failsOnly _ _ _ _ _ hcount)
    · by_cases hzero : inputCount = 0
      · right
        subst hzero
        have hpass := (ReadTx.field_consumes u32_consumes _ _ _ hversion).append
          (ReadTx.field_consumes compactSize_consumes _ _ _ hcount)
        exact ⟨version, c₂.rest, hpass.rest.trans (List.append_assoc _ _ _)⟩
      · left
        rw [if_neg hzero] at h
        refine
          FailsOnly.bind (Read.list_failsOnly Input.read_failsOnly _) (fun inputs => ?_) _ _ _ h
        refine (ReadTx.field_failsOnly _ _).bind fun outputCount => ?_
        refine (Read.list_failsOnly Output.read_failsOnly _).bind fun outputs => ?_
        exact (ReadTx.field_failsOnly _ _).bind fun lockTime => .pure _

/-! ## What decodes -/

variable {bs : Bytes} {tx : Transaction}

theorem eq_u32_append_of_getElem? {b : UInt8} (h : bs[4]? = some b) :
    ∃ version, bs = Wire.u32 version ++ b :: bs.drop 5 := by
  obtain ⟨hlt, hget⟩ := List.getElem?_eq_some_iff.mp h
  have hlength : (bs.take 4).length = 4 := List.length_take_of_le (Nat.le_of_lt hlt)
  have hvalue : Bytes.leNat (bs.take 4) < 256 ^ 4 := by
    have hlt := Bytes.leNat_lt (bs.take 4)
    rwa [hlength] at hlt
  have hword : Wire.u32 (UInt32.ofNat (Bytes.leNat (bs.take 4))) = bs.take 4 := by
    have hback := Bytes.toLE_leNat (bs.take 4)
    rw [hlength] at hback
    rw [Wire.u32, isWord_u32.toNat_toWord _ hvalue, hback]
  refine ⟨UInt32.ofNat (Bytes.leNat (bs.take 4)), ?_⟩
  calc bs = bs.take 4 ++ bs.drop 4 := (List.take_append_drop 4 bs).symm
    _ = bs.take 4 ++ b :: bs.drop 5 := by rw [List.drop_eq_getElem_cons hlt, hget]
    _ = _ := by rw [hword]

theorem decode_of_noInputs (h : bs[4]? = some 0) :
    decode bs = .error (if bs[5]? = some segwitFlag then .segwit else .malformed .noInputs) := by
  obtain ⟨version, hbs⟩ := eq_u32_append_of_getElem? h
  obtain ⟨d, hread⟩ := read_noInputs (show (Cursor.start bs).rest = _ from hbs)
  rw [decode, hread, List.head?_drop]

theorem countable_of_decode (h : decode bs = .ok tx) : tx.inputs ≠ [] ∧ tx.Countable := by
  rw [decode] at h
  split at h
  · cases h
  · rename_i t c hread
    split at h
    · cases h
      exact countable_of_read hread
    · cases h

theorem decode_eq_error {e : TransactionError} (h : decode bs = .error e) :
    IsDefect e ∨ e = .segwit ∧ bs[4]? = some 0 ∧ bs[5]? = some segwitFlag := by
  rw [decode] at h
  split at h
  · rename_i e' d hread
    cases h
    rcases read_eq_error hread with hdefect | ⟨version, after, hrest⟩
    · exact .inl hdefect
    · obtain ⟨d', hzero⟩ := read_noInputs hrest
      rw [hread] at hzero
      have hbs : bs = Wire.u32 version ++ 0 :: after := hrest
      split_ifs at hzero with hflag
      · cases hzero
        right
        rw [hbs]
        refine ⟨rfl, rfl, ?_⟩
        rw [← hflag, List.head?_eq_getElem?]
        rfl
      · cases hzero
        exact .inl ⟨_, rfl⟩
  · split at h
    · cases h
    · cases h
      exact .inl ⟨_, rfl⟩

theorem decode_eq_segwit_iff :
    decode bs = .error .segwit ↔ bs[4]? = some 0 ∧ bs[5]? = some segwitFlag := by
  constructor
  · intro h
    rcases decode_eq_error h with ⟨defect, hdefect⟩ | ⟨-, hmark⟩
    · cases hdefect
    · exact hmark
  · rintro ⟨hzero, hflag⟩
    rw [decode_of_noInputs hzero, if_pos hflag]

/-- Where a part of a written transaction is missing at its end, what is left is defective: it is no
transaction, because two cannot begin one string, and the count of its inputs is not zero. -/
theorem decode_of_isPrefix (hin : tx.inputs ≠ []) (hcount : tx.Countable) (h : bs <+: tx.encode)
    (hne : bs ≠ tx.encode) : ∃ defect, decode bs = .error (.malformed defect) := by
  obtain ⟨missing, hmissing⟩ := h
  cases hdecode : decode bs with
  | ok short =>
      obtain ⟨hshort, hshortCount⟩ := countable_of_decode hdecode
      have hencode := encode_of_decode hdecode
      have hsame : short.encode ++ missing = tx.encode ++ [] := by
        rw [hencode, hmissing, List.append_nil]
      obtain ⟨-, rfl⟩ := encode_append_inj hshort hin hshortCount hcount hsame
      rw [List.append_nil] at hmissing
      exact absurd hmissing hne
  | error e =>
      rcases decode_eq_error hdecode with ⟨defect, rfl⟩ | ⟨-, hzero, -⟩
      · exact ⟨defect, rfl⟩
      · have hzero' : tx.encode[4]? = some 0 := by
          rw [← hmissing, List.getElem?_append_left (List.getElem?_eq_some_iff.mp hzero).1]
          exact hzero
        have hrefused := decode_of_noInputs hzero'
        rw [decode_encode hin hcount] at hrefused
        cases hrefused

theorem decode_append (hin : tx.inputs ≠ []) (hcount : tx.Countable) {rest : Bytes}
    (hne : rest ≠ []) :
    decode (tx.encode ++ rest) = .error (.malformed (.trailing rest.length)) := by
  have hread := read_encode hin hcount 0 rest
  have hlength : rest.length ≠ 0 := fun hzero => hne (List.length_eq_zero_iff.mp hzero)
  rw [decode, Cursor.start, hread]
  dsimp only
  rw [Cursor.remaining, if_neg hlength]

/-- Bytes decode, or they are defective, or they bear the mark of the other encoding, which stands
behind a count of zero inputs; with this count nothing decodes.  No proper prefix of a written
transaction decodes and no proper extension, and both are defective. -/
theorem decode_rejects :
    (∀ bs, (∃ tx, decode bs = .ok tx) ∨ (∃ defect, decode bs = .error (.malformed defect)) ∨
      decode bs = .error .segwit) ∧
    (∀ bs, decode bs = .error .segwit ↔ bs[4]? = some 0 ∧ bs[5]? = some 1) ∧
    (∀ bs, bs[4]? = some 0 → ∃ e, decode bs = .error e) ∧
    (∀ bs tx, decode bs = .ok tx → tx.inputs ≠ []) ∧
    ∀ tx : Transaction, tx.inputs ≠ [] → tx.Countable →
      (∀ bs, bs <+: tx.encode → bs ≠ tx.encode →
        ∃ defect, decode bs = .error (.malformed defect)) ∧
      ∀ bs, tx.encode <+: bs → bs ≠ tx.encode →
        ∃ defect, decode bs = .error (.malformed defect) := by
  refine ⟨fun bs => ?_, fun bs => decode_eq_segwit_iff,
    fun bs hzero => ⟨_, decode_of_noInputs hzero⟩, fun bs tx h => (countable_of_decode h).1,
    fun tx hin hcount => ⟨fun bs => ?_, fun bs => ?_⟩⟩
  · cases hdecode : decode bs with
    | ok tx => exact .inl ⟨tx, rfl⟩
    | error e =>
        rcases decode_eq_error hdecode with ⟨defect, rfl⟩ | ⟨rfl, -⟩
        · exact .inr (.inl ⟨defect, rfl⟩)
        · exact .inr (.inr rfl)
  · exact decode_of_isPrefix hin hcount
  · rintro ⟨rest, rfl⟩ hne
    refine ⟨_, decode_append hin hcount ?_⟩
    rintro rfl
    exact hne (List.append_nil _)

theorem decode_rejects_goldSpend :
    goldSpend.inputs ≠ [] ∧ goldSpend.Countable ∧
    (∃ defect, decode (goldSpend.encode.take 6) = .error (.malformed defect)) ∧
    (∃ defect, decode (goldSpend.encode ++ [0]) = .error (.malformed defect)) ∧
    decode [2, 0, 0, 0, 0, 1] = .error .segwit := by
  have hin : goldSpend.inputs ≠ [] := by decide
  have hcount : goldSpend.Countable := ⟨by decide, by decide, by decide, by decide⟩
  obtain ⟨-, hsegwit, -, -, hwritten⟩ := decode_rejects
  obtain ⟨hshort, hlong⟩ := hwritten goldSpend hin hcount
  refine ⟨hin, hcount, hshort _ (List.take_prefix _ _) (by decide), ?_, ?_⟩
  · apply hlong _ (List.prefix_append _ _)
    simp
  · exact (hsegwit _).mpr ⟨rfl, rfl⟩

end Transaction

end UtxoSpend
