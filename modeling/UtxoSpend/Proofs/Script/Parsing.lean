import Mathlib
import UtxoSpend.Bytes.Lemmas
import UtxoSpend.Script.Instruction

/-!
# Parsing and writing instructions

Not every instruction can stand in a script: its data must have the length that its opcode
announces.  Main statement: the instructions of a byte string are exactly the fitting ones that are
written as this byte string, so both directions of every fact about scripts can be read off lists
of instructions.
-/

namespace UtxoSpend

namespace Bytes

theorem drop_toLE_append (width n : Nat) (rest : Bytes) :
    (toLE width n ++ rest).drop width = rest :=
  List.drop_left' (length_toLE width n)

theorem take_toLE_append (width n : Nat) (rest : Bytes) :
    (toLE width n ++ rest).take width = toLE width n :=
  List.take_left' (length_toLE width n)

end Bytes

namespace Instruction

/-- Whether the data has the length that the opcode announces, or fits its length field. -/
def Fits (i : Instruction) : Prop :=
  if pushLengthWidth i.op = 0 then
    i.data.length = if i.op ≤ Opcode.data75 then i.op.toNat else 0
  else i.data.length < 256 ^ pushLengthWidth i.op

instance : DecidablePred Fits := fun i =>
  inferInstanceAs (Decidable (if pushLengthWidth i.op = 0 then
    i.data.length = (if i.op ≤ Opcode.data75 then i.op.toNat else 0) else
    i.data.length < 256 ^ pushLengthWidth i.op))

theorem pushLengthField_eq (op : Opcode) (length : Nat) :
    pushLengthField op length = Bytes.toLE (pushLengthWidth op) length := by
  unfold pushLengthField pushLengthWidth
  split_ifs <;> rfl

theorem encode_eq (i : Instruction) :
    i.encode = i.op :: (Bytes.toLE (pushLengthWidth i.op) i.data.length ++ i.data) := by
  rw [encode, pushLengthField_eq]

theorem length_encode (i : Instruction) :
    i.encode.length = 1 + pushLengthWidth i.op + i.data.length := by
  simp only [encode_eq, List.length_cons, List.length_append, Bytes.length_toLE]
  omega

theorem extent_of_fits {i : Instruction} (h : i.Fits) (rest : Bytes) :
    extent i.op (Bytes.toLE (pushLengthWidth i.op) i.data.length ++ rest) =
      .ok (pushLengthWidth i.op, i.data.length) := by
  unfold Fits at h
  unfold extent
  by_cases hwidth : pushLengthWidth i.op = 0
  · rw [if_pos hwidth] at h
    simp only [hwidth, if_true, ← h]
  · rw [if_neg hwidth] at h
    simp only [hwidth, if_false, Bytes.take_toLE_append, Bytes.length_toLE, lt_irrefl,
      Bytes.leNat_toLE_of_lt h]

theorem parseOnto_encode {i : Instruction} (h : i.Fits) (acc : List Instruction) (offset : Nat)
    (rest : Bytes) :
    parseOnto acc offset (i.encode ++ rest) =
      parseOnto (i :: acc) (offset + i.encode.length) rest := by
  rw [length_encode, encode_eq, List.cons_append, List.append_assoc, parseOnto, extent_of_fits h]
  simp only [Bytes.drop_toLE_append, List.take_left, lt_irrefl, if_false, ← List.drop_drop,
    List.drop_left]
  congr 1
  omega

theorem parseOnto_flatMap_encode {is : List Instruction} (h : ∀ i ∈ is, i.Fits)
    (acc : List Instruction) (offset : Nat) :
    parseOnto acc offset (is.flatMap encode) = .ok (acc.reverse ++ is) := by
  induction is generalizing acc offset with
  | nil => rw [List.flatMap_nil, parseOnto, List.append_nil]
  | cons i is ih =>
      have hi : i.Fits := h i List.mem_cons_self
      have his : ∀ j ∈ is, j.Fits := fun j hj => h j (List.mem_cons_of_mem i hj)
      rw [List.flatMap_cons, parseOnto_encode hi, ih his, List.reverse_cons, List.append_assoc]
      rfl

theorem fits_of_extent {op : Opcode} {rest : Bytes} {width length : Nat}
    (h : extent op rest = .ok (width, length))
    (hlength : ¬((rest.drop width).take length).length < length) :
    Fits ⟨op, (rest.drop width).take length⟩ ∧
      op :: rest = encode ⟨op, (rest.drop width).take length⟩ ++ rest.drop (width + length) := by
  have hlen : ((rest.drop width).take length).length = length :=
    Nat.le_antisymm (List.length_take_le _ _) (Nat.le_of_not_lt hlength)
  unfold extent at h
  by_cases hwidth : pushLengthWidth op = 0
  · simp only [hwidth, if_true, Except.ok.injEq, Prod.mk.injEq] at h
    obtain ⟨rfl, hop⟩ := h
    refine ⟨?_, ?_⟩
    · rw [Fits, if_pos hwidth, hlen, hop]
    · rw [encode_eq, hwidth, Bytes.toLE, List.nil_append, List.cons_append, List.drop_zero,
        Nat.zero_add, List.take_append_drop]
  · simp only [hwidth, if_false] at h
    split at h
    · cases h
    · rename_i hfield
      simp only [Except.ok.injEq, Prod.mk.injEq] at h
      obtain ⟨rfl, rfl⟩ := h
      have hfull : (rest.take (pushLengthWidth op)).length = pushLengthWidth op :=
        Nat.le_antisymm (List.length_take_le _ _) (Nat.le_of_not_lt hfield)
      refine ⟨?_, ?_⟩
      · rw [Fits, if_neg hwidth, hlen]
        have hlt := Bytes.leNat_lt (rest.take (pushLengthWidth op))
        rwa [hfull] at hlt
      · have hread := Bytes.toLE_leNat (rest.take (pushLengthWidth op))
        rw [hfull] at hread
        rw [encode_eq, hlen, hread, List.cons_append, List.append_assoc, ← List.drop_drop,
          List.take_append_drop, List.take_append_drop]

theorem eq_of_parseOnto {acc : List Instruction} {offset : Nat} {bs : Bytes}
    {is : List Instruction} (h : parseOnto acc offset bs = .ok is) :
    ∃ js, is = acc.reverse ++ js ∧ (∀ j ∈ js, j.Fits) ∧ bs = js.flatMap encode := by
  induction acc, offset, bs using parseOnto.induct with
  | case1 acc offset =>
      rw [parseOnto] at h
      cases h
      exact ⟨[], (List.append_nil _).symm, by simp, rfl⟩
  | case2 acc offset op rest defect hextent =>
      rw [parseOnto, hextent] at h
      cases h
  | case3 acc offset op rest width length hextent data hshort =>
      rw [parseOnto, hextent] at h
      simp only [if_pos hshort, data] at h
      cases h
  | case4 acc offset op rest width length hextent data hlong ih =>
      rw [parseOnto, hextent] at h
      simp only [if_neg hlong, data] at h
      obtain ⟨js, his, hjs, hrest⟩ := ih h
      obtain ⟨hfits, hbytes⟩ := fits_of_extent hextent hlong
      refine ⟨⟨op, data⟩ :: js, ?_, ?_, ?_⟩
      · rw [his, List.reverse_cons, List.append_assoc]
        rfl
      · exact List.forall_mem_cons.mpr ⟨hfits, hjs⟩
      · rw [List.flatMap_cons, ← hrest]
        exact hbytes

/-- Parsing inverts writing, on exactly the lists that can stand in a script. -/
theorem parse_eq_ok_iff {bs : Bytes} {is : List Instruction} :
    parse bs = .ok is ↔ (∀ i ∈ is, i.Fits) ∧ bs = is.flatMap encode := by
  constructor
  · intro h
    obtain ⟨js, his, hjs, hbs⟩ := eq_of_parseOnto h
    rw [List.reverse_nil, List.nil_append] at his
    rw [his]
    exact ⟨hjs, hbs⟩
  · rintro ⟨hfits, rfl⟩
    exact parseOnto_flatMap_encode hfits [] 0

theorem parse_append {a b : Bytes} {is js : List Instruction} (ha : parse a = .ok is)
    (hb : parse b = .ok js) : parse (a ++ b) = .ok (is ++ js) := by
  obtain ⟨his, rfl⟩ := parse_eq_ok_iff.mp ha
  obtain ⟨hjs, rfl⟩ := parse_eq_ok_iff.mp hb
  refine parse_eq_ok_iff.mpr ⟨?_, List.flatMap_append.symm⟩
  intro i hi
  rcases List.mem_append.mp hi with hi | hi
  · exact his i hi
  · exact hjs i hi

theorem fits_of_parse_singleton {b : UInt8} {is : List Instruction} (h : parse [b] = .ok is) :
    is = [⟨b, []⟩] ∧ Fits ⟨b, []⟩ := by
  obtain ⟨hfits, hbytes⟩ := parse_eq_ok_iff.mp h
  cases is with
  | nil => cases hbytes
  | cons i js =>
      simp only [List.flatMap_cons, encode, List.cons_append, List.cons.injEq, List.nil_eq,
        List.append_eq_nil_iff] at hbytes
      obtain ⟨hop, ⟨-, hdata⟩, hrest⟩ := hbytes
      have hi : i = ⟨b, []⟩ := by rw [hop, ← hdata]
      have hjs : js = [] := by
        cases js with
        | nil => rfl
        | cons j js => simp [encode] at hrest
      rw [hi, hjs]
      exact ⟨rfl, hi ▸ hfits i List.mem_cons_self⟩

theorem parse_eq_nil_iff {bs : Bytes} {is : List Instruction} (h : parse bs = .ok is) :
    is = [] ↔ bs = [] := by
  obtain ⟨-, rfl⟩ := parse_eq_ok_iff.mp h
  cases is with
  | nil => simp
  | cons i is => simp [encode]

end Instruction

end UtxoSpend
