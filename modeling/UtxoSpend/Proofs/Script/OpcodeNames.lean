import Mathlib
import UtxoSpend.Bytes.Lemmas
import UtxoSpend.Proofs.Bytes.Hex
import UtxoSpend.Script.Opcode

/-!
# Opcodes by name

Opcodes have names and are found by names, and the two tables fit.  Main statements: an opcode that
does not announce data is found under its name, up to the last one that has a name; and data in hex
is never taken for a name, because all names begin with the same capital letter.
-/

namespace UtxoSpend.Opcode

def nop10 : Opcode := 0xb9

def names : List String := aliases.map (·.1) ++ table.map (·.1)

theorem spelling_of_mem_names {text : String} (h : text ∈ names) :
    text.toList.head? = some 'O' ∧ ∀ c ∈ text.toList, Text.isBlank c = false := by
  have htable : names.all (fun text =>
      text.toList.head? == some 'O' && text.toList.all (!Text.isBlank ·)) = true := by
    decide +kernel
  simpa using List.all_eq_true.mp htable text h

theorem mem_names_of_ofName? {text : String} {op : Opcode} (h : ofName? text = some op) :
    text ∈ names := by
  rw [names, List.mem_append, List.mem_map, List.mem_map]
  unfold ofName? at h
  cases halias : aliases.find? (·.1 == text) with
  | some e =>
      have hname := List.find?_some halias
      exact .inl ⟨e, List.mem_of_find?_eq_some halias, eq_of_beq hname⟩
  | none =>
      rw [halias] at h
      obtain ⟨i, hfound, -⟩ := Option.map_eq_some_iff.mp h
      obtain ⟨hlt, hname, -⟩ := List.findIdx?_eq_some_iff_getElem.mp hfound
      exact .inr ⟨table[i], List.getElem_mem hlt, eq_of_beq hname⟩

/-- The name of an opcode is understood, unless the opcode announces data. -/
theorem ofName?_name {op : Opcode} (hbare : op = 0 ∨ pushData4 < op) (hnamed : op ≤ nop10) :
    ofName? op.name = some op := by
  have htable : ∀ op : Opcode, (op = 0 ∨ pushData4 < op) → op ≤ nop10 →
      ofName? op.name = some op := forall_byte (by decide +kernel)
  exact htable op hbare hnamed

theorem name_eq_unknown {op : Opcode} (h : nop10 < op) : op.name = "OP_UNKNOWN" := by
  have hlt : 0xb9 < op.toNat := UInt8.lt_iff_toNat_lt.mp h
  have hzero : op ≠ 0 := by
    rintro rfl
    cases hlt
  have h75 : ¬op ≤ data75 := by
    intro hle
    have htop : op.toNat ≤ 0x4b := UInt8.le_iff_toNat_le.mp hle
    omega
  have hlength : table.length = 110 := rfl
  have hentry : entry? op = none := by
    unfold entry? tableStart
    rw [if_neg (by omega), List.getElem?_eq_none_iff, hlength]
    omega
  rw [name, if_neg hzero, if_neg h75, hentry]

theorem ofName?_unknown : ofName? "OP_UNKNOWN" = none := by decide +kernel

theorem ofName?_digits (bs : Bytes) : ofName? (String.ofList (Hex.digits bs)) = none := by
  rw [Option.eq_none_iff_forall_ne_some]
  intro op hop
  obtain ⟨hfirst, -⟩ := spelling_of_mem_names (mem_names_of_ofName? hop)
  rw [String.toList_ofList] at hfirst
  obtain ⟨n, hn⟩ := Hex.exists_eq_hexDigit (List.mem_of_head? hfirst)
  revert n
  decide

end UtxoSpend.Opcode
