import Mathlib
import UtxoSpend.Machine.SignatureOps
import UtxoSpend.Proofs.Script.Push

/-!
# Deleting pushes from the signed code

A signature cannot sign itself, so pushes of it are deleted from the code that it signs.  The rule
is one about bytes: a pattern is dropped wherever an opcode begins with it.  The machine deletes
parsed instructions instead.  Main statement: both come to the same, since no instruction is written
as the beginning of another one, and the order in which several things are deleted does not matter.
-/

namespace UtxoSpend

/-- Scans a script opcode by opcode.  Where the bytes begin with the pattern it is dropped; every
other opcode is copied with its length field and its data.  The empty pattern is never dropped. -/
def Bytes.deleteAtOpcodes (pattern : Bytes) : Bytes → Bytes
  | [] => []
  | op :: rest =>
    if _h : pattern ≠ [] ∧ pattern <+: op :: rest then
      deleteAtOpcodes pattern ((op :: rest).drop pattern.length)
    else
      let extent := pushLengthWidth op + announced op rest
      op :: rest.take extent ++ deleteAtOpcodes pattern (rest.drop extent)
termination_by bs => bs.length
decreasing_by
  · have hpos : 0 < pattern.length := List.length_pos_iff.mpr _h.1
    simp only [List.length_drop, List.length_cons]
    omega
  · simp only [List.length_drop, List.length_cons]
    omega

inductive Cut
  | push (data : Bytes)
  | separators
  deriving DecidableEq

namespace Instruction

/-! ## No instruction begins with another one -/

theorem encode_append_inj {i j : Instruction} (hi : i.Fits) (hj : j.Fits) {a b : Bytes}
    (h : i.encode ++ a = j.encode ++ b) : i = j ∧ a = b := by
  obtain ⟨op, data⟩ := i
  obtain ⟨op', data'⟩ := j
  simp only [encode_eq, List.cons_append, List.append_assoc] at h
  obtain ⟨rfl, hrest⟩ := List.cons.inj h
  -- The opcode and the bytes behind it tell how much data follows.
  have hlength : data.length = data'.length := by
    have hannounced := announced_of_fits hi (data ++ a)
    rw [hrest] at hannounced
    exact hannounced.symm.trans (announced_of_fits hj (data' ++ b))
  rw [hlength] at hrest
  obtain ⟨rfl, rfl⟩ := List.append_inj (List.append_cancel_left hrest) hlength
  exact ⟨rfl, rfl⟩

theorem encode_ne_nil (i : Instruction) : i.encode ≠ [] := List.cons_ne_nil _ _

theorem encode_isPrefix_iff {i j : Instruction} (hi : i.Fits) (hj : j.Fits) (rest : Bytes) :
    j.encode <+: i.encode ++ rest ↔ i.encode = j.encode := by
  constructor
  · rintro ⟨tail, htail⟩
    rw [(encode_append_inj hj hi htail).1]
  · intro h
    rw [h]
    exact List.prefix_append _ _

end Instruction

/-! ## The scan -/

namespace Bytes

open Instruction

theorem deleteAtOpcodes_append_of_eq (i : Instruction) (rest : Bytes) :
    deleteAtOpcodes i.encode (i.encode ++ rest) = deleteAtOpcodes i.encode rest := by
  have hcons : i.encode ++ rest = i.op :: (pushLengthField i.op i.data.length ++ i.data ++ rest) :=
    rfl
  have hmatch : i.encode ≠ [] ∧ i.encode <+: i.encode ++ rest :=
    ⟨encode_ne_nil i, List.prefix_append _ _⟩
  rw [hcons] at hmatch ⊢
  rw [deleteAtOpcodes, dif_pos hmatch, ← hcons, List.drop_left]

theorem deleteAtOpcodes_append_of_ne {i j : Instruction} (hi : i.Fits) (hj : j.Fits)
    (hne : i.encode ≠ j.encode) (rest : Bytes) :
    deleteAtOpcodes j.encode (i.encode ++ rest) =
      i.encode ++ deleteAtOpcodes j.encode rest := by
  have hcons : i.encode ++ rest =
      i.op :: (toLE (pushLengthWidth i.op) i.data.length ++ (i.data ++ rest)) := by
    rw [encode_eq, List.cons_append, List.append_assoc]
  have hmiss : ¬(j.encode ≠ [] ∧ j.encode <+: i.encode ++ rest) :=
    fun h => hne ((encode_isPrefix_iff hi hj rest).mp h.2)
  have hextent : pushLengthWidth i.op + i.data.length =
      (toLE (pushLengthWidth i.op) i.data.length ++ i.data).length := by
    rw [List.length_append, length_toLE]
  rw [hcons] at hmiss ⊢
  rw [deleteAtOpcodes, dif_neg hmiss, announced_of_fits hi, hextent, ← List.append_assoc]
  dsimp only
  rw [List.take_left, List.drop_left, encode_eq i]

theorem deleteAtOpcodes_flatMap {j : Instruction} (hj : j.Fits) {is : List Instruction}
    (h : ∀ i ∈ is, i.Fits) :
    deleteAtOpcodes j.encode (is.flatMap encode) =
      (is.filter fun i => i.encode ≠ j.encode).flatMap encode := by
  induction is with
  | nil => rw [List.flatMap_nil, deleteAtOpcodes]; rfl
  | cons i is ih =>
      obtain ⟨hi, his⟩ := List.forall_mem_cons.mp h
      rw [List.flatMap_cons, List.filter_cons]
      by_cases heq : i.encode = j.encode
      · rw [heq, deleteAtOpcodes_append_of_eq, ih his, if_neg (by simp)]
      · rw [deleteAtOpcodes_append_of_ne hi hj heq, ih his, if_pos (by simp [heq]),
          List.flatMap_cons]

end Bytes

/-! ## Deleted instructions -/

namespace Instruction

theorem isPush_of_encode_eq {i : Instruction} {data header : Bytes}
    (hheader : pushHeader data.length = .ok header) (h : i.encode = header ++ data) :
    i.op.isPush = true := by
  rw [← encode_push hheader] at h
  have hop : i.op = (push data).op := (List.cons.inj h).1
  rw [hop]
  exact isPush_push data

/-- Deleting the pushes of `data` drops the instructions that are written as its shortest push. -/
theorem deletePush_eq_filter (data : Bytes) (is : List Instruction) :
    deletePush data is =
      is.filter fun i => !decide (Script.empty.appendPush data = .ok ⟨i.encode⟩) := by
  rw [deletePush]
  cases hheader : pushHeader data.length with
  | error e =>
      have hkeep : ∀ i : Instruction, Script.empty.appendPush data ≠ .ok ⟨i.encode⟩ := by
        intro i
        rw [Script.appendPush, hheader]
        exact fun h => by cases h
      simp [hkeep]
  | ok header =>
      have hpush : Script.empty.appendPush data = .ok ⟨header ++ data⟩ := by
        rw [Script.appendPush, hheader]
        rfl
      refine List.filter_congr fun i _ => ?_
      by_cases hencode : i.encode = header ++ data
      · have hisPush := isPush_of_encode_eq hheader hencode
        simp [hpush, hencode, hisPush]
      · have hne : header ++ data ≠ i.encode := fun h => hencode h.symm
        simp [hpush, hencode, hne]

theorem deletePush_eq_filter_encode {data : Bytes} (h : data.length ≤ 0xffffffff)
    (is : List Instruction) :
    deletePush data is = is.filter fun i => i.encode ≠ (push data).encode := by
  have happend : Script.empty.appendPush data = .ok ⟨(push data).encode⟩ :=
    Script.appendPush_eq .empty h
  rw [deletePush_eq_filter, happend]
  exact List.filter_congr fun i _ => by simp [eq_comm]

theorem deletePush_deletePush (data : Bytes) (is : List Instruction) :
    deletePush data (deletePush data is) = deletePush data is := by
  simp only [deletePush_eq_filter, List.filter_filter, Bool.and_self]

end Instruction

namespace Cut

open Instruction

def apply : Cut → List Instruction → List Instruction
  | push data, is => deletePush data is
  | separators, is => deleteOpcode Opcode.codeSeparator is

def applyAll (cuts : List Cut) (is : List Instruction) : List Instruction :=
  cuts.foldl (fun is cut => cut.apply is) is

def keeps : Cut → Instruction → Bool
  | push data, i => !decide (Script.empty.appendPush data = .ok ⟨i.encode⟩)
  | separators, i => i.op != Opcode.codeSeparator

theorem apply_eq_filter (cut : Cut) (is : List Instruction) :
    cut.apply is = is.filter cut.keeps := by
  cases cut with
  | push data => exact deletePush_eq_filter data is
  | separators => rfl

theorem applyAll_eq_filter (cuts : List Cut) (is : List Instruction) :
    applyAll cuts is = is.filter fun i => cuts.all (·.keeps i) := by
  induction cuts generalizing is with
  | nil => simp [applyAll]
  | cons cut cuts ih =>
      have hcons : applyAll (cut :: cuts) is = applyAll cuts (cut.apply is) := rfl
      rw [hcons, ih, apply_eq_filter, List.filter_filter]
      simp only [List.all_cons, Bool.and_comm]

theorem applyAll_perm {cuts cuts' : List Cut} (h : cuts.Perm cuts') (is : List Instruction) :
    applyAll cuts is = applyAll cuts' is := by
  simp only [applyAll_eq_filter, h.all_eq]

end Cut

theorem Exec.signedCode_eq_applyAll {env : Env} (hfork : env.has .forkId = false)
    (part : List Instruction) (signatures : List Bytes) :
    signedCode env part signatures =
      Instruction.unparse (Cut.applyAll (signatures.map .push ++ [.separators]) part) := by
  rw [signedCode, hfork, if_neg (by decide), Cut.applyAll, List.foldl_append, List.foldl_map]
  rfl

/-! ## Instructions and bytes -/

/-- The script `s` has the instructions `is`.  Without the shortest pushes of `data` it is what the
scan for the pattern leaves of its bytes, and it has all other instructions, longer pushes of the
same data among them. -/
structure Script.DeletesPushes (s : Script) (is : List Instruction) (data pattern : Bytes) :
    Prop where
  bytewise :
    (Instruction.unparse (Instruction.deletePush data is)).bytes =
      Bytes.deleteAtOpcodes pattern s.bytes
  remaining :
    (Instruction.unparse (Instruction.deletePush data is)).instructions =
      .ok (is.filter fun i => i.encode ≠ pattern)
  gone : ∀ i ∈ Instruction.deletePush data is, i.encode ≠ pattern
  kept : ∀ i ∈ is, i ≠ .push data → i ∈ Instruction.deletePush data is
  again :
    Instruction.deletePush data (Instruction.deletePush data is) = Instruction.deletePush data is

theorem Script.deletesPushes {s : Script} {is : List Instruction} {data : Bytes}
    (hs : s.instructions = .ok is) (hdata : data.length ≤ 0xffffffff) :
    s.DeletesPushes is data (Instruction.push data).encode := by
  obtain ⟨hfits, hbytes⟩ := Instruction.parse_eq_ok_iff.mp hs
  have hpush := Instruction.fits_push hdata
  have hfilter := Instruction.deletePush_eq_filter_encode hdata is
  constructor
  case bytewise =>
    rw [hbytes, Bytes.deleteAtOpcodes_flatMap hpush hfits, hfilter]
    rfl
  case remaining =>
    rw [hfilter]
    refine Instruction.parse_eq_ok_iff.mpr ⟨?_, rfl⟩
    exact fun i hi => hfits i (List.mem_filter.mp hi).1
  case gone =>
    intro i hi
    rw [hfilter] at hi
    exact of_decide_eq_true (List.mem_filter.mp hi).2
  case kept =>
    intro i hi hne
    rw [hfilter]
    refine List.mem_filter.mpr ⟨hi, decide_eq_true fun hencode => hne ?_⟩
    exact (Instruction.encode_append_inj (a := []) (b := []) (hfits i hi) hpush (by rw [hencode])).1
  case again => exact Instruction.deletePush_deletePush data is

/-- Deleting the pushes of some data from parsed instructions is dropping their bytes wherever an
opcode begins with them, and signatures and code separators can be deleted in any order. -/
theorem Script.deletePush_bytewise :
    (∀ (s : Script) (is : List Instruction) (data : Bytes),
      s.instructions = .ok is → data.length < 2 ^ 32 →
        ∃ header, pushHeader data.length = .ok header ∧
          s.DeletesPushes is data (header ++ data)) ∧
      (∀ (is : List Instruction) (cuts cuts' : List Cut), cuts.Perm cuts' →
        Cut.applyAll cuts is = Cut.applyAll cuts' is) ∧
      ∀ (env : Env) (part : List Instruction) (signatures : List Bytes),
        env.has .forkId = false →
          Exec.signedCode env part signatures =
            Instruction.unparse (Cut.applyAll (signatures.map .push ++ [.separators]) part) := by
  refine ⟨?_, fun is _ _ h => Cut.applyAll_perm h is, fun _ part signatures hfork =>
    Exec.signedCode_eq_applyAll hfork part signatures⟩
  intro s is data hs hdata
  obtain ⟨header, hheader⟩ := Instruction.exists_pushHeader (Nat.le_of_lt_succ hdata)
  refine ⟨header, hheader, ?_⟩
  rw [← Instruction.encode_push hheader]
  exact deletesPushes hs (Nat.le_of_lt_succ hdata)

/-- The empty string is pushed by an opcode that is a zero byte.  Zero bytes within other opcodes,
one of which pushes the empty string too, are left. -/
theorem Script.deletePush_bytewise_zeroBytes :
    (Script.mk [0x00, 0x4c, 0x00, 0x01, 0x00, 0xab]).instructions =
        .ok [⟨0x00, []⟩, ⟨0x4c, []⟩, ⟨0x01, [0x00]⟩, ⟨0xab, []⟩] ∧
      ([] : Bytes).length < 2 ^ 32 ∧
      Bytes.deleteAtOpcodes [0x00] [0x00, 0x4c, 0x00, 0x01, 0x00, 0xab] =
        [0x4c, 0x00, 0x01, 0x00, 0xab] ∧
      Exec.signedCode ⟨.none, {}, none, 0⟩
          [⟨0x00, []⟩, ⟨0x4c, []⟩, ⟨0x01, [0x00]⟩, ⟨0xab, []⟩] [[]] =
        ⟨[0x4c, 0x00, 0x01, 0x00]⟩ := by
  have hs : (Script.mk [0x00, 0x4c, 0x00, 0x01, 0x00, 0xab]).instructions =
      .ok [⟨0x00, []⟩, ⟨0x4c, []⟩, ⟨0x01, [0x00]⟩, ⟨0xab, []⟩] := by decide +kernel
  obtain ⟨hdelete, horder, hsigned⟩ := deletePush_bytewise
  obtain ⟨header, hheader, h⟩ := hdelete _ _ [] hs (by decide)
  cases hheader
  refine ⟨hs, by decide, h.bytewise.symm.trans ?_, ?_⟩
  · decide +kernel
  · have hperm : (List.map Cut.push [[]] ++ [Cut.separators]).Perm [.separators, .push []] :=
      List.Perm.swap _ _ _
    rw [hsigned _ _ _ rfl, horder _ _ _ hperm]
    decide +kernel

end UtxoSpend
