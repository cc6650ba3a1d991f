import Mathlib
import UtxoSpend.Proofs.Transaction.RoundTrip

/-!
# Written forms are told apart

A form that reads back shows where it ends, so what follows it cannot be taken for a part of it.
Main statement: two written transactions that begin one string are the same, as far as bytes tell,
and the same bytes follow them.  References, sequences and outputs in a row are told apart even
where no count stands in front of them.
-/

namespace UtxoSpend

namespace Read

variable {ε α β : Type}

theorem Accepts.append_inj {read : EStateM ε Cursor β} {xs ys r s : Bytes} {x y : β}
    (hx : Accepts read xs x) (hy : Accepts read ys y) (h : xs ++ r = ys ++ s) :
    x = y ∧ r = s := by
  have hleft : read ⟨0, xs ++ r⟩ = .ok x ⟨0 + xs.length, r⟩ := hx _ _ ⟨rfl, rfl⟩
  have hright : read ⟨0, ys ++ s⟩ = .ok y ⟨0 + ys.length, s⟩ := hy _ _ ⟨rfl, rfl⟩
  rw [h, hright, EStateM.Result.ok.injEq, Cursor.mk.injEq] at hleft
  obtain ⟨hvalue, -, hrest⟩ := hleft
  exact ⟨hvalue.symm, hrest.symm⟩

/-- A row of forms is the row of only one list, as long as no form is empty. -/
theorem flatMap_inj {read : EStateM ε Cursor α} {write : α → Bytes} (hne : ∀ x, write x ≠ [])
    {xs ys : List α} (hxs : ∀ x ∈ xs, Accepts read (write x) x)
    (hys : ∀ y ∈ ys, Accepts read (write y) y) (h : xs.flatMap write = ys.flatMap write) :
    xs = ys := by
  induction xs generalizing ys with
  | nil =>
      cases ys with
      | nil => rfl
      | cons y ys =>
          rw [List.flatMap_cons] at h
          exact absurd (List.append_eq_nil_iff.mp h.symm).1 (hne y)
  | cons x xs ih =>
      cases ys with
      | nil =>
          rw [List.flatMap_cons] at h
          exact absurd (List.append_eq_nil_iff.mp h).1 (hne x)
      | cons y ys =>
          rw [List.flatMap_cons, List.flatMap_cons] at h
          obtain ⟨hhead, htail⟩ :=
            (hxs x List.mem_cons_self).append_inj (hys y List.mem_cons_self) h
          have hrest := ih (fun z hz => hxs z (List.mem_cons_of_mem x hz))
            (fun z hz => hys z (List.mem_cons_of_mem y hz)) htail
          rw [hhead, hrest]

end Read

namespace Wire

@[simp] theorem length_u32 (v : UInt32) : (u32 v).length = 4 := Bytes.length_toLE _ _

@[simp] theorem length_u64 (v : UInt64) : (u64 v).length = 8 := Bytes.length_toLE _ _

theorem u32_append_inj {v w : UInt32} {r s : Bytes} (h : u32 v ++ r = u32 w ++ s) :
    v = w ∧ r = s :=
  (Read.u32_accepts v).append_inj (Read.u32_accepts w) h

theorem u64_append_inj {v w : UInt64} {r s : Bytes} (h : u64 v ++ r = u64 w ++ s) :
    v = w ∧ r = s :=
  (Read.u64_accepts v).append_inj (Read.u64_accepts w) h

theorem bytes_append_inj {n : Nat} {v w : ByteVector n} {r s : Bytes}
    (h : v.bytes ++ r = w.bytes ++ s) : v = w ∧ r = s :=
  (Read.vector_accepts v).append_inj (Read.vector_accepts w) h

/-- Where the rests are equally long, not even the size of a counted string matters: its length can
be told from that of the whole. -/
theorem counted_append_inj {a b r s : Bytes} (hlength : r.length = s.length)
    (h : counted a ++ r = counted b ++ s) : a = b ∧ r = s := by
  rw [counted, counted, List.append_assoc, List.append_assoc] at h
  obtain ⟨-, hrest⟩ :=
    (Read.compactSize_accepts _).append_inj (Read.compactSize_accepts _) h
  exact List.append_inj' hrest hlength

theorem flatMap_u32_inj {vs ws : List UInt32} (h : vs.flatMap u32 = ws.flatMap u32) : vs = ws :=
  Read.flatMap_inj (fun _ => List.cons_ne_nil _ _) (fun v _ => Read.u32_accepts v)
    (fun w _ => Read.u32_accepts w) h

end Wire

namespace OutPoint

def read : Read OutPoint := do
  let id ← Read.vector 32
  let index ← Read.u32
  return ⟨id.reverse, index⟩

theorem read_accepts (p : OutPoint) : Read.Accepts read p.encode p := by
  have hencode : p.encode = p.txId.reverse.bytes ++ (Wire.u32 p.index ++ []) := by
    rw [encode, List.append_nil]
  rw [hencode]
  refine (Read.vector_accepts _).bind ((Read.u32_accepts _).bind ?_)
  rw [ByteVector.reverse_reverse]
  exact Read.Accepts.pure p

theorem length_encode (p : OutPoint) : p.encode.length = 36 := by
  rw [encode, List.length_append, ByteVector.length_bytes, Wire.length_u32]

theorem encode_ne_nil (p : OutPoint) : p.encode ≠ [] := by
  apply List.ne_nil_of_length_pos
  rw [length_encode]
  decide

theorem encode_append_inj {p q : OutPoint} {r s : Bytes} (h : p.encode ++ r = q.encode ++ s) :
    p = q ∧ r = s :=
  p.read_accepts.append_inj q.read_accepts h

theorem flatMap_encode_inj {ps qs : List OutPoint} (h : ps.flatMap encode = qs.flatMap encode) :
    ps = qs :=
  Read.flatMap_inj encode_ne_nil (fun p _ => p.read_accepts) (fun q _ => q.read_accepts) h

end OutPoint

namespace Output

theorem encode_injective : Function.Injective encode := by
  rintro ⟨amount, ⟨script⟩⟩ ⟨amount', ⟨script'⟩⟩ h
  obtain ⟨rfl, hscript⟩ := Wire.u64_append_inj h
  rw [← List.append_nil (Wire.counted script), ← List.append_nil (Wire.counted script')] at hscript
  obtain ⟨rfl, -⟩ := Wire.counted_append_inj rfl hscript
  rfl

theorem flatMap_encode_inj {os ps : List Output}
    (hos : ∀ o ∈ os, o.lockingScript.size < UInt64.size)
    (hps : ∀ p ∈ ps, p.lockingScript.size < UInt64.size)
    (h : os.flatMap encode = ps.flatMap encode) : os = ps :=
  Read.flatMap_inj (fun _ => List.cons_ne_nil _ _) (fun o ho => read_accepts (hos o ho))
    (fun p hp => read_accepts (hps p hp)) h

end Output

namespace Transaction

theorem encode_append_inj {a b : Transaction} {r s : Bytes} (ha : a.inputs ≠ [])
    (hb : b.inputs ≠ []) (hcountA : a.Countable) (hcountB : b.Countable)
    (h : a.encode ++ r = b.encode ++ s) : a.written = b.written ∧ r = s :=
  (read_accepts ha hcountA).append_inj (read_accepts hb hcountB) h

/-- The written form tells nothing but what the bytes tell. -/
theorem encode_written (tx : Transaction) : tx.written.encode = tx.encode := by
  have hinputs : (tx.inputs.map Input.forget).flatMap Input.encode =
      tx.inputs.flatMap Input.encode := by
    rw [List.flatMap_map]
    rfl
  simp only [encode, written, hinputs, CompactSize.ofLength, List.length_map]

end Transaction

end UtxoSpend
