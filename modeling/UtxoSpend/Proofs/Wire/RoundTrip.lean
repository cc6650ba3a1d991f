import Mathlib
import UtxoSpend.Bytes.Lemmas
import UtxoSpend.Proofs.Effect
import UtxoSpend.Wire.Cursor

/-!
# Reading undoes writing

A read and a form of writing fit together in two ways.  The read *accepts* the written form of a
value if it gives the value back and leaves exactly what follows; it *consumes* only written forms
if whatever it passes over is what would be written for its result.  Both are stated by the bytes
that lie between two cursors, so they compose along a sequence of reads.
-/

namespace UtxoSpend

structure Cursor.Passes (c : Cursor) (bs : Bytes) (d : Cursor) : Prop where
  rest : c.rest = bs ++ d.rest
  position : d.position = c.position + bs.length

namespace Cursor.Passes

theorem nil (c : Cursor) : c.Passes [] c := ⟨rfl, rfl⟩

theorem append {b c d : Cursor} {xs ys : Bytes} (h : b.Passes xs c) (h' : c.Passes ys d) :
    b.Passes (xs ++ ys) d where
  rest := by rw [h.rest, h'.rest, List.append_assoc]
  position := by rw [h'.position, h.position, List.length_append, Nat.add_assoc]

theorem split {b d : Cursor} {xs ys : Bytes} (h : b.Passes (xs ++ ys) d) :
    ∃ c, b.Passes xs c ∧ Passes c ys d := by
  refine ⟨⟨b.position + xs.length, ys ++ d.rest⟩, ⟨?_, rfl⟩, ⟨rfl, ?_⟩⟩
  · rw [h.rest, List.append_assoc]
  · rw [h.position, List.length_append, Nat.add_assoc]

end Cursor.Passes

namespace Read

variable {ε α β : Type}

def Accepts (read : EStateM ε Cursor α) (written : Bytes) (x : α) : Prop :=
  ∀ c d, Cursor.Passes c written d → read c = .ok x d

/-- The read passes over nothing but what `write` writes for its result. -/
def Consumes (read : EStateM ε Cursor α) (write : α → Bytes) : Prop :=
  ∀ c x d, read c = .ok x d → Cursor.Passes c (write x) d

theorem Accepts.bind {read : EStateM ε Cursor α} {next : α → EStateM ε Cursor β}
    {xs ys : Bytes} {x : α} {y : β} (h : Accepts read xs x) (h' : Accepts (next x) ys y) :
    Accepts (read >>= next) (xs ++ ys) y := by
  intro b d hpass
  obtain ⟨c, hxs, hys⟩ := hpass.split
  rw [Effect.bind_of_ok (h b c hxs)]
  exact h' c d hys

theorem Accepts.pure (x : α) : Accepts (Pure.pure x : EStateM ε Cursor α) [] x := by
  intro c d hpass
  have hc : c = d := by
    obtain ⟨position, rest⟩ := c
    obtain ⟨hrest, hposition⟩ := hpass
    cases d
    simp_all
  rw [hc]
  rfl

/-! ## Fields of fixed width -/

theorem bytes_accepts (bs : Bytes) : Accepts (bytes bs.length) bs bs := by
  intro c d hpass
  obtain ⟨hrest, hposition⟩ := hpass
  simp [bytes, hrest, ← hposition]

theorem bytes_consumes {n : Nat} {c d : Cursor} {bs : Bytes} (h : bytes n c = .ok bs d) :
    c.Passes bs d ∧ bs.length = n := by
  simp only [bytes] at h
  split at h
  · rename_i hlength
    cases h
    refine ⟨⟨(List.take_append_drop n c.rest).symm, ?_⟩, hlength⟩
    rw [hlength]
  · cases h

/-- How numbers of one width are read: `toWord` and `toNat` translate between the numbers below
`256 ^ width` and the words. -/
structure IsWord (width : Nat) (toWord : Nat → α) (toNat : α → Nat) : Prop where
  toNat_lt : ∀ v, toNat v < 256 ^ width
  toWord_toNat : ∀ v, toWord (toNat v) = v
  toNat_toWord : ∀ n, n < 256 ^ width → toNat (toWord n) = n

def word (width : Nat) (toWord : Nat → α) : Read α := do
  return toWord (Bytes.leNat (← bytes width))

theorem IsWord.accepts {width : Nat} {toWord : Nat → α} {toNat : α → Nat}
    (h : IsWord width toWord toNat) (v : α) :
    Accepts (word width toWord) (Bytes.toLE width (toNat v)) v := by
  intro c d hpass
  have hread := bytes_accepts (Bytes.toLE width (toNat v)) c d hpass
  rw [Bytes.length_toLE] at hread
  rw [word, Effect.bind_of_ok hread, Effect.pure_run, Bytes.leNat_toLE_of_lt (h.toNat_lt v),
    h.toWord_toNat]

theorem IsWord.consumes {width : Nat} {toWord : Nat → α} {toNat : α → Nat}
    (h : IsWord width toWord toNat) :
    Consumes (word width toWord) fun v => Bytes.toLE width (toNat v) := by
  intro c v d hread
  obtain ⟨bs, e, hbytes, hpure⟩ := Effect.bind_eq_ok.mp hread
  cases hpure
  obtain ⟨hpass, hlength⟩ := bytes_consumes hbytes
  have hlt : Bytes.leNat bs < 256 ^ width := hlength ▸ Bytes.leNat_lt bs
  have hback : Bytes.toLE width (Bytes.leNat bs) = bs := hlength ▸ Bytes.toLE_leNat bs
  simpa only [h.toNat_toWord _ hlt, hback] using hpass

theorem isWord_u8 : IsWord 1 UInt8.ofNat UInt8.toNat where
  toNat_lt v := v.toNat_lt
  toWord_toNat _ := UInt8.ofNat_toNat
  toNat_toWord _ h := UInt8.toNat_ofNat_of_lt' h

theorem isWord_u16 : IsWord 2 UInt16.ofNat UInt16.toNat where
  toNat_lt v := v.toNat_lt
  toWord_toNat _ := UInt16.ofNat_toNat
  toNat_toWord _ h := UInt16.toNat_ofNat_of_lt' h

theorem isWord_u32 : IsWord 4 UInt32.ofNat UInt32.toNat where
  toNat_lt v := v.toNat_lt
  toWord_toNat _ := UInt32.ofNat_toNat
  toNat_toWord _ h := UInt32.toNat_ofNat_of_lt' h

theorem isWord_u64 : IsWord 8 UInt64.ofNat UInt64.toNat where
  toNat_lt v := v.toNat_lt
  toWord_toNat _ := UInt64.ofNat_toNat
  toNat_toWord _ h := UInt64.toNat_ofNat_of_lt' h

theorem toLE_one (v : UInt8) : Bytes.toLE 1 v.toNat = [v] := by simp [Bytes.toLE]

theorem u8_accepts (v : UInt8) : Accepts u8 [v] v := toLE_one v ▸ isWord_u8.accepts v

theorem u8_consumes : Consumes u8 fun v => [v] := by
  intro c v d h
  simpa only [toLE_one] using isWord_u8.consumes c v d h

theorem u32_accepts (v : UInt32) : Accepts u32 (Wire.u32 v) v := isWord_u32.accepts v

theorem u32_consumes : Consumes u32 Wire.u32 := isWord_u32.consumes

theorem u64_accepts (v : UInt64) : Accepts u64 (Wire.u64 v) v := isWord_u64.accepts v

theorem u64_consumes : Consumes u64 Wire.u64 := isWord_u64.consumes

theorem vector_accepts {n : Nat} (v : ByteVector n) : Accepts (vector n) v.bytes v := by
  intro c d hpass
  obtain ⟨hrest, hposition⟩ := hpass
  have htake : c.rest.take n = v.bytes := by
    rw [hrest, List.take_left' v.length_eq]
  have hdrop : c.rest.drop n = d.rest := by
    rw [hrest, List.drop_left' v.length_eq]
  rw [v.length_eq] at hposition
  simp [vector, htake, hdrop, ← hposition]

theorem vector_consumes {n : Nat} : Consumes (vector n) ByteVector.bytes := by
  intro c v d h
  simp only [vector] at h
  split at h
  · rename_i hlength
    cases h
    refine ⟨(List.take_append_drop n c.rest).symm, ?_⟩
    simp only [hlength]
  · cases h

/-! ## Compact sizes -/

theorem atLeast_accepts {least v : UInt64} (h : ¬ v < least) :
    Accepts (atLeast least v) [] v := by
  rw [atLeast, if_neg h]
  exact Accepts.pure v

theorem atLeast_eq_ok {least v x : UInt64} {c d : Cursor} (h : atLeast least v c = .ok x d) :
    ¬ v < least ∧ x = v ∧ d = c := by
  rw [atLeast] at h
  split at h
  · cases h
  · rename_i hle
    cases h
    exact ⟨hle, rfl, rfl⟩

theorem wide_accepts {width : Nat} {toWord : Nat → α} {toNat : α → Nat}
    (h : IsWord width toWord toNat) {widen : α → UInt64} {least v : UInt64} (a : α)
    (hnat : toNat a = v.toNat) (hwiden : (widen a).toNat = toNat a)
    (hleast : least.toNat ≤ v.toNat) :
    Accepts (word width toWord >>= fun w => atLeast least (widen w))
      (Bytes.toLE width v.toNat) v := by
  have hv : widen a = v := UInt64.toNat_inj.mp (hwiden.trans hnat)
  have hle : ¬ widen a < least := by
    rw [hv, UInt64.lt_iff_toNat_lt]
    omega
  rw [← hnat, ← List.append_nil (Bytes.toLE width (toNat a))]
  exact (h.accepts a).bind (hv ▸ atLeast_accepts hle)

theorem wide_consumes {width : Nat} {toWord : Nat → α} {toNat : α → Nat}
    (h : IsWord width toWord toNat) (widen : α → UInt64) {least x : UInt64} {c d : Cursor}
    (hread : (word width toWord >>= fun v => atLeast least (widen v)) c = .ok x d) :
    ∃ a, x = widen a ∧ ¬ widen a < least ∧ c.Passes (Bytes.toLE width (toNat a)) d := by
  obtain ⟨a, e, hword, hleast⟩ := Effect.bind_eq_ok.mp hread
  obtain ⟨hle, rfl, rfl⟩ := atLeast_eq_ok hleast
  exact ⟨a, rfl, hle, h.consumes c a d hword⟩

theorem compactSize_eq : compactSize = u8 >>= fun marker =>
    if marker = CompactSize.marker64 then
      word 8 UInt64.ofNat >>= fun v => atLeast 0x100000000 (id v)
    else if marker = CompactSize.marker32 then
      word 4 UInt32.ofNat >>= fun v => atLeast 0x10000 v.toUInt64
    else if marker = CompactSize.marker16 then
      word 2 UInt16.ofNat >>= fun v => atLeast 0xfd v.toUInt64
    else pure marker.toUInt64 := rfl

theorem compactSize_accepts (v : UInt64) : Accepts compactSize (CompactSize.encode v) v := by
  have hlt := v.toNat_lt
  rw [compactSize_eq, CompactSize.encode]
  simp only [UInt64.lt_iff_toNat_lt, UInt64.le_iff_toNat_le, UInt64.reduceToNat]
  split_ifs with h8 h16 h32
  · have hmarker : ∀ m : UInt8, 0xfd ≤ m.toNat → v.toUInt8 ≠ m := by
      intro m hm heq
      rw [← heq, UInt64.toNat_toUInt8] at hm
      omega
    have hwiden : v.toUInt8.toUInt64 = v := by
      apply UInt64.toNat_inj.mp
      rw [UInt8.toNat_toUInt64, UInt64.toNat_toUInt8]
      omega
    refine (u8_accepts v.toUInt8).bind ?_
    rw [if_neg (hmarker _ (by decide)), if_neg (hmarker _ (by decide)),
      if_neg (hmarker _ (by decide)), hwiden]
    exact Accepts.pure v
  · refine (u8_accepts CompactSize.marker16).bind ?_
    rw [if_neg (by decide), if_neg (by decide), if_pos rfl]
    refine wide_accepts isWord_u16 v.toUInt16 ?_ (UInt16.toNat_toUInt64 _) (Nat.le_of_not_lt h8)
    rw [UInt64.toNat_toUInt16]
    omega
  · refine (u8_accepts CompactSize.marker32).bind ?_
    rw [if_neg (by decide), if_pos rfl]
    refine wide_accepts isWord_u32 v.toUInt32 ?_ (UInt32.toNat_toUInt64 _) (Nat.lt_of_not_le h16)
    rw [UInt64.toNat_toUInt32]
    omega
  · refine (u8_accepts CompactSize.marker64).bind ?_
    rw [if_pos rfl]
    exact wide_accepts isWord_u64 v rfl rfl (Nat.lt_of_not_le h32)

/-- A padded form is refused, so every compact size that is read has the shortest form. -/
theorem compactSize_consumes : Consumes compactSize CompactSize.encode := by
  intro c v d h
  rw [compactSize_eq] at h
  obtain ⟨marker, e, hmarker, h⟩ := Effect.bind_eq_ok.mp h
  have hfirst := u8_consumes c marker e hmarker
  rw [CompactSize.encode]
  simp only [UInt64.lt_iff_toNat_lt, UInt64.le_iff_toNat_le, UInt64.reduceToNat]
  split_ifs at h with h64 h32 h16
  · obtain ⟨a, rfl, hle, hpass⟩ := wide_consumes isWord_u64 id h
    simp only [id, UInt64.lt_iff_toNat_lt, UInt64.reduceToNat] at hle ⊢
    rw [if_neg (by omega), if_neg (by omega), if_neg (by omega), ← h64]
    exact hfirst.append hpass
  · obtain ⟨a, rfl, hle, hpass⟩ := wide_consumes isWord_u32 UInt32.toUInt64 h
    have hlt := a.toNat_lt
    simp only [UInt64.lt_iff_toNat_lt, UInt64.reduceToNat, UInt32.toNat_toUInt64] at hle ⊢
    rw [if_neg (by omega), if_neg (by omega), if_pos (by omega), ← h32]
    exact hfirst.append hpass
  · obtain ⟨a, rfl, hle, hpass⟩ := wide_consumes isWord_u16 UInt16.toUInt64 h
    have hlt := a.toNat_lt
    simp only [UInt64.lt_iff_toNat_lt, UInt64.reduceToNat, UInt16.toNat_toUInt64] at hle ⊢
    rw [if_neg (by omega), if_pos (by omega), ← h16]
    exact hfirst.append hpass
  · cases h
    have hlt := marker.toNat_lt
    have hne : ∀ m : UInt8, marker ≠ m → marker.toNat ≠ m.toNat := fun m hm heq =>
      hm (UInt8.toNat_inj.mp heq)
    have hff := hne _ h64
    have hfe := hne _ h32
    have hfd := hne _ h16
    simp only [CompactSize.marker64, CompactSize.marker32, CompactSize.marker16,
      UInt8.reduceToNat] at hff hfe hfd
    rw [UInt8.toNat_toUInt64, if_pos (by omega), UInt8.toUInt8_toUInt64]
    exact hfirst

/-! ## Counted byte strings and lists -/

theorem counted_accepts {bs : Bytes} (h : bs.length < UInt64.size) :
    Accepts counted (Wire.counted bs) bs := by
  refine (compactSize_accepts _).bind ?_
  rw [UInt64.toNat_ofNat_of_lt' h]
  exact bytes_accepts bs

theorem counted_consumes : Consumes counted Wire.counted := by
  intro c bs d h
  obtain ⟨size, e, hsize, hbytes⟩ := Effect.bind_eq_ok.mp h
  obtain ⟨hpass, hlength⟩ := bytes_consumes hbytes
  rw [Wire.counted, CompactSize.ofLength, hlength, UInt64.ofNat_toNat]
  exact (compactSize_consumes c size e hsize).append hpass

theorem list_accepts {read : EStateM ε Cursor β} {write : α → Bytes} {value : α → β}
    (xs : List α) (h : ∀ x ∈ xs, Accepts read (write x) (value x)) :
    Accepts (list read xs.length) (xs.flatMap write) (xs.map value) := by
  induction xs with
  | nil => exact Accepts.pure []
  | cons x xs ih =>
      have hx : Accepts read (write x) (value x) := h x (by simp)
      have hxs := ih fun y hy => h y (by simp [hy])
      rw [List.flatMap_cons]
      refine hx.bind ?_
      rw [← List.append_nil (xs.flatMap write)]
      exact hxs.bind (Accepts.pure _)

theorem list_consumes {read : EStateM ε Cursor α} {write : α → Bytes}
    (h : Consumes read write) {count : Nat} {c d : Cursor} {xs : List α}
    (hread : list read count c = .ok xs d) :
    c.Passes (xs.flatMap write) d ∧ xs.length = count := by
  induction count generalizing c xs with
  | zero =>
      cases hread
      exact ⟨.nil _, rfl⟩
  | succ count ih =>
      obtain ⟨x, e, hx, hrest⟩ := Effect.bind_eq_ok.mp hread
      obtain ⟨ys, f, hys, hpure⟩ := Effect.bind_eq_ok.mp hrest
      cases hpure
      obtain ⟨hpass, hlength⟩ := ih hys
      refine ⟨?_, by rw [List.length_cons, hlength]⟩
      rw [List.flatMap_cons]
      exact (h c x e hx).append hpass

end Read

end UtxoSpend
