import Mathlib
import UtxoSpend.Proofs.Script.Chunks
import UtxoSpend.Proofs.Script.OpcodeNames
import UtxoSpend.Proofs.Text.Words
import UtxoSpend.Script.Assembly

/-!
# Scripts that survive assembly text

The text of a script is read back chunk by chunk: a name stands for its opcode, and data in hex for
the shortest push of it.  So a wasteful push comes back shorter, an empty one that has a length
field is gone, and an opcode without a name is not understood.  Main statement: a script comes back
exactly if it decodes, all its pushes are the shortest ones and all its opcodes have names; any
other one is refused or comes back shorter.
-/

namespace UtxoSpend

/-! ## What a chunk comes back as -/

theorem pushHeader_shortest {op : Opcode} {length : Nat}
    (hop : op = Opcode.pushData1 ∨ op = Opcode.pushData2 ∨ op = Opcode.pushData4)
    (hlength : length < 256 ^ pushLengthWidth op) :
    ∃ header, pushHeader length = .ok header ∧
      (header = op :: pushLengthField op length ∨
        header.length < (op :: pushLengthField op length).length) := by
  unfold pushHeader
  rcases hop with rfl | rfl | rfl
  · have hfits : length ≤ 0xff := Nat.le_of_lt_succ hlength
    split_ifs with h75
    · exact ⟨_, rfl, .inr (show 1 < 2 by decide)⟩
    · exact ⟨_, rfl, .inl rfl⟩
  · have hfits : length ≤ 0xffff := Nat.le_of_lt_succ hlength
    split_ifs with h75 h1
    · exact ⟨_, rfl, .inr (show 1 < 3 by decide)⟩
    · exact ⟨_, rfl, .inr (show 2 < 3 by decide)⟩
    · exact ⟨_, rfl, .inl rfl⟩
  · have hfits : length ≤ 0xffffffff := Nat.le_of_lt_succ hlength
    split_ifs with h75 h1 h2
    · exact ⟨_, rfl, .inr (show 1 < 5 by decide)⟩
    · exact ⟨_, rfl, .inr (show 2 < 5 by decide)⟩
    · exact ⟨_, rfl, .inr (show 3 < 5 by decide)⟩
    · exact ⟨_, rfl, .inl rfl⟩

namespace Chunk

/-- A push is written with the opcode and the length field that are the shortest for its data. -/
def Shortest (c : Chunk) : Prop :=
  c.isPush = true →
    pushHeader c.payload.length = .ok (c.op :: pushLengthField c.op c.payload.length)

/-- The bytes that the word of a chunk stands for; none for an empty push with a length field, whose
word is lost among the blanks. -/
def respelled (c : Chunk) : Except ScriptError Bytes :=
  match c.data with
  | some [] => .ok []
  | some data => (pushHeader data.length).map (· ++ data)
  | none => if c.op ≤ Opcode.nop10 then .ok [c.op] else .error .badToken

variable {c : Chunk} {cs : List Chunk}

theorem respelled_of_ne_nil {data : Bytes} (op : Opcode) (h : data ≠ []) :
    respelled ⟨op, some data⟩ = (pushHeader data.length).map (· ++ data) := by
  cases data with
  | nil => exact absurd rfl h
  | cons b data => rfl

/-- What becomes of a chunk: it is not understood, or it comes back as it is, or shorter. -/
inductive ComesBack (c : Chunk) : Prop
  | refused (hunnamed : Opcode.nop10 < c.op) (hback : c.respelled = .error .badToken)
  | same (hshortest : c.Shortest) (hnamed : c.op ≤ Opcode.nop10)
      (hback : c.respelled = .ok c.encode)
  | shorter (hwasteful : ¬c.Shortest) (bytes : Bytes) (hback : c.respelled = .ok bytes)
      (hless : bytes.length < c.encode.length)

theorem comesBack_direct {op : Opcode} {data : Bytes} (hfirst : 1 ≤ op) (hlast : op ≤ Opcode.data75)
    (hlength : data.length = op.toNat) : ComesBack ⟨op, some data⟩ := by
  have hpos : 1 ≤ op.toNat := UInt8.le_iff_toNat_le.mp hfirst
  have h75 : op.toNat ≤ 75 := UInt8.le_iff_toNat_le.mp hlast
  have hne : data ≠ [] := by
    apply List.ne_nil_of_length_pos
    omega
  have hfield : pushLengthField op data.length = [] := by
    rw [Instruction.pushLengthField_eq, (Opcode.width_of_direct hfirst hlast).1]
    rfl
  have hheader : pushHeader data.length = .ok (op :: pushLengthField op data.length) := by
    rw [pushHeader, hfield, hlength, if_pos h75, UInt8.ofNat_toNat]
  apply ComesBack.same
  · exact fun _ => hheader
  · exact UInt8.le_trans hlast (by decide)
  · rw [respelled_of_ne_nil op hne, hheader]
    rfl

theorem comesBack_counted {op : Opcode} {data : Bytes}
    (hop : op = Opcode.pushData1 ∨ op = Opcode.pushData2 ∨ op = Opcode.pushData4)
    (hlength : data.length < 256 ^ pushLengthWidth op) : ComesBack ⟨op, some data⟩ := by
  have hpush : op.isPush = true := by
    rcases hop with rfl | rfl | rfl <;> rfl
  have hnamed : op ≤ Opcode.nop10 := by
    rcases hop with rfl | rfl | rfl <;> decide
  obtain ⟨header, hheader, hcase⟩ := pushHeader_shortest hop hlength
  by_cases hne : data = []
  · -- the word of an empty push is lost, although a byte would do for the push
    subst hne
    have hwasteful : ¬Shortest ⟨op, some []⟩ := by
      intro hshortest
      have hzero : pushHeader 0 = .ok (op :: pushLengthField op 0) := hshortest hpush
      rcases hop with rfl | rfl | rfl <;> exact absurd hzero (by decide)
    exact .shorter hwasteful [] rfl (Nat.succ_pos _)
  · have hback : respelled ⟨op, some data⟩ = .ok (header ++ data) := by
      rw [respelled_of_ne_nil op hne, hheader]
      rfl
    rcases hcase with rfl | hless
    · exact .same (fun _ => hheader) hnamed hback
    · have hwasteful : ¬Shortest ⟨op, some data⟩ := by
        intro hshortest
        have hsame := Except.ok.inj (hheader.symm.trans (hshortest hpush))
        exact absurd hless (hsame ▸ Nat.lt_irrefl _)
      apply ComesBack.shorter hwasteful _ hback
      calc (header ++ data).length
          = header.length + data.length := List.length_append
        _ < (op :: pushLengthField op data.length).length + data.length :=
            Nat.add_lt_add_right hless _
        _ = (encode ⟨op, some data⟩).length := List.length_append.symm

theorem comesBack_bare {op : Opcode} (hop : op = 0 ∨ Opcode.pushData4 < op) :
    ComesBack ⟨op, none⟩ := by
  by_cases hnamed : op ≤ Opcode.nop10
  · have hfield : pushLengthField op 0 = [] := by
      rw [Instruction.pushLengthField_eq, (Opcode.width_of_bare hop).1]
      rfl
    have hencode : encode ⟨op, none⟩ = [op] :=
      congrArg (fun field => op :: (field ++ [])) hfield
    apply ComesBack.same
    · intro hpush
      rcases hop with rfl | hlarge
      · rfl
      · exact absurd (of_decide_eq_true hpush) (UInt8.not_le.mpr hlarge)
    · exact hnamed
    · rw [respelled, if_pos hnamed, hencode]
  · exact .refused (UInt8.not_le.mp hnamed) (if_neg hnamed)

theorem WellFormed.comesBack (h : c.WellFormed) : c.ComesBack := by
  cases h with
  | direct hfirst hlast hlength => exact comesBack_direct hfirst hlast hlength
  | counted hop hlength => exact comesBack_counted hop hlength
  | bare hop => exact comesBack_bare hop

/-! ## Reading words -/

theorem foldlM_words_push (op : Opcode) (data : Bytes) (s : Script) :
    (Text.words (word ⟨op, some data⟩).toList).foldlM Script.appendWord s =
      (respelled ⟨op, some data⟩).map fun bytes => ⟨s.bytes ++ bytes⟩ := by
  have hword : (word ⟨op, some data⟩).toList = Hex.digits data := String.toList_ofList
  rw [hword, Text.words_of_no_blank fun _ => Hex.isBlank_of_mem_digits]
  by_cases hne : data = []
  · subst hne
    rw [if_pos (Hex.digits_eq_nil_iff.mpr rfl), respelled, Except.map, List.append_nil]
    rfl
  · rw [if_neg (mt Hex.digits_eq_nil_iff.mp hne), List.foldlM_cons, Script.appendWord,
      Opcode.ofName?_digits]
    dsimp only
    rw [Script.appendPushHex, Hex.decodeChars_digits]
    dsimp only
    rw [Script.appendPush, respelled_of_ne_nil op hne]
    cases pushHeader data.length <;> rfl

theorem foldlM_words_bare {op : Opcode} (hop : op = 0 ∨ Opcode.pushData4 < op) (s : Script) :
    (Text.words (word ⟨op, none⟩).toList).foldlM Script.appendWord s =
      (respelled ⟨op, none⟩).map fun bytes => ⟨s.bytes ++ bytes⟩ := by
  rw [word]
  by_cases hnamed : op ≤ Opcode.nop10
  · have hname := Opcode.ofName?_name hop hnamed
    obtain ⟨hfirst, hblank⟩ := Opcode.spelling_of_mem_names (Opcode.mem_names_of_ofName? hname)
    have hne : op.name.toList ≠ [] := by
      intro hnil
      rw [hnil] at hfirst
      cases hfirst
    rw [Text.words_of_no_blank hblank, if_neg hne, List.foldlM_cons, Script.appendWord,
      String.ofList_toList, hname, respelled, if_pos hnamed]
    rfl
  · have hword : Text.words "OP_UNKNOWN".toList = ["OP_UNKNOWN".toList] := by decide
    rw [Opcode.name_eq_unknown (UInt8.not_le.mp hnamed), hword, List.foldlM_cons,
      Script.appendWord, String.ofList_toList, Opcode.ofName?_unknown, respelled, if_neg hnamed]
    rfl

theorem foldlM_words_word (h : c.WellFormed) (s : Script) :
    (Text.words c.word.toList).foldlM Script.appendWord s =
      c.respelled.map fun bytes => ⟨s.bytes ++ bytes⟩ := by
  cases h with
  | direct => exact foldlM_words_push _ _ s
  | counted => exact foldlM_words_push _ _ s
  | bare hop => exact foldlM_words_bare hop s

theorem foldlM_flatMap_words (h : ∀ c ∈ cs, c.WellFormed) (s : Script) :
    ((cs.map fun c => c.word.toList).flatMap Text.words).foldlM Script.appendWord s =
      (cs.mapM respelled).map fun parts => ⟨s.bytes ++ parts.flatten⟩ := by
  induction cs generalizing s with
  | nil =>
      simp [Except.map, pure, Except.pure]
  | cons c cs ih =>
      rw [List.forall_mem_cons] at h
      rw [List.map_cons, List.flatMap_cons, List.foldlM_append, foldlM_words_word h.1,
        List.mapM_cons]
      cases hc : c.respelled with
      | error e => rfl
      | ok bytes =>
          refine (ih h.2 ⟨s.bytes ++ bytes⟩).trans ?_
          cases cs.mapM respelled with
          | error e => rfl
          | ok parts =>
              simp [Except.map, bind, Except.bind, pure, Except.pure]

/-- A script comes back chunk by chunk: one that is not understood spoils the whole, and one that is
not the shortest push makes it shorter. -/
theorem mapM_respelled_cases (h : ∀ c ∈ cs, c.WellFormed) :
    ((∃ c ∈ cs, Opcode.nop10 < c.op) ∧ cs.mapM respelled = .error .badToken) ∨
      ((∀ c ∈ cs, c.Shortest ∧ c.op ≤ Opcode.nop10) ∧ cs.mapM respelled = .ok (cs.map encode)) ∨
      ((∃ c ∈ cs, ¬c.Shortest) ∧ ∃ parts, cs.mapM respelled = .ok parts ∧
        parts.flatten.length < (cs.flatMap encode).length) := by
  induction cs with
  | nil => exact .inr (.inl ⟨by simp, rfl⟩)
  | cons c cs ih =>
      rw [List.forall_mem_cons] at h
      simp only [List.mapM_cons, List.mem_cons, exists_eq_or_imp, forall_eq_or_imp,
        List.flatMap_cons, List.length_append]
      -- the rest counts only behind a chunk that is understood
      cases h.1.comesBack with
      | refused hunnamed hback =>
          rw [hback]
          exact .inl ⟨.inl hunnamed, rfl⟩
      | same hshortest hnamed hback =>
          rw [hback]
          rcases ih h.2 with ⟨hunnamed, hrest⟩ | ⟨hall, hrest⟩ | ⟨hwasteful, parts, hrest, hless⟩
          · rw [hrest]
            exact .inl ⟨.inr hunnamed, rfl⟩
          · rw [hrest]
            exact .inr (.inl ⟨⟨⟨hshortest, hnamed⟩, hall⟩, rfl⟩)
          · rw [hrest]
            refine .inr (.inr ⟨.inr hwasteful, _, rfl, ?_⟩)
            rw [List.flatten_cons, List.length_append]
            omega
      | shorter hwasteful bytes hback hfewer =>
          rw [hback]
          rcases ih h.2 with ⟨hunnamed, hrest⟩ | ⟨hall, hrest⟩ | ⟨-, parts, hrest, hless⟩
          · rw [hrest]
            exact .inl ⟨.inr hunnamed, rfl⟩
          · rw [hrest]
            refine .inr (.inr ⟨.inl hwasteful, _, rfl, ?_⟩)
            rw [List.flatten_cons, List.length_append, List.flatMap_def]
            omega
          · rw [hrest]
            refine .inr (.inr ⟨.inl hwasteful, _, rfl, ?_⟩)
            rw [List.flatten_cons, List.length_append]
            omega

end Chunk

/-! ## Scripts -/

namespace Script

theorem ofAssembly_toAssembly_of_chunks {s : Script} {cs : List Chunk} (h : s.chunks = .ok cs) :
    ofAssembly s.toAssembly = (cs.mapM Chunk.respelled).map fun parts => ⟨parts.flatten⟩ := by
  obtain ⟨hformed, -⟩ := Chunk.decode_eq_ok_iff.mp h
  rw [ofAssembly, toAssembly, h]
  dsimp only
  rw [String.toList_intercalate, List.map_map]
  exact (congrArg _ (Text.words_intercalate _)).trans (Chunk.foldlM_flatMap_words hformed empty)

theorem ofAssembly_toAssembly_of_error {s : Script} {e : ScriptError} (h : s.chunks = .error e) :
    ofAssembly s.toAssembly = .ok empty ∧ empty.size < s.size := by
  constructor
  · rw [toAssembly, h]
    rfl
  · refine Nat.pos_of_ne_zero fun hzero => ?_
    have hnil : s.bytes = [] := List.length_eq_zero_iff.mp hzero
    have hempty : s.chunks = .ok [] := Chunk.decode_eq_ok_iff.mpr ⟨by simp, hnil⟩
    rw [hempty] at h
    cases h

theorem ofAssembly_toAssembly_cases (s : Script) :
    ((∃ cs, s.chunks = .ok cs ∧ ∀ c ∈ cs, c.Shortest ∧ c.op ≤ Opcode.nop10) ∧
        ofAssembly s.toAssembly = .ok s) ∨
      (¬(∃ cs, s.chunks = .ok cs ∧ ∀ c ∈ cs, c.Shortest ∧ c.op ≤ Opcode.nop10) ∧
        (ofAssembly s.toAssembly = .error .badToken ∨
          ∃ t, ofAssembly s.toAssembly = .ok t ∧ t.size < s.size)) := by
  cases hchunks : s.chunks with
  | error e =>
      obtain ⟨hback, hless⟩ := ofAssembly_toAssembly_of_error hchunks
      exact .inr ⟨by simp, .inr ⟨empty, hback, hless⟩⟩
  | ok cs =>
      obtain ⟨hformed, hbytes⟩ := Chunk.decode_eq_ok_iff.mp hchunks
      simp only [Except.ok.injEq, exists_eq_left']
      rw [ofAssembly_toAssembly_of_chunks hchunks]
      rcases Chunk.mapM_respelled_cases hformed with
        ⟨⟨c, hc, hunnamed⟩, hback⟩ | ⟨hall, hback⟩ | ⟨⟨c, hc, hwasteful⟩, parts, hback, hless⟩
      · rw [hback]
        exact .inr ⟨fun hall => UInt8.not_le.mpr hunnamed (hall c hc).2, .inl rfl⟩
      · rw [hback, Except.map, ← List.flatMap_def, ← hbytes]
        exact .inl ⟨hall, rfl⟩
      · rw [hback]
        refine .inr ⟨fun hall => hwasteful (hall c hc).1, .inr ⟨_, rfl, ?_⟩⟩
        rw [size, size, hbytes]
        exact hless

/-- A script comes back from its assembly text exactly if it decodes, the opcode and the length
field of every push are the shortest for its data, and every opcode has a name.  Any other script
is refused or comes back shorter. -/
theorem ofAssembly_toAssembly (s : Script) :
    (ofAssembly s.toAssembly = .ok s ↔
      ∃ cs, s.chunks = .ok cs ∧ ∀ c ∈ cs, c.Shortest ∧ c.op ≤ Opcode.nop10) ∧
    (¬(∃ cs, s.chunks = .ok cs ∧ ∀ c ∈ cs, c.Shortest ∧ c.op ≤ Opcode.nop10) →
      ofAssembly s.toAssembly = .error .badToken ∨
        ∃ t, ofAssembly s.toAssembly = .ok t ∧ t.size < s.size) := by
  rcases ofAssembly_toAssembly_cases s with ⟨hplain, hback⟩ | ⟨hplain, hother⟩
  · exact ⟨iff_of_true hback hplain, fun hnot => absurd hplain hnot⟩
  · refine ⟨iff_of_false (fun hback => ?_) hplain, fun _ => hother⟩
    rcases hother with hrefused | ⟨t, hshorter, hless⟩
    · rw [hrefused] at hback
      cases hback
    · rw [hshorter] at hback
      cases hback
      exact Nat.lt_irrefl _ hless

/-- A push of one byte, and the same with a length field. -/
theorem ofAssembly_toAssembly_oneByte :
    ofAssembly (toAssembly ⟨[1, 7]⟩) = .ok ⟨[1, 7]⟩ ∧
      (¬∃ cs, chunks ⟨[0x4c, 1, 7]⟩ = .ok cs ∧ ∀ c ∈ cs, c.Shortest ∧ c.op ≤ Opcode.nop10) ∧
      (ofAssembly (toAssembly ⟨[0x4c, 1, 7]⟩) = .error .badToken ∨
        ∃ t, ofAssembly (toAssembly ⟨[0x4c, 1, 7]⟩) = .ok t ∧ t.size < 3) := by
  have hdirect : chunks ⟨[1, 7]⟩ = .ok [⟨1, some [7]⟩] := by
    refine Chunk.decode_eq_ok_iff.mpr ⟨?_, rfl⟩
    rw [List.forall_mem_singleton]
    exact .direct (by decide) (by decide) rfl
  have hcounted : chunks ⟨[0x4c, 1, 7]⟩ = .ok [⟨0x4c, some [7]⟩] := by
    refine Chunk.decode_eq_ok_iff.mpr ⟨?_, rfl⟩
    rw [List.forall_mem_singleton]
    exact .counted (.inl rfl) (by decide)
  have hwasteful : ¬∃ cs, chunks ⟨[0x4c, 1, 7]⟩ = .ok cs ∧
      ∀ c ∈ cs, c.Shortest ∧ c.op ≤ Opcode.nop10 := by
    rintro ⟨cs, hchunks, hall⟩
    rw [hcounted] at hchunks
    cases hchunks
    exact absurd ((hall _ (List.mem_singleton_self _)).1 rfl) (by decide)
  refine ⟨(ofAssembly_toAssembly _).1.mpr ⟨_, hdirect, ?_⟩, hwasteful,
    (ofAssembly_toAssembly ⟨[0x4c, 1, 7]⟩).2 hwasteful⟩
  rw [List.forall_mem_singleton]
  exact ⟨fun _ => rfl, by decide⟩

end Script

end UtxoSpend
