import Mathlib
import UtxoSpend.Proofs.Machine.Frame

/-!
# Which signatures match which keys

A multiple check tries every key once, in order, and passes over those that do not match.  Taking
the first key that matches never spoils a later match, because what is left over for the other
signatures is only more.  Main statement: the check succeeds and puts true exactly if the signatures
can be matched with keys in order, after at most one check for each key; searched by positions, the
lists are never left.
-/

namespace UtxoSpend

open Effect

/-! ## Matchings in order -/

open List (SublistForall₂)

section Matching

variable {α β : Type} {R : α → β → Prop} {x : α} {y : β} {xs : List α} {ys : List β}

/-- Every element of the first list has a partner in the second one, and the partners stand in the
same order. -/
def MatchesInOrder (R : α → β → Prop) (xs : List α) (ys : List β) : Prop :=
  ∃ f : Fin xs.length → Fin ys.length, StrictMono f ∧ ∀ i, R xs[i] ys[f i]

theorem matchesInOrder_iff : MatchesInOrder R xs ys ↔ SublistForall₂ R xs ys := by
  rw [List.sublistForall₂_iff]
  constructor
  · rintro ⟨f, hmono, hrel⟩
    refine ⟨(List.ofFn f).map fun i => ys[i], ?_, List.map_getElem_sublist ?_⟩
    · rw [List.forall₂_map_right_iff, List.forall₂_iff_get]
      refine ⟨List.length_ofFn.symm, fun i hi _ => ?_⟩
      rw [List.get_ofFn]
      exact hrel ⟨i, hi⟩
    · rw [List.pairwise_ofFn]
      exact fun i j hlt => hmono hlt
  · rintro ⟨partners, hrel, hsub⟩
    obtain ⟨places, rfl, hplaces⟩ := List.sublist_eq_map_getElem hsub
    rw [List.forall₂_map_right_iff, List.forall₂_iff_get] at hrel
    obtain ⟨hlength, hrel⟩ := hrel
    refine ⟨fun i => places.get (i.cast hlength), fun i j hlt => ?_, fun i => ?_⟩
    · exact List.pairwise_iff_get.mp hplaces _ _ hlt
    · exact hrel i i.isLt (hlength ▸ i.isLt)

theorem sublistForall₂_of_cons (h : SublistForall₂ R (x :: xs) ys) : SublistForall₂ R xs ys := by
  induction ys with
  | nil => cases h
  | cons y ys ih =>
      cases h with
      | cons _ hrest => exact .cons_right hrest
      | cons_right hrest => exact .cons_right (ih hrest)

/-- A first element that is related to the first candidate can as well be matched with it; one that
is not has to look further. -/
theorem sublistForall₂_cons_cons_iff {related : Bool} (h : related = true ↔ R x y) :
    SublistForall₂ R (x :: xs) (y :: ys) ↔
      SublistForall₂ R (if related then xs else x :: xs) ys := by
  constructor
  · intro hmatch
    cases related with
    | true =>
        cases hmatch with
        | cons _ hrest => exact hrest
        | cons_right hrest => exact sublistForall₂_of_cons hrest
    | false =>
        cases hmatch with
        | cons hrel _ => cases h.mpr hrel
        | cons_right hrest => exact hrest
  · intro hmatch
    cases related with
    | true => exact .cons (h.mp rfl) hmatch
    | false => exact .cons_right hmatch

theorem length_le_of_sublistForall₂ (h : SublistForall₂ R xs ys) : xs.length ≤ ys.length := by
  obtain ⟨partners, hrel, hsub⟩ := List.sublistForall₂_iff.mp h
  rw [hrel.length_eq]
  exact hsub.length_le

end Matching

namespace Exec

variable {env : Env} {code : Script} {keys signatures : List Bytes}

/-! ## The search -/

def AcceptedBy (tx : TxContext) (inputIndex : Nat) (code : Script) (signature key : Bytes) : Prop :=
  ∃ hashType, signature.getLast? = some hashType ∧
    tx.verdict [] ⟨signature, key, code, inputIndex, hashType⟩ = some true

/-- Under the fork-id rule the hash type of every signature that is not empty has the bit. -/
def BearForkId (env : Env) (signatures : List Bytes) : Prop :=
  env.has .forkId = true → ∀ signature ∈ signatures, ∀ hashType,
    signature.getLast? = some hashType → hashType &&& forkIdBit ≠ 0

theorem BearForkId.mono {others : List Bytes} (h : BearForkId env signatures)
    (hsub : others ⊆ signatures) : BearForkId env others :=
  fun hfork signature hmem => h hfork signature (hsub hmem)

variable {tx : TxContext}

theorem verifySignature_run (htx : env.context = some tx) (hpure : tx.IsPure) {signature : Bytes}
    (hbit : BearForkId env [signature]) (key : Bytes) (s : State) :
    ∃ valid asked, verifySignature env code signature key s =
        .ok valid { s with checks := s.checks ++ asked } ∧
      (valid = true ↔ AcceptedBy tx env.inputIndex code signature key) ∧ asked.length ≤ 1 := by
  cases hlast : signature.getLast? with
  | none =>
      refine ⟨false, [], ?_, ?_, Nat.zero_le 1⟩
      · rw [verifySignature_eq_ok_iff]
        refine .inl ⟨List.getLast?_eq_none_iff.mp hlast, rfl, ?_⟩
        rw [List.append_nil]
      · simp [AcceptedBy, hlast]
  | some hashType =>
      have hforkId : env.has .forkId = true → hashType &&& forkIdBit ≠ 0 := fun hfork =>
        hbit hfork signature (List.mem_singleton_self _) hashType hlast
      let check : SignatureCheck := ⟨signature, key, code, env.inputIndex, hashType⟩
      refine ⟨(tx.verdict s.checks check).getD false, [check], ?_, ?_, Nat.le_refl 1⟩
      · rw [verifySignature_eq_ok_iff]
        exact .inr ⟨hashType, tx, hlast, hforkId, htx, rfl, rfl⟩
      · rw [hpure s.checks check]
        simp [AcceptedBy, hlast, Option.getD_eq_iff, check]

/-- The search answers whether there is a matching.  The induction is on the keys: one of them is
used up by each check, matched or not. -/
theorem matchKeys_run (htx : env.context = some tx) (hpure : tx.IsPure) (code : Script)
    (hbits : BearForkId env signatures) (s : State) :
    ∃ verdict asked, matchKeys env code keys signatures s =
        .ok verdict { s with checks := s.checks ++ asked } ∧
      (verdict = true ↔
        SublistForall₂ (AcceptedBy tx env.inputIndex code) signatures keys) ∧
      asked.length ≤ keys.length := by
  induction keys generalizing signatures s with
  | nil =>
      cases signatures with
      | nil => exact ⟨true, [], by simp [matchKeys], by simp [SublistForall₂.nil], Nat.le_refl 0⟩
      | cons signature signatures =>
          refine ⟨false, [], by simp [matchKeys], ?_, Nat.le_refl 0⟩
          constructor
          · intro h
            cases h
          · intro h
            cases h
  | cons key keys ih =>
      cases signatures with
      | nil =>
          exact ⟨true, [], by simp [matchKeys], by simp [SublistForall₂.nil], Nat.zero_le _⟩
      | cons signature signatures =>
          have hbit : BearForkId env [signature] := hbits.mono (by simp)
          obtain ⟨valid, asked, hverify, hvalid, hone⟩ := verifySignature_run htx hpure hbit key s
          rw [matchKeys, bind_of_ok hverify]
          have hmatch := @sublistForall₂_cons_cons_iff _ _ _ _ _ signatures keys _ hvalid
          have hsub : (if valid then signatures else signature :: signatures) ⊆
              signature :: signatures := by
            cases valid <;> simp
          generalize (if valid then signatures else signature :: signatures) = left at hmatch hsub ⊢
          by_cases hfew : keys.length < left.length
          · rw [if_pos hfew]
            refine ⟨false, asked, rfl, ?_, ?_⟩
            · rw [hmatch]
              constructor
              · intro h
                cases h
              · intro h
                have hle := length_le_of_sublistForall₂ h
                omega
            · rw [List.length_cons]
              omega
          · rw [if_neg hfew]
            obtain ⟨verdict, later, hsearch, hverdict, hlength⟩ :=
              ih (hbits.mono hsub) { s with checks := s.checks ++ asked }
            refine ⟨verdict, asked ++ later, ?_, hverdict.trans hmatch.symm, ?_⟩
            · rw [hsearch, List.append_assoc]
            · rw [List.length_append, List.length_cons]
              omega

/-! ## The search by positions -/

/-- The search of `matchKeys` by positions in the two lists.  The answer is none where a position is
not in its list, or where more would be taken from the length of a list than it has. -/
def searchFrom (env : Env) (code : Script) (keys signatures : List Bytes)
    (keyIndex signatureIndex : Nat) : Exec (Option Bool) :=
  if signatureIndex < signatures.length then
    match _hkey : keys[keyIndex]?, signatures[signatureIndex]? with
    | some key, some signature => do
        let valid ← verifySignature env code signature key
        let nextIndex := if valid then signatureIndex + 1 else signatureIndex
        match signatures.length.psub nextIndex, keys.length.psub (keyIndex + 1) with
        | some signaturesLeft, some keysLeft =>
            if keysLeft < signaturesLeft then pure (some false)
            else searchFrom env code keys signatures (keyIndex + 1) nextIndex
        | _, _ => pure none
    | _, _ => pure none
  else pure (some true)
termination_by keys.length - keyIndex
decreasing_by
  have hlt := (List.getElem?_eq_some_iff.mp _hkey).1
  omega

theorem matchKeys_nil (keys : List Bytes) : matchKeys env code keys [] = pure true := by
  cases keys <;> rfl

/-- As long as no more signatures than keys are left, the positions stay in their lists, and what is
behind them is what is left to search. -/
theorem searchFrom_eq (keys signatures : List Bytes) {keyIndex signatureIndex : Nat}
    (hkeys : keyIndex ≤ keys.length) (hsignatures : signatureIndex ≤ signatures.length)
    (hleft : signatures.length - signatureIndex ≤ keys.length - keyIndex) :
    searchFrom env code keys signatures keyIndex signatureIndex =
      some <$> matchKeys env code (keys.drop keyIndex) (signatures.drop signatureIndex) := by
  induction hn : keys.length - keyIndex generalizing keyIndex signatureIndex with
  | zero =>
      have hall : ¬signatureIndex < signatures.length := by omega
      rw [searchFrom, if_neg hall, List.drop_of_length_le (Nat.le_of_not_lt hall), matchKeys_nil,
        map_pure]
  | succ n ih =>
      by_cases hsignature : signatureIndex < signatures.length
      · have hkey : keyIndex < keys.length := by omega
        rw [searchFrom, if_pos hsignature, List.getElem?_eq_getElem hkey,
          List.getElem?_eq_getElem hsignature, List.drop_eq_getElem_cons hkey,
          List.drop_eq_getElem_cons hsignature, matchKeys, map_bind]
        refine bind_congr fun valid => ?_
        have hbehind : (if valid then signatures.drop (signatureIndex + 1)
            else signatures[signatureIndex] :: signatures.drop (signatureIndex + 1)) =
              signatures.drop (if valid then signatureIndex + 1 else signatureIndex) := by
          cases valid with
          | true => rfl
          | false => exact (List.drop_eq_getElem_cons hsignature).symm
        have hnext :
            (if valid then signatureIndex + 1 else signatureIndex) ≤ signatures.length := by
          split_ifs <;> omega
        generalize (if valid then signatureIndex + 1 else signatureIndex) = next at hbehind hnext ⊢
        dsimp only
        rw [hbehind, Nat.psub_eq_sub hnext, Nat.psub_eq_sub hkey, List.length_drop,
          List.length_drop]
        dsimp only
        split_ifs with hfew
        · rfl
        · exact ih hkey hnext (by omega) (by omega)
      · rw [searchFrom, if_neg hsignature, List.drop_of_length_le (Nat.le_of_not_lt hsignature),
          matchKeys_nil, map_pure]

/-! ## The opcode -/

variable {script : List Instruction} {offset : Nat} {i : Instruction} {s t u : State}

theorem execute_of_precheck (hrun : s.isExecuting = true) (hpush : i.op.isPush = false)
    (hcounted : precheck env i s = .ok () u) :
    execute env script offset i s = perform env script offset i u := by
  obtain ⟨operations, rfl⟩ := precheck_eq_ok hcounted
  have hwasteful : (env.has .minimalData && i.op.isPush && !i.isMinimalPush) = false := by
    rw [hpush, Bool.and_false, Bool.false_and]
  have hopen : State.isExecuting { s with operations := operations } = true := hrun
  rw [execute_eq, bind_of_ok hcounted, performOpen, get_bind_run, if_pos hopen,
    failIf_bind_false _ _ _ hwasteful]

theorem isPush_of_checkMultiSig {verify : Bool} (haction : i.op.action = .checkMultiSig verify) :
    i.op.isPush = false := by
  by_contra hpush
  have hop : i.op ≤ Opcode.pushData4 := of_decide_eq_true (Bool.of_not_eq_false hpush)
  rw [Opcode.action, if_pos hop] at haction
  cases haction

/-- In a running branch and a context without memory, a multiple check that has got its keys and
signatures succeeds.  It has taken them and three items more, it puts whether the signatures match
keys in order, it asks at most once for each key, and no position of its search leaves the lists. -/
theorem checkMultiSig_decides_matching (htx : env.context = some tx) (hpure : tx.IsPure)
    (hrun : s.isExecuting = true) (haction : i.op.action = .checkMultiSig false)
    (hcounted : precheck env i s = .ok () u)
    (htake : takeSeveral env u = .ok (keys, signatures) t)
    (hbits : BearForkId env signatures) :
    ∃ keyCount signatureCount dummy below verdict asked,
      s.data = keyCount :: (keys ++ signatureCount :: (signatures ++ dummy :: below)) ∧
      s.data.length = keys.length + signatures.length + 3 + below.length ∧
      signatures.length ≤ keys.length ∧
      execute env script offset i s = .ok () { s with
        data := Truth.encode verdict :: below
        operations := u.operations + keys.length
        checks := s.checks ++ asked } ∧
      (verdict = true ↔ MatchesInOrder
        (AcceptedBy tx env.inputIndex (signedCode env (script.drop s.codeStart) signatures))
        signatures keys) ∧
      asked.length ≤ keys.length ∧
      searchFrom env (signedCode env (script.drop s.codeStart) signatures) keys signatures 0 0 =
        some <$> matchKeys env (signedCode env (script.drop s.codeStart) signatures) keys
          signatures := by
  obtain ⟨keyCount, signatureCount, dummy, below, -, -, hstack, -, -, -, -, hle, -, rfl⟩ :=
    takeSeveral_eq_ok htake
  have hexecute : execute env script offset i s = checkMultiSig env script u := by
    rw [execute_of_precheck hrun (isPush_of_checkMultiSig haction) hcounted, perform, haction]
    exact congrFun (bind_pure (checkMultiSig env script)) u
  obtain ⟨operations, rfl⟩ := precheck_eq_ok hcounted
  obtain ⟨verdict, asked, hsearch, hverdict, hasked⟩ :=
    matchKeys_run htx hpure (signedCode env (script.drop s.codeStart) signatures) hbits
      { s with data := below, operations := operations + keys.length }
  refine
    ⟨keyCount, signatureCount, dummy, below, verdict, asked, hstack, ?_, hle, ?_, ?_, hasked, ?_⟩
  · rw [show s.data = _ from hstack]
    simp only [List.length_cons, List.length_append]
    omega
  · rw [hexecute, checkMultiSig_eq_takeSeveral, bind_of_ok htake]
    dsimp only
    rw [get_bind_run, bind_of_ok hsearch]
    rfl
  · rw [hverdict, matchesInOrder_iff]
  · exact searchFrom_eq keys signatures (Nat.zero_le _) (Nat.zero_le _) hle

def firstByteEnv : Env :=
  ⟨.forkId, {}, some ⟨0, 1, fun _ => 0, fun _ check =>
    some (check.signature.head? == check.publicKey.head?)⟩, 0⟩

/-- Two signatures for the first and the last of three keys. -/
def twoOfThree : State where
  data := [[3], [1], [2], [3], [2], [1, 0x41], [3, 0x41], [], [9]]

theorem checkMultiSig_decides_matching_twoOfThree :
    (∃ tx, firstByteEnv.context = some tx ∧ tx.IsPure) ∧ twoOfThree.isExecuting = true ∧
      Opcode.action 0xae = .checkMultiSig false ∧
      BearForkId firstByteEnv [[1, 0x41], [3, 0x41]] ∧
      (∃ u t, precheck firstByteEnv ⟨0xae, []⟩ twoOfThree = .ok () u ∧
        takeSeveral firstByteEnv u = .ok ([[1], [2], [3]], [[1, 0x41], [3, 0x41]]) t) ∧
      ∃ asked, asked.length ≤ 3 ∧
        execute firstByteEnv [] 0 ⟨0xae, []⟩ twoOfThree = .ok ()
          { data := [Truth.encode true, [9]], operations := 4, checks := asked } := by
  have hpure : TxContext.IsPure ⟨0, 1, fun _ => 0, fun _ check =>
      some (check.signature.head? == check.publicKey.head?)⟩ := fun _ _ => rfl
  have haction : Opcode.action 0xae = .checkMultiSig false := rfl
  have hbits : BearForkId firstByteEnv [[1, 0x41], [3, 0x41]] := by
    intro _ signature hmem hashType hlast
    simp only [List.mem_cons, List.not_mem_nil, or_false] at hmem
    obtain rfl | rfl := hmem
    · cases hlast
      decide
    · cases hlast
      decide
  have hcounted : precheck firstByteEnv ⟨0xae, []⟩ twoOfThree =
      .ok () { twoOfThree with operations := 1 } := rfl
  have htake : takeSeveral firstByteEnv { twoOfThree with operations := 1 } =
      .ok ([[1], [2], [3]], [[1, 0x41], [3, 0x41]]) { data := [[9]], operations := 4 } := rfl
  obtain ⟨keyCount, signatureCount, dummy, below, verdict, asked, hstack, -, -, hexecute, hverdict,
    hasked, -⟩ := @checkMultiSig_decides_matching firstByteEnv _ _ _ [] 0
      ⟨0xae, []⟩ _ _ _ rfl hpure rfl haction hcounted htake hbits
  have hmatch : verdict = true := by
    refine hverdict.mpr ⟨![0, 2], by decide, fun index => ?_⟩
    fin_cases index
    · exact ⟨0x41, rfl, rfl⟩
    · exact ⟨0x41, rfl, rfl⟩
  cases hstack
  rw [hmatch] at hexecute
  exact ⟨⟨_, rfl, hpure⟩, rfl, haction, hbits, ⟨_, _, hcounted, htake⟩, asked, hasked, hexecute⟩

end Exec

end UtxoSpend
