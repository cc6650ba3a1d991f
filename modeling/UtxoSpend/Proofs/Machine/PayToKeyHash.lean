import Mathlib
import UtxoSpend.Chain.Chain
import UtxoSpend.Proofs.Machine.PushOnly
import UtxoSpend.Proofs.Machine.Reach
import UtxoSpend.Proofs.Script.Template

/-!
# Spending what is locked to a key hash

Main statement: whatever the unlocking script is, the spend is good exactly if that script leaves a
signature and a key with the right hash and nothing else, and the signature is valid for the key.
-/

namespace UtxoSpend

def Chain.env (chain : Chain) (tx : TxContext) (index : Nat) : Env :=
  ⟨chain.flags, {}, some tx, index⟩

namespace Chain

variable (chain : Chain) (tx : TxContext) (index : Nat)

theorem has_payToScriptHash : (chain.env tx index).has .payToScriptHash = true := by
  cases h : chain.usesPreimage <;> simp only [env, Env.has, flags, h] <;> rfl

theorem has_cleanStack : (chain.env tx index).has .cleanStack = true := by
  cases h : chain.usesPreimage <;> simp only [env, Env.has, flags, h] <;> rfl

theorem has_forkId : (chain.env tx index).has .forkId = chain.usesPreimage := by
  cases h : chain.usesPreimage <;> simp only [env, Env.has, flags, h] <;> rfl

end Chain

namespace Exec

open Machine Script

variable {env : Env} {hash : ByteVector 20} {data : Stack} {checks : List SignatureCheck}
  {t : State}

theorem execute_keyHash_push (hlimits : env.limits = {}) {s : State} (hbranches : s.branches = []) :
    execute env (keyHashInstructions hash) 2 ⟨20, hash.bytes⟩ s =
      .ok () { s with data := hash.bytes :: s.data } :=
  execute_push rfl (length_hash_le hlimits hash) rfl (isExecuting_of_branches hbranches)

theorem depth_le_iff (hlimits : env.limits = {}) {s : State} :
    s.depth ≤ env.limits.stackItems ↔ s.data.length + s.alt.length ≤ 1000 := by
  rw [hlimits]
  rfl

theorem data_of_runFrom_keyHash (hlimits : env.limits = {})
    (h : runFrom env (keyHashInstructions hash) 0 (keyHashInstructions hash)
      { data := data, checks := checks } = .ok () t) :
    ∃ publicKey signature rest valid u, data = publicKey :: signature :: rest ∧
      rest.length + 4 ≤ 1000 ∧ Hash.hash160 publicKey = hash ∧
      verifySignature env (keyHashCode env hash signature) signature publicKey
        { data := rest, operations := 4, checks := checks } = .ok valid u ∧
      t = { u with data := Truth.encode valid :: u.data } := by
  obtain ⟨s₁, hdup, -, h⟩ := runFrom_cons_eq_ok_iff.mp h
  obtain ⟨publicKey, below, rfl, rfl⟩ :=
    (execute_dup_eq_ok_iff rfl (lt_operations hlimits 0 (by decide))).mp hdup
  obtain ⟨s₂, hhash, -, h⟩ := runFrom_cons_eq_ok_iff.mp h
  obtain ⟨_, _, heq, rfl⟩ :=
    (execute_hash160_eq_ok_iff rfl (lt_operations hlimits 1 (by decide))).mp hhash
  cases heq
  -- The stack is at its highest after the push of the hash.
  obtain ⟨s₃, hpushed, hfull, h⟩ := runFrom_cons_eq_ok_iff.mp h
  rw [execute_keyHash_push hlimits rfl] at hpushed
  cases hpushed
  obtain ⟨s₄, hequal, -, h⟩ := runFrom_cons_eq_ok_iff.mp h
  obtain ⟨_, _, heq, rfl⟩ :=
    (execute_equalVerify_eq_ok_iff rfl (lt_operations hlimits 2 (by decide))).mp hequal
  simp only [List.cons.injEq] at heq
  obtain ⟨rfl, hkey, rfl⟩ := heq
  obtain ⟨s₅, hcheck, -, h⟩ := runFrom_cons_eq_ok_iff.mp h
  cases h
  obtain ⟨_, signature, rest, valid, u, heq, hverify, rfl⟩ :=
    (execute_checkSig_eq_ok_iff rfl (lt_operations hlimits 3 (by decide))).mp hcheck
  cases heq
  have hcode : signedCode env ((keyHashInstructions hash).drop 0) [signature] =
      keyHashCode env hash signature := signedCode_keyHash env hash signature
  rw [hcode] at hverify
  rw [depth_le_iff hlimits] at hfull
  simp only [List.length_cons, List.length_nil] at hfull
  exact ⟨publicKey, signature, rest, valid, u, rfl, by omega, ByteVector.ext hkey, hverify, rfl⟩

theorem runFrom_keyHash_of_data (hlimits : env.limits = {}) {publicKey signature : Bytes}
    {rest : Stack} {valid : Bool} {u : State} (hroom : rest.length + 4 ≤ 1000)
    (hkey : Hash.hash160 publicKey = hash)
    (hverify : verifySignature env (keyHashCode env hash signature) signature publicKey
      { data := rest, operations := 4, checks := checks } = .ok valid u)
    (hlast : State.depth { u with data := Truth.encode valid :: u.data } ≤ env.limits.stackItems) :
    runFrom env (keyHashInstructions hash) 0 (keyHashInstructions hash)
        { data := publicKey :: signature :: rest, checks := checks } =
      .ok () { u with data := Truth.encode valid :: u.data } := by
  subst hkey
  have hdepth : ∀ s : State, s.alt = [] → s.data.length ≤ rest.length + 4 →
      s.depth ≤ env.limits.stackItems := by
    intro s halt hlength
    rw [depth_le_iff hlimits, halt, List.length_nil]
    omega
  have hcode : signedCode env ((keyHashInstructions (Hash.hash160 publicKey)).drop 0) [signature] =
      keyHashCode env (Hash.hash160 publicKey) signature := signedCode_keyHash env _ signature
  rw [← hcode] at hverify
  refine runFrom_cons_eq_ok_iff.mpr ⟨_,
    (execute_dup_eq_ok_iff rfl (lt_operations hlimits 0 (by decide))).mpr ⟨_, _, rfl, rfl⟩,
    hdepth _ rfl (by simp), ?_⟩
  refine runFrom_cons_eq_ok_iff.mpr ⟨_,
    (execute_hash160_eq_ok_iff rfl (lt_operations hlimits 1 (by decide))).mpr ⟨_, _, rfl, rfl⟩,
    hdepth _ rfl (by simp), ?_⟩
  refine runFrom_cons_eq_ok_iff.mpr
    ⟨_, execute_keyHash_push hlimits rfl, hdepth _ rfl (by simp), ?_⟩
  refine runFrom_cons_eq_ok_iff.mpr ⟨_,
    (execute_equalVerify_eq_ok_iff rfl (lt_operations hlimits 2 (by decide))).mpr
      ⟨_, _, rfl, rfl⟩,
    hdepth _ rfl (by simp), ?_⟩
  exact runFrom_cons_eq_ok_iff.mpr ⟨_,
    (execute_checkSig_eq_ok_iff rfl (lt_operations hlimits 3 (by decide))).mpr
      ⟨_, _, _, _, _, rfl, hverify, rfl⟩, hlast, rfl⟩

theorem eq_of_verifySignature {code : Script} {signature publicKey : Bytes} {valid : Bool}
    {s u : State} (h : verifySignature env code signature publicKey s = .ok valid u) :
    u = { s with checks := u.checks } := by
  rcases verifySignature_eq_ok_iff.mp h with ⟨-, -, rfl⟩ | ⟨_, _, -, -, -, -, rfl⟩
  · rfl
  · rfl

/-- The script runs to its end exactly on a key with the right hash above a signature, and leaves
whether the signature is valid. -/
theorem runScript_keyHash_eq_ok_iff (hlimits : env.limits = {}) :
    runScript env (keyHashInstructions hash) { data := data, checks := checks } = .ok () t ↔
      ∃ publicKey signature rest valid u, data = publicKey :: signature :: rest ∧
        rest.length + 4 ≤ 1000 ∧ Hash.hash160 publicKey = hash ∧
        verifySignature env (keyHashCode env hash signature) signature publicKey
          { data := rest, operations := 4, checks := checks } = .ok valid u ∧
        t = { data := Truth.encode valid :: rest, checks := u.checks } := by
  rw [runScript_eq_ok_iff]
  constructor
  · rintro ⟨_, hrun, -, rfl⟩
    obtain ⟨publicKey, signature, rest, valid, u, hdata, hfull, hkey, hverify, rfl⟩ :=
      data_of_runFrom_keyHash hlimits hrun
    refine ⟨publicKey, signature, rest, valid, u, hdata, hfull, hkey, hverify, ?_⟩
    rw [eq_of_verifySignature hverify]
    rfl
  · rintro ⟨publicKey, signature, rest, valid, u, rfl, hfull, hkey, hverify, rfl⟩
    have hu := eq_of_verifySignature hverify
    refine ⟨{ u with data := Truth.encode valid :: u.data },
      runFrom_keyHash_of_data hlimits hfull hkey hverify ?_, ?_, ?_⟩
    · rw [hu, depth_le_iff hlimits]
      simp only [List.length_cons, List.length_nil]
      omega
    · rw [hu]
    · rw [hu]
      rfl

theorem runLast_keyHash_eq_ok_iff (hlimits : env.limits = {})
    (hclean : env.has .cleanStack = true) :
    runLast env (keyHashInstructions hash) { data := data, checks := checks } = .ok () t ↔
      ∃ publicKey signature hashType tx, data = [publicKey, signature] ∧
        Hash.hash160 publicKey = hash ∧ signature.getLast? = some hashType ∧
        (env.has .forkId = true → hashType &&& forkIdBit ≠ 0) ∧ env.context = some tx ∧
        tx.verdict checks ⟨signature, publicKey, keyHashCode env hash signature, env.inputIndex,
          hashType⟩ = some true ∧
        t = { data := [[1]], checks := checks ++ [⟨signature, publicKey,
          keyHashCode env hash signature, env.inputIndex, hashType⟩] } := by
  rw [runLast_eq_ok_iff]
  constructor
  · rintro ⟨hrun, hresult⟩
    obtain ⟨publicKey, signature, rest, valid, u, rfl, -, hkey, hverify, rfl⟩ :=
      (runScript_keyHash_eq_ok_iff hlimits).mp hrun
    obtain ⟨rfl, hvalid⟩ := (checkResult_clean_eq_ok_iff hclean).mp hresult
    rw [holds_encode] at hvalid
    subst hvalid
    rcases verifySignature_eq_ok_iff.mp hverify with
      ⟨-, hfalse, -⟩ | ⟨hashType, tx, htype, hbit, htx, hverdict, rfl⟩
    · cases hfalse
    · have htrue : tx.verdict checks ⟨signature, publicKey, keyHashCode env hash signature,
          env.inputIndex, hashType⟩ = some true := by
        rcases Option.getD_eq_iff.mp hverdict.symm with hsome | ⟨-, hfalse⟩
        · exact hsome
        · cases hfalse
      exact ⟨publicKey, signature, hashType, tx, rfl, hkey, htype, hbit, htx, htrue, rfl⟩
  · rintro ⟨publicKey, signature, hashType, tx, rfl, hkey, htype, hbit, htx, hverdict, rfl⟩
    have hverify : verifySignature env (keyHashCode env hash signature) signature publicKey
        { data := [], operations := 4, checks := checks } = .ok true _ :=
      verifySignature_eq_ok_iff.mpr
        (.inr ⟨hashType, tx, htype, hbit, htx, by rw [hverdict]; rfl, rfl⟩)
    refine ⟨(runScript_keyHash_eq_ok_iff hlimits).mpr
      ⟨publicKey, signature, [], true, _, rfl, by decide, hkey, hverify, rfl⟩, ?_⟩
    exact (checkResult_clean_eq_ok_iff hclean).mpr ⟨rfl, rfl⟩

end Exec

namespace Machine

open Exec Script

theorem callsForRedeem_payToKeyHash (env : Env) (hash : ByteVector 20) :
    callsForRedeem env (payToKeyHash hash) = false := by
  rw [callsForRedeem, isPayToScriptHash_payToKeyHash, Bool.and_false]

/-- What is locked to a key hash is spent exactly by scripts that leave a signature and its key. The
verdict on the signature is the context's, given the checks that the unlocking script made. -/
theorem result_payToKeyHash_eq_ok_iff (chain : Chain) (tx : TxContext) (index : Nat)
    (unlocking : Script) (hash : ByteVector 20) :
    (evaluate (chain.env tx index) unlocking (payToKeyHash hash)).result = .ok () ↔
      ∃ m publicKey signature hashType,
        ReachesLocking (chain.env tx index) unlocking (payToKeyHash hash) m ∧
        m.state.data = [publicKey, signature] ∧ Hash.hash160 publicKey = hash ∧
        signature.getLast? = some hashType ∧
        ((chain.env tx index).has .forkId = true → hashType &&& forkIdBit ≠ 0) ∧
        tx.verdict m.state.checks ⟨signature, publicKey,
          keyHashCode (chain.env tx index) hash signature, index, hashType⟩ = some true := by
  have hparse := instructions_payToKeyHash hash
  have hplain := callsForRedeem_payToKeyHash (chain.env tx index) hash
  have hne : keyHashInstructions hash ≠ [] := List.cons_ne_nil _ _
  rw [result_eq_ok_iff hparse hplain]
  constructor
  · rintro ⟨first, s, t, h, hfirst, hlast⟩
    obtain ⟨m, hreach, rfl⟩ := (reachesLocking_iff hparse hne).mpr ⟨first, h, hfirst⟩
    rw [← nextScript_of_runScript hfirst] at hlast
    obtain ⟨publicKey, signature, hashType, tx', hdata, hkey, htype, hbit, htx, hverdict, -⟩ :=
      (runLast_keyHash_eq_ok_iff rfl (chain.has_cleanStack tx index)).mp hlast
    cases htx
    exact ⟨m, publicKey, signature, hashType, hreach, hdata, hkey, htype, hbit, hverdict⟩
  · rintro ⟨m, publicKey, signature, hashType, hreach, hdata, hkey, htype, hbit, hverdict⟩
    obtain ⟨first, h, hfirst⟩ := (reachesLocking_iff hparse hne).mp ⟨m, hreach, rfl⟩
    have hlast := (runLast_keyHash_eq_ok_iff rfl (chain.has_cleanStack tx index)).mpr
      ⟨publicKey, signature, hashType, tx, hdata, hkey, htype, hbit, rfl, hverdict, rfl⟩
    change runLast _ _ m.state.nextScript = _ at hlast
    rw [nextScript_of_runScript hfirst] at hlast
    exact ⟨first, m.state, _, h, hfirst, hlast⟩

variable {chain : Chain} {tx : TxContext} {index : Nat} {hash : ByteVector 20}

theorem pushItems_pair {env : Env} (hlimits : env.limits = {}) {a b : Bytes}
    (ha : 2 ≤ a.length ∧ a.length ≤ 520) (hb : 2 ≤ b.length ∧ b.length ≤ 520) :
    pushItems env [.push a, .push b] [] = .ok () [b, a] := by
  have hsize : env.limits.elementSize = 520 := by rw [hlimits]
  have hpushed : ∀ data : Bytes, 2 ≤ data.length ∧ data.length ≤ 520 →
      pushedItem env (.push data) = .ok data := by
    intro data h
    exact pushedItem_push_of_two_le h.1 (by rw [hsize]; exact h.2)
  rw [pushItems, hpushed a ha]
  dsimp only
  rw [pushItems, hpushed b hb]
  rfl

theorem evaluate_payToKeyHash_of_pushes {unlocking : Script} {signature publicKey : Bytes}
    {hashType : UInt8}
    (hparse : unlocking.instructions = .ok [.push signature, .push publicKey])
    (hsize : unlocking.size ≤ 10000)
    (hsignature : 2 ≤ signature.length ∧ signature.length ≤ 520)
    (hkeyLength : 2 ≤ publicKey.length ∧ publicKey.length ≤ 520)
    (hkey : Hash.hash160 publicKey = hash) (htype : signature.getLast? = some hashType)
    (hbit : (chain.env tx index).has .forkId = true → hashType &&& forkIdBit ≠ 0)
    (hverdict : tx.verdict [] ⟨signature, publicKey,
      keyHashCode (chain.env tx index) hash signature, index, hashType⟩ = some true) :
    evaluate (chain.env tx index) unlocking (payToKeyHash hash) =
      ⟨.ok (), [⟨signature, publicKey, keyHashCode (chain.env tx index) hash signature, index,
        hashType⟩]⟩ := by
  have hplain := callsForRedeem_payToKeyHash (chain.env tx index) hash
  have hpushOnly : Instruction.isPushOnly [.push signature, .push publicKey] = true := by
    simp [Instruction.isPushOnly, push_op_le_number16]
  have hstart : Startable (chain.env tx index) unlocking (payToKeyHash hash)
      [.push signature, .push publicKey] (keyHashInstructions hash) := {
    flags := fun _ => chain.has_payToScriptHash tx index
    unlockingSize := hsize
    lockingSize := by
      rw [size_payToKeyHash]
      exact (by decide : 25 ≤ 10000)
    nonempty := by
      rintro ⟨-, hempty⟩
      cases hempty
    unlockingParses := hparse
    lockingParses := instructions_payToKeyHash hash
    pushOnly := fun _ => hpushOnly
    redeemPushOnly := fun _ => hpushOnly }
  have hrun : runScript (chain.env tx index) [.push signature, .push publicKey] {} =
      .ok () { data := [publicKey, signature] } := by
    rw [runScript_of_pushOnly hpushOnly (by decide : 2 ≤ 1000),
      pushItems_pair rfl hsignature hkeyLength]
  have hlast := (runLast_keyHash_eq_ok_iff rfl (chain.has_cleanStack tx index)).mpr
    ⟨publicKey, signature, hashType, tx, rfl, hkey, htype, hbit, rfl, hverdict, rfl⟩
  rw [evaluate_of_startable hstart, hplain, runSpend, Effect.bind_of_ok hrun, Effect.get_bind_run,
    runLocking_false, hlast]
  rfl

end Machine

end UtxoSpend
