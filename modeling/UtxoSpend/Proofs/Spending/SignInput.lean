import Mathlib
import UtxoSpend.Proofs.Key.Signing
import UtxoSpend.Proofs.Machine.PayToKeyHash
import UtxoSpend.Proofs.Spending.Resolve
import UtxoSpend.Spending.Sign

/-!
# A signed input is valid

The digest that is signed and the one that the machine asks for later come from different places:
the one from the locking script and the flag as given, the other from the running script, from which
something may be cut, and from one byte.  Main statement: they are the same, so the input is valid
once it is signed with the key that it asks for.
-/

namespace UtxoSpend

/-- On a consistent chain, signatures carry a fork id exactly under the fork-id rule. -/
theorem Chain.isSome_forkId_of_validate {chain : Chain} (h : chain.validate = .ok ()) :
    chain.forkId.isSome = chain.usesPreimage := by
  unfold Chain.validate at h
  cases hid : chain.forkId with
  | none =>
      cases hpreimage : chain.usesPreimage with
      | false => rfl
      | true => simp [hid, hpreimage] at h
  | some id =>
      cases hpreimage : chain.usesPreimage with
      | false => simp [hid, hpreimage] at h
      | true => rfl

theorem Chain.toByte_and_forkIdBit {chain : Chain} {flag : SighashFlag}
    (h : chain.validate = .ok ()) (hflag : flag.forkId = chain.forkId)
    (hpreimage : chain.usesPreimage = true) : flag.toByte &&& forkIdBit ≠ 0 := by
  apply SighashFlag.toByte_and_forkIdBit
  rw [hflag, isSome_forkId_of_validate h, hpreimage]

theorem Der.length_encode_append_le (signature : Signature) (hashType : UInt8) :
    2 ≤ (encode signature ++ [hashType]).length ∧
      (encode signature ++ [hashType]).length ≤ 75 := by
  have hpos := length_encode signature
  have hle := length_encode_le signature
  rw [List.length_append, List.length_singleton]
  omega

theorem PublicKey.length_compressed (key : PublicKey) : key.compressed.length = 33 := by
  rw [compressed, List.length_cons, Bytes.length_toBE]

theorem Script.unlockKeyHash_spec (signature : Signature) (flag : SighashFlag) (key : PublicKey) :
    ∃ script, unlockKeyHash signature flag key = .ok script ∧ script.size ≤ 10000 ∧
      script.instructions =
        .ok [.push (Der.encode signature ++ [flag.toByte]), .push key.compressed] := by
  have hder := Der.length_encode_le signature
  have hsignature := (Der.length_encode_append_le signature flag.toByte).2
  have hlength := key.length_compressed
  have hkey : key.compressed.length ≤ 75 := by omega
  have hfirst := empty.appendPush_of_le_75 hsignature
  have hsecond := appendPush_of_le_75 ⟨empty.bytes ++ (UInt8.ofNat
    (Der.encode signature ++ [flag.toByte]).length :: (Der.encode signature ++ [flag.toByte]))⟩ hkey
  have hempty : empty.instructions = .ok [] := Instruction.parse_eq_ok_iff.mpr ⟨by simp, rfl⟩
  refine ⟨_, ?_, ?_, instructions_appendPush (instructions_appendPush hempty hfirst) hsecond⟩
  · rw [unlockKeyHash, hfirst]
    exact hsecond
  · simp only [size, empty, List.length_append, List.length_cons, List.length_nil, hlength]
    omega

namespace Transaction

variable {tx : Transaction} {amount : UInt64} {check : SignatureCheck} {flag : SighashFlag}
  {digest : ByteVector 32}

theorem checkedDigest_eq (hflag : SighashFlag.ofByte check.hashType tx.chain.forkId = .ok flag)
    (hdigest : Sighash.digest tx check.inputIndex flag check.code amount = .ok digest) :
    tx.checkedDigest amount check = some (.ok digest) := by
  rw [checkedDigest, hflag, ← hdigest]

theorem verdict_eq_some_true {signature : Signature} {key : PublicKey}
    (hdigest : tx.checkedDigest amount check = some (.ok digest))
    (hsignature : Der.decode check.signature.dropLast = .ok signature)
    (hkey : PublicKey.ofBytes check.publicKey = .ok key)
    (hverify : key.verify digest.bytes signature = true) :
    tx.verdict amount check = some true := by
  rw [verdict, hdigest]
  dsimp only
  rw [hsignature, hkey]
  dsimp only
  rw [hverify]

theorem checkError?_eq_none (hdigest : tx.checkedDigest amount check = some (.ok digest)) :
    tx.checkError? amount check = none := by
  rw [checkError?, hdigest]

theorem judge_eq_ok_true {checks : List SignatureCheck}
    (h : checks.findSome? (tx.checkError? amount) = none) :
    tx.judge amount ⟨.ok (), checks⟩ = .ok true := by
  rw [judge, h]

theorem satisfies_signed {index : Nat} {key : PublicKey} {signature : Signature}
    {unlocking : Script} (hchain : tx.chain.validate = .ok ())
    (hflag : flag.forkId = tx.chain.forkId)
    (hdigest : Sighash.digest tx index flag (.payToKeyHash key.hash160) amount = .ok digest)
    (hrange : Der.InRange signature) (hlow : signature.isLowS = true)
    (hverify : key.verify digest.bytes signature = true)
    (hkey : PublicKey.ofBytes key.compressed = .ok key)
    (hapart : tx.chain.usesPreimage = false →
      Der.encode signature ++ [flag.toByte] ≠ key.hash160.bytes)
    (hsize : unlocking.size ≤ 10000)
    (hparse : unlocking.instructions =
      .ok [.push (Der.encode signature ++ [flag.toByte]), .push key.compressed]) :
    tx.satisfies index unlocking ⟨amount, .payToKeyHash key.hash160⟩ = .ok true := by
  have hfork := tx.chain.has_forkId (tx.context amount) index
  obtain ⟨hpos, hle⟩ := Der.length_encode_append_le signature flag.toByte
  have hkeyLength := key.length_compressed
  have hcode : Script.keyHashCode (tx.chain.env (tx.context amount) index) key.hash160
      (Der.encode signature ++ [flag.toByte]) = .payToKeyHash key.hash160 := by
    apply Script.keyHashCode_of_apart
    rw [hfork]
    exact hapart
  have hbit : (tx.chain.env (tx.context amount) index).has .forkId = true →
      flag.toByte &&& forkIdBit ≠ 0 := by
    rw [hfork]
    exact Chain.toByte_and_forkIdBit hchain hflag
  have htype : SighashFlag.ofByte flag.toByte tx.chain.forkId = .ok flag := by
    rw [← hflag]
    exact SighashFlag.ofByte_toByte flag
  have hchecked : tx.checkedDigest amount ⟨Der.encode signature ++ [flag.toByte], key.compressed,
      .payToKeyHash key.hash160, index, flag.toByte⟩ = some (.ok digest) :=
    checkedDigest_eq htype hdigest
  have hverdict := verdict_eq_some_true hchecked
    (by rw [List.dropLast_concat]; exact Der.decode_encode hrange hlow) hkey hverify
  have hhash : Hash.hash160 key.compressed = key.hash160 := rfl
  have heval := Machine.evaluate_payToKeyHash_of_pushes hparse hsize ⟨hpos, by omega⟩
    ⟨by omega, by omega⟩ hhash List.getLast?_concat hbit (by rw [hcode]; exact hverdict)
  rw [hcode] at heval
  have henv : tx.env index amount = tx.chain.env (tx.context amount) index := rfl
  have herrors : List.findSome? (tx.checkError? amount) [⟨Der.encode signature ++ [flag.toByte],
      key.compressed, .payToKeyHash key.hash160, index, flag.toByte⟩] = none := by
    rw [List.findSome?_cons, checkError?_eq_none hchecked]
    rfl
  rw [satisfies, henv, heval]
  exact judge_eq_ok_true herrors

end Transaction

namespace Spending

variable {resolver : Resolver} {index : Nat} {s : Spending} {input : Input}

theorem unlockingScript_eq {key : PrivateKey} {digest : ByteVector 32} {flag : SighashFlag}
    {signature : Signature} {script : Script} (hsign : key.sign digest.bytes = .ok signature)
    (hscript : Script.unlockKeyHash signature flag key.publicKey = .ok script) :
    unlockingScript key digest flag = .ok script := by
  -- The functions are hidden first: a comparison of their values would have them computed.
  generalize hdef : unlockingScript = unlocking
  delta unlockingScript at hdef
  generalize PrivateKey.sign = sign at hsign hdef
  generalize Script.unlockKeyHash = unlock at hscript hdef
  subst hdef
  beta_reduce
  rw [hsign]
  dsimp only
  rw [hscript]

theorem signatureHash_spec {output : Output} (hinput : s.transaction.inputs[index]? = some input)
    (hspends : input.spends resolver = .ok output) (flag : SighashFlag) :
    ∃ t, t.transaction.forget = s.transaction.forget ∧
      t.transaction.inputs[index]? = some { input with spent := some output } ∧
      signatureHash resolver index flag s =
        match Sighash.digest s.transaction index flag output.lockingScript output.amount with
        | .ok digest => .ok digest t
        | .error e => .error e t := by
  obtain ⟨t, hresolve, hforget, hget⟩ := resolve_spec hinput hspends
  have hdigest := Sighash.digest_eq_of_bare_eq (Transaction.bare_eq_of_forget_eq hforget) index flag
    output.lockingScript output.amount
  refine ⟨t, hforget, hget, ?_⟩
  rw [signatureHash, Effect.bind_of_ok hresolve, Effect.get_bind_run, hdigest]
  cases Sighash.digest s.transaction index flag output.lockingScript output.amount with
  | ok digest => rfl
  | error e => rfl

/-- An input is valid if its unlocking script satisfies what it spends, in every transaction that
looks the same to signatures. -/
theorem verifyInput_of_satisfies {output : Output}
    (hinput : s.transaction.inputs[index]? = some input)
    (hspends : input.spends resolver = .ok output)
    (hsatisfies : ∀ tx : Transaction, tx.bare = s.transaction.bare →
      tx.satisfies index input.unlockingScript output = .ok true) :
    ∃ t, verifyInput resolver index s = .ok true t := by
  rw [verifyInput, Effect.bind_of_ok (inputAt_run hinput)]
  cases hcoinbase : input.previous.isCoinbase with
  | true => exact ⟨s, rfl⟩
  | false =>
      obtain ⟨t, hresolve, hforget, -⟩ := resolve_spec hinput hspends
      have hvalid := hsatisfies t.transaction (Transaction.bare_eq_of_forget_eq hforget)
      refine ⟨t, ?_⟩
      rw [if_neg (by decide), Effect.bind_of_ok hresolve, Effect.get_bind_run, hvalid]
      rfl

def flagOn (chain : Chain) (flag : SighashFlag) : SighashFlag :=
  { flag with forkId := chain.forkId }

def install (script : Script) (input : Input) : Input := { input with unlockingScript := script }

theorem signInput_of_script {key : PrivateKey} {digest : ByteVector 32} {flag : SighashFlag}
    {script : Script} {t : Spending}
    (hhash : signatureHash resolver index (flagOn s.transaction.chain flag) s = .ok digest t)
    (hscript : unlockingScript key digest (flagOn s.transaction.chain flag) = .ok script) :
    signInput resolver index key flag s =
      verifyInput resolver index
        { t with transaction := t.transaction.updateInput index (install script) } := by
  unfold flagOn at hhash hscript
  rw [signInput, Effect.get_bind_run]
  generalize unlockingScript = unlocking at hscript ⊢
  rw [Effect.bind_of_ok hhash, hscript]
  exact Effect.bind_of_ok (modifyInput_run _)

def keyDigest (tx : Transaction) (index : Nat) (key : PrivateKey) (flag : SighashFlag)
    (amount : UInt64) : Except TransactionError (ByteVector 32) :=
  Sighash.digest tx index (flagOn tx.chain flag) (.payToKeyHash key.publicKey.hash160) amount

/-- What signing relies on: the public key reads back from its compressed form, the key signs the
digest, and the old algorithm does not find the signature in the script instead of the hash. -/
structure Reliable (tx : Transaction) (index : Nat) (key : PrivateKey) (flag : SighashFlag)
    (amount : UInt64) : Prop where
  readsBack : PublicKey.ofBytes key.publicKey.compressed = .ok key.publicKey
  signs : ∀ digest, keyDigest tx index key flag amount = .ok digest → key.Signs digest.bytes
  apart : tx.chain.usesPreimage = false → ∀ digest signature,
    keyDigest tx index key flag amount = .ok digest → key.sign digest.bytes = .ok signature →
    Der.encode signature ++ [(flagOn tx.chain flag).toByte] ≠ key.publicKey.hash160.bytes

section Signing

variable {key : PrivateKey} {flag : SighashFlag} {amount : UInt64}

/-- Where there is nothing to be signed, this is said before any script is changed. -/
theorem signInput_of_lacksOutput (hinput : s.transaction.inputs[index]? = some input)
    (hspends : input.spends resolver = .ok ⟨amount, .payToKeyHash key.publicKey.hash160⟩)
    (hlacks : Sighash.LacksOutput s.transaction index flag) :
    ∃ t, signInput resolver index key flag s =
        .error (.singleWithoutOutput index s.transaction.outputs.length) t ∧
      t.transaction.forget = s.transaction.forget := by
  obtain ⟨t, hforget, -, hhash⟩ := signatureHash_spec hinput hspends
    (flagOn s.transaction.chain flag)
  have hlacks' : Sighash.LacksOutput s.transaction index (flagOn s.transaction.chain flag) :=
    hlacks
  rw [Sighash.digest_of_lacksOutput hinput hlacks'] at hhash
  refine ⟨t, ?_, hforget⟩
  rw [signInput, Effect.get_bind_run]
  exact Effect.bind_of_error hhash

theorem exists_unlockingScript (hchain : s.transaction.chain.validate = .ok ())
    (hkey : Reliable s.transaction index key flag amount) {digest : ByteVector 32}
    (hdigest : keyDigest s.transaction index key flag amount = .ok digest) :
    ∃ script, unlockingScript key digest (flagOn s.transaction.chain flag) = .ok script ∧
      ∀ tx : Transaction, tx.bare = s.transaction.bare →
        tx.satisfies index script ⟨amount, .payToKeyHash key.publicKey.hash160⟩ = .ok true := by
  obtain ⟨signature, hsign, hrange, hlow, hverify⟩ :=
    PrivateKey.exists_sign (hkey.signs digest hdigest)
  obtain ⟨script, hscript, hsize, hparse⟩ := Script.unlockKeyHash_spec signature
    (flagOn s.transaction.chain flag) key.publicKey
  refine ⟨script, unlockingScript_eq hsign hscript, ?_⟩
  intro tx htx
  have hchainEq := Transaction.chain_eq_of_bare_eq htx
  have hdigestEq := Sighash.digest_eq_of_bare_eq htx index (flagOn s.transaction.chain flag)
    (.payToKeyHash key.publicKey.hash160) amount
  refine Transaction.satisfies_signed ?_ ?_ (hdigestEq.trans hdigest) hrange hlow hverify
    hkey.readsBack ?_ hsize hparse
  · rw [hchainEq]
    exact hchain
  · rw [hchainEq]
    rfl
  · intro hlegacy
    rw [hchainEq] at hlegacy
    exact hkey.apart hlegacy digest signature hdigest hsign

theorem signInput_of_hasOutput (hchain : s.transaction.chain.validate = .ok ())
    (hinput : s.transaction.inputs[index]? = some input)
    (hspends : input.spends resolver = .ok ⟨amount, .payToKeyHash key.publicKey.hash160⟩)
    (hkey : Reliable s.transaction index key flag amount)
    (hhas : ¬Sighash.LacksOutput s.transaction index flag) :
    ∃ t, signInput resolver index key flag s = .ok true t := by
  obtain ⟨t, hforget, hget, hhash⟩ := signatureHash_spec hinput hspends
    (flagOn s.transaction.chain flag)
  have hhas' : ¬Sighash.LacksOutput s.transaction index (flagOn s.transaction.chain flag) := hhas
  obtain ⟨digest, hdigest⟩ := Sighash.exists_digest hinput hhas'
    (.payToKeyHash key.publicKey.hash160) amount
  rw [hdigest] at hhash
  obtain ⟨script, hscript, hsatisfies⟩ := exists_unlockingScript hchain hkey hdigest
  -- What the machine sees of the transaction is what it was before it was looked up and changed.
  have hbareInstall : ∀ i : Input, (install script i).bare = i.bare := fun _ => rfl
  have hsame : (t.transaction.updateInput index (install script)).bare = s.transaction.bare := by
    rw [Transaction.bare_updateInput hbareInstall, Transaction.bare_eq_of_forget_eq hforget]
  have hverified : ∃ u, verifyInput resolver index
      { t with transaction := t.transaction.updateInput index (install script) } = .ok true u := by
    refine verifyInput_of_satisfies (Transaction.getElem?_updateInput hget (install script)) rfl ?_
    intro tx htx
    exact hsatisfies tx (htx.trans hsame)
  obtain ⟨u, hverified⟩ := hverified
  refine ⟨u, ?_⟩
  rw [signInput_of_script hhash hscript]
  exact hverified

end Signing

/-- Signing makes the input valid, unless there is nothing to be signed; then it only says so. -/
theorem signInput_verifies {resolver : Resolver} {index : Nat} {key : PrivateKey}
    {flag : SighashFlag} {s : Spending} {input : Input} {amount : UInt64}
    (hchain : s.transaction.chain.validate = .ok ())
    (hinput : s.transaction.inputs[index]? = some input)
    (hspends : input.spends resolver = .ok ⟨amount, .payToKeyHash key.publicKey.hash160⟩)
    (hkey : Reliable s.transaction index key flag amount) :
    (Sighash.LacksOutput s.transaction index flag →
      ∃ t, signInput resolver index key flag s =
          .error (.singleWithoutOutput index s.transaction.outputs.length) t ∧
        t.transaction.forget = s.transaction.forget) ∧
    (¬Sighash.LacksOutput s.transaction index flag →
      ∃ t, signInput resolver index key flag s = .ok true t) :=
  ⟨signInput_of_lacksOutput hinput hspends, signInput_of_hasOutput hchain hinput hspends hkey⟩

def oneKey : PrivateKey := ⟨1, by decide, by decide⟩

def spendOne : Spending :=
  .start ⟨2, [.unsigned ⟨.ofNat 32 0xab, 1⟩], [⟨4000, ⟨[0x51]⟩⟩], 0, .bitcoin⟩

def payToOne : Resolver := fun _ => .ok ⟨5000, .payToKeyHash oneKey.publicKey.hash160⟩

def foreignFlag : SighashFlag := ⟨.all, false, some 7⟩

def digestOne : ByteVector 32 :=
  .ofNat 32 0xbaece12325eeff1f490b3e8901651e953ee23a3ea8dea75a2d2fd23f4b76f612

def signatureOne : Nat × Nat :=
  (0xc544154f1f86cbe19ed913a6f102f1b3e4eb4fe09136175e15795fac0e92ab9b,
   0x1cd57494752460d047facfe19c9642e0ad0d1e1679db5d2fb242a3fe37ee6010)

theorem readsBack_oneKey :
    PublicKey.ofBytes oneKey.publicKey.compressed = .ok oneKey.publicKey := by
  decide +kernel

theorem keyDigest_spendOne :
    keyDigest spendOne.transaction 0 oneKey foreignFlag 5000 = .ok digestOne := by
  decide +kernel

theorem sign?_spendOne :
    Secp256k1.Ecdsa.sign? oneKey.scalar (PublicKey.digestNumber digestOne.bytes) =
      some signatureOne := by
  decide +kernel

theorem verify_spendOne :
    Secp256k1.Ecdsa.verify oneKey.publicKey.point (PublicKey.digestNumber digestOne.bytes)
      signatureOne.1 signatureOne.2 = true := by
  decide +kernel

theorem reliable_spendOne : Reliable spendOne.transaction 0 oneKey foreignFlag 5000 where
  readsBack := readsBack_oneKey
  signs := by
    intro digest hdigest
    cases keyDigest_spendOne.symm.trans hdigest
    exact ⟨_, _, sign?_spendOne, verify_spendOne⟩
  apart := by
    intro _ digest signature hdigest hsign
    cases keyDigest_spendOne.symm.trans hdigest
    rw [PrivateKey.sign_def] at hsign
    beta_reduce at hsign
    rw [sign?_spendOne] at hsign
    cases hsign
    decide +kernel

theorem signInput_verifies_spendOne :
    spendOne.transaction.chain.validate = .ok () ∧
    spendOne.transaction.inputs[0]? = some (.unsigned ⟨.ofNat 32 0xab, 1⟩) ∧
    Input.spends payToOne (.unsigned ⟨.ofNat 32 0xab, 1⟩) =
      .ok ⟨5000, .payToKeyHash oneKey.publicKey.hash160⟩ ∧
    Reliable spendOne.transaction 0 oneKey foreignFlag 5000 ∧
    ¬Sighash.LacksOutput spendOne.transaction 0 foreignFlag ∧
    ∃ t, signInput payToOne 0 oneKey foreignFlag spendOne = .ok true t := by
  have hchain : spendOne.transaction.chain.validate = .ok () := by decide
  have hinput : spendOne.transaction.inputs[0]? = some (.unsigned ⟨.ofNat 32 0xab, 1⟩) := rfl
  have hspends : Input.spends payToOne (.unsigned ⟨.ofNat 32 0xab, 1⟩) =
      .ok ⟨5000, .payToKeyHash oneKey.publicKey.hash160⟩ := rfl
  have hhas : ¬Sighash.LacksOutput spendOne.transaction 0 foreignFlag := by
    rintro ⟨-, hbase, -⟩
    cases hbase
  exact ⟨hchain, hinput, hspends, reliable_spendOne, hhas,
    (signInput_verifies hchain hinput hspends reliable_spendOne).2 hhas⟩

end Spending

end UtxoSpend
