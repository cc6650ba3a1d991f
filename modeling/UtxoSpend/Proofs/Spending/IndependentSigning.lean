import Mathlib
import UtxoSpend.Proofs.Spending.SignInput
import UtxoSpend.Proofs.Spending.Verify

/-!
# Inputs are signed independently

Signing an input writes its unlocking script and what it remembers, and no digest and no script of
another input looks at either.  Main statement: whatever signing an input answers, all other inputs
stay as they are and are judged as before, so inputs may be signed in any order and none that is
valid is spoilt.
-/

namespace UtxoSpend

open Effect

/-! ## What is looked at -/

namespace Transaction

variable {resolver : Resolver} {a b : Transaction} {index : Nat}

theorem length_inputs_bare (tx : Transaction) : tx.bare.inputs.length = tx.inputs.length :=
  List.length_map _

theorem length_inputs_of_bare_eq (h : a.bare = b.bare) : a.inputs.length = b.inputs.length := by
  rw [← length_inputs_bare a, ← length_inputs_bare b, h]

/-- Whether an input is valid depends on this input and on what signatures see of the rest. -/
theorem answerAt_eq_of_bare_eq (hbare : a.bare = b.bare)
    (hinput : a.inputs[index]? = b.inputs[index]?) :
    a.answerAt resolver index = b.answerAt resolver index := by
  unfold answerAt
  rw [hinput, length_inputs_of_bare_eq hbare]
  simp only [satisfies_eq_of_bare_eq hbare]

/-- Of the input itself only what it spends matters, not whether this is remembered. -/
theorem answerAt_eq_of_spends_eq {x y : Input} (hbare : a.bare = b.bare)
    (hx : a.inputs[index]? = some x) (hy : b.inputs[index]? = some y)
    (hprevious : x.previous = y.previous) (hscript : x.unlockingScript = y.unlockingScript)
    (hspends : x.spends resolver = y.spends resolver) :
    a.answerAt resolver index = b.answerAt resolver index := by
  unfold answerAt
  rw [hx, hy]
  simp only [hprevious, hscript, hspends, satisfies_eq_of_bare_eq hbare]

theorem unlockingScripts_of_forget_eq (h : a.forget = b.forget) :
    a.inputs.map Input.unlockingScript = b.inputs.map Input.unlockingScript := by
  have hscripts : ∀ tx : Transaction,
      tx.inputs.map Input.unlockingScript = tx.forget.inputs.map Input.unlockingScript := by
    intro tx
    rw [forget, List.map_map]
    rfl
  rw [hscripts a, hscripts b, h]

def digestAt (resolver : Resolver) (tx : Transaction) (index : Nat) (flag : SighashFlag) :
    Except TransactionError (ByteVector 32) :=
  match tx.inputs[index]? with
  | none => .error (.noInput index tx.inputs.length)
  | some input =>
    match input.spends resolver with
    | .error cause => .error (Spending.missing input.previous cause)
    | .ok spent => Sighash.digest tx index flag spent.lockingScript spent.amount

theorem digestAt_eq_of_bare_eq (hbare : a.bare = b.bare)
    (hinput : a.inputs[index]? = b.inputs[index]?) (flag : SighashFlag) :
    a.digestAt resolver index flag = b.digestAt resolver index flag := by
  unfold digestAt
  rw [hinput, length_inputs_of_bare_eq hbare]
  simp only [Sighash.digest_eq_of_bare_eq hbare]

end Transaction

namespace Spending

variable {resolver : Resolver} {index : Nat} {key : PrivateKey} {flag : SighashFlag}
  {s t u : Spending}

theorem answer_signatureHash (resolver : Resolver) (index : Nat) (flag : SighashFlag)
    (s : Spending) :
    answer (signatureHash resolver index flag s) = s.transaction.digestAt resolver index flag := by
  cases hinput : s.transaction.inputs[index]? with
  | none =>
      have hresolve : resolve resolver index s =
          .error (.noInput index s.transaction.inputs.length) s := by
        rw [resolve, bind_of_error (inputAt_of_none hinput)]
      rw [Transaction.digestAt, hinput, signatureHash, bind_of_error hresolve]
      rfl
  | some input =>
      cases hspends : input.spends resolver with
      | error cause =>
          obtain ⟨hspent, hresolver⟩ := Input.spends_eq_error_iff.mp hspends
          rw [Transaction.digestAt, hinput, signatureHash,
            bind_of_error (resolve_of_missing hinput hspent hresolver)]
          simp only [hspends]
          rfl
      | ok output =>
          obtain ⟨t, -, -, hhash⟩ := signatureHash_spec hinput hspends flag
          rw [Transaction.digestAt, hinput, hhash]
          simp only [hspends]
          cases Sighash.digest s.transaction index flag output.lockingScript output.amount <;> rfl

/-! ## What is changed -/

/-- Of the transaction at most the input at `index` is another, and the view does not show it. -/
structure SameBut (view : Transaction → Transaction) (index : Nat) (s t : Spending) : Prop where
  view : view t.transaction = view s.transaction
  others : ∀ j, j ≠ index → t.transaction.inputs[j]? = s.transaction.inputs[j]?

variable {view : Transaction → Transaction}

theorem SameBut.refl (s : Spending) : SameBut view index s s := ⟨rfl, fun _ _ => rfl⟩

theorem SameBut.trans (h : SameBut view index s t) (h' : SameBut view index t u) :
    SameBut view index s u :=
  ⟨h'.view.trans h.view, fun j hj => (h'.others j hj).trans (h.others j hj)⟩

theorem SameBut.bare (h : SameBut .forget index s t) : SameBut .bare index s t :=
  ⟨Transaction.bare_eq_of_forget_eq h.view, h.others⟩

theorem getElem?_updateInput_of_ne (tx : Transaction) (f : Input → Input) {j : Nat}
    (h : j ≠ index) : (tx.updateInput index f).inputs[j]? = tx.inputs[j]? :=
  List.getElem?_modify_ne f tx.inputs h.symm

theorem inputAt_forget (i : Nat) : Preserves (SameBut .forget index) (inputAt i) := by
  intro s
  unfold inputAt
  cases s.transaction.inputs[i]? <;> exact .refl s

theorem lookUp_forget (point : OutPoint) :
    Preserves (SameBut .forget index) (lookUp resolver point) := by
  intro s
  unfold lookUp
  cases resolver point <;> exact ⟨rfl, fun _ _ => rfl⟩

theorem remember_forget (output : Output) :
    Preserves (SameBut .forget index) (modifyInput index (·.remember output)) := by
  intro s
  have hforget : ∀ input : Input, (input.remember output).forget = input.forget := fun _ => rfl
  exact ⟨Transaction.forget_updateInput hforget s.transaction index,
    fun j hj => getElem?_updateInput_of_ne s.transaction _ hj⟩

theorem resolve_forget (resolver : Resolver) (index : Nat) :
    Preserves (SameBut .forget index) (resolve resolver index) := by
  refine (inputAt_forget index).bind .trans fun input => ?_
  cases input.spent with
  | some output => exact .pure .refl output
  | none =>
      refine (lookUp_forget input.previous).bind .trans fun output => ?_
      exact (remember_forget output).bind .trans fun _ => .pure .refl output

theorem signatureHash_forget (resolver : Resolver) (index : Nat) (flag : SighashFlag) :
    Preserves (SameBut .forget index) (signatureHash resolver index flag) := by
  refine (resolve_forget resolver index).bind .trans fun spent s => ?_
  rw [get_bind_run]
  cases Sighash.digest s.transaction index flag spent.lockingScript spent.amount <;> exact .refl s

theorem verifyInput_forget (resolver : Resolver) (index : Nat) :
    Preserves (SameBut .forget index) (verifyInput resolver index) := by
  refine (inputAt_forget index).bind .trans fun input => ?_
  refine Preserves.ite (.pure .refl true) ?_
  refine (resolve_forget resolver index).bind .trans fun spent s => ?_
  rw [get_bind_run]
  cases s.transaction.satisfies index input.unlockingScript spent <;> exact .refl s

/-! ## The stages of signing -/

/-- The unlocking script that signing makes for the input at `index`, unless the input does not
exist, what it spends is not found or has no digest to be signed, or the key does not sign. -/
def signedScript (resolver : Resolver) (tx : Transaction) (index : Nat) (key : PrivateKey)
    (flag : SighashFlag) : Except TransactionError Script :=
  match tx.digestAt resolver index (flagOn tx.chain flag) with
  | .error e => .error e
  | .ok digest => unlockingScript key digest (flagOn tx.chain flag)

theorem signedScript_eq_of_bare_eq {a b : Transaction} (hbare : a.bare = b.bare)
    (hinput : a.inputs[index]? = b.inputs[index]?) :
    signedScript resolver a index key flag = signedScript resolver b index key flag := by
  unfold signedScript
  rw [Transaction.chain_eq_of_bare_eq hbare, Transaction.digestAt_eq_of_bare_eq hbare hinput]

structure Installs (resolver : Resolver) (index : Nat) (script : Script) (s t : Spending) :
    Prop where
  bare : SameBut .bare index s t
  input : ∃ input output, s.transaction.inputs[index]? = some input ∧
    input.spends resolver = .ok output ∧
    t.transaction.inputs[index]? = some { input with
      unlockingScript := script
      spent := some output }

theorem spent_of_signatureHash {digest : ByteVector 32}
    (h : signatureHash resolver index flag s = .ok digest t) :
    ∃ input output, s.transaction.inputs[index]? = some input ∧
      input.spends resolver = .ok output ∧
      t.transaction.inputs[index]? = some { input with spent := some output } := by
  have hdigest := answer_signatureHash resolver index flag s
  rw [h, Transaction.digestAt] at hdigest
  cases hinput : s.transaction.inputs[index]? with
  | none =>
      rw [hinput] at hdigest
      cases hdigest
  | some input =>
      cases hspends : input.spends resolver with
      | error cause =>
          simp only [hinput, hspends] at hdigest
          cases hdigest
      | ok output =>
          obtain ⟨u, -, hget, hhash⟩ := signatureHash_spec hinput hspends flag
          rw [h] at hhash
          split at hhash
          · cases hhash
            exact ⟨input, output, rfl, hspends, hget⟩
          · cases hhash

theorem installs_of_signatureHash {digest : ByteVector 32} (script : Script)
    (h : signatureHash resolver index flag s = .ok digest t) :
    Installs resolver index script s
      { t with transaction := t.transaction.updateInput index (install script) } := by
  have hfound : SameBut .forget index s t := (signatureHash_forget _ _ _).of_ok h
  have hbare : ∀ input, (install script input).bare = input.bare := fun _ => rfl
  obtain ⟨input, output, hinput, hspends, hget⟩ := spent_of_signatureHash h
  constructor
  · refine hfound.bare.trans ⟨Transaction.bare_updateInput hbare t.transaction index, ?_⟩
    exact fun j hj => getElem?_updateInput_of_ne t.transaction _ hj
  · exact ⟨input, output, hinput, hspends, Transaction.getElem?_updateInput hget (install script)⟩

/-- Signing fails where there is no script to be installed, and else ends with the verification of
the input with its new script. -/
theorem signInput_stages (resolver : Resolver) (index : Nat) (key : PrivateKey)
    (flag : SighashFlag) (s : Spending) :
    (∃ e t, signedScript resolver s.transaction index key flag = .error e ∧
      signInput resolver index key flag s = .error e t ∧ SameBut .forget index s t) ∨
    ∃ script t, signedScript resolver s.transaction index key flag = .ok script ∧
      signInput resolver index key flag s = verifyInput resolver index t ∧
      Installs resolver index script s t := by
  have hanswer := answer_signatureHash resolver index (flagOn s.transaction.chain flag) s
  have hfound := signatureHash_forget resolver index (flagOn s.transaction.chain flag) s
  rw [signedScript, ← hanswer]
  cases hhash : signatureHash resolver index (flagOn s.transaction.chain flag) s with
  | error e t =>
      rw [hhash] at hfound
      refine .inl ⟨e, t, rfl, ?_, hfound⟩
      rw [signInput, get_bind_run]
      exact bind_of_error hhash
  | ok digest t =>
      rw [hhash] at hfound
      dsimp only [answer]
      cases hscript : unlockingScript key digest (flagOn s.transaction.chain flag) with
      | error e =>
          refine .inl ⟨e, t, rfl, ?_, hfound⟩
          unfold flagOn at hhash hscript
          rw [signInput, get_bind_run]
          generalize unlockingScript = unlocking at hscript ⊢
          rw [bind_of_ok hhash, hscript]
          rfl
      | ok script =>
          exact .inr ⟨script, _, rfl, signInput_of_script hhash hscript,
            installs_of_signatureHash script hhash⟩

theorem signInput_bare (resolver : Resolver) (index : Nat) (key : PrivateKey)
    (flag : SighashFlag) : Preserves (SameBut .bare index) (signInput resolver index key flag) := by
  intro s
  obtain ⟨e, t, -, hrun, hfound⟩ | ⟨script, t, -, hrun, hinstalls⟩ :=
    signInput_stages resolver index key flag s
  · rw [hrun]
    exact hfound.bare
  · rw [hrun]
    exact hinstalls.bare.trans (verifyInput_forget resolver index t).bare

theorem signInput_of_unsigned {e : TransactionError}
    (h : signedScript resolver s.transaction index key flag = .error e) :
    ∃ t, signInput resolver index key flag s = .error e t ∧ SameBut .forget index s t := by
  obtain ⟨e', t, hscript, hrun, hfound⟩ | ⟨script, t, hscript, -, -⟩ :=
    signInput_stages resolver index key flag s
  · cases h.symm.trans hscript
    exact ⟨t, hrun, hfound⟩
  · cases h.symm.trans hscript

/-! ## What signing answers -/

theorem answer_verifyInput_again (resolver : Resolver) (index : Nat) (s : Spending) :
    answer (verifyInput resolver index (left (verifyInput resolver index s))) =
      answer (verifyInput resolver index s) := by
  rw [answer_verifyInput, answer_verifyInput,
    Transaction.answerAt_eq_of_resolved_eq (verifyInput_known resolver index s)]

theorem answer_verifyInput_of_signInput {valid : Bool}
    (h : answer (signInput resolver index key flag s) = .ok valid) :
    answer (verifyInput resolver index (left (signInput resolver index key flag s))) =
      .ok valid := by
  obtain ⟨e, t, -, hrun, -⟩ | ⟨script, t, -, hrun, -⟩ :=
    signInput_stages resolver index key flag s
  · rw [hrun] at h
    cases h
  · rw [hrun] at h ⊢
    rw [answer_verifyInput_again, h]

/-- The input that was signed remembers what it spends, so only its scripts can fail. -/
theorem error_of_installs {script : Script} (h : Installs resolver index script s t)
    {e : TransactionError} (hrun : verifyInput resolver index t = .error e u) :
    (∃ i n, e = .singleWithoutOutput i n) ∨ ∃ defect, e = .invalidScript defect := by
  obtain ⟨-, input, output, -, -, hget⟩ := h
  have hclass := classified resolver t index
  have hanswer : answer (verifyInput resolver index t) = .error e := by rw [hrun]; rfl
  obtain ⟨i, n, rfl⟩ | hmissing | hdigest | hdefect := hclass.errors e hanswer
  · have hle := hclass.noInput.mp ⟨i, n, hanswer⟩
    have hlt := (List.getElem?_eq_some_iff.mp hget).1
    omega
  · cases hcoinbase : input.previous.isCoinbase with
    | true =>
        rw [hclass.coinbase _ hget hcoinbase] at hrun
        cases hrun
    | false =>
        obtain ⟨hnone, -⟩ := (hclass.missing _ hget hcoinbase).mp ⟨e, hanswer, hmissing⟩
        cases hnone
  · exact .inl hdigest
  · exact .inr hdefect

/-! ## Signing several inputs -/

def signedAnswer (resolver : Resolver) (tx : Transaction) (index : Nat) (key : PrivateKey)
    (flag : SighashFlag) : Except TransactionError Bool :=
  match signedScript resolver tx index key flag with
  | .error e => .error e
  | .ok script => (tx.updateInput index (install script)).answerAt resolver index

theorem signedAnswer_eq_of_bare_eq {a b : Transaction} (hbare : a.bare = b.bare)
    (hinput : a.inputs[index]? = b.inputs[index]?) :
    signedAnswer resolver a index key flag = signedAnswer resolver b index key flag := by
  unfold signedAnswer
  rw [signedScript_eq_of_bare_eq hbare hinput]
  split
  · rfl
  · rename_i script _
    have hsame : ∀ input, (install script input).bare = input.bare := fun _ => rfl
    refine Transaction.answerAt_eq_of_bare_eq ?_ ?_
    · rw [Transaction.bare_updateInput hsame, Transaction.bare_updateInput hsame, hbare]
    · simp only [Transaction.updateInput, List.getElem?_modify_eq, hinput]

theorem answer_signInput (resolver : Resolver) (index : Nat) (key : PrivateKey)
    (flag : SighashFlag) (s : Spending) :
    answer (signInput resolver index key flag s) =
      signedAnswer resolver s.transaction index key flag := by
  unfold signedAnswer
  obtain ⟨e, t, hscript, hrun, -⟩ | ⟨script, t, hscript, hrun, hbare, input, output, hinput,
    hspends, hget⟩ := signInput_stages resolver index key flag s
  · rw [hscript, hrun]
    rfl
  · have hsame : ∀ input, (install script input).bare = input.bare := fun _ => rfl
    rw [hscript, hrun, answer_verifyInput]
    refine Transaction.answerAt_eq_of_spends_eq ?_ hget
      (Transaction.getElem?_updateInput hinput (install script)) rfl rfl hspends.symm
    rw [Transaction.bare_updateInput hsame, hbare.view]

structure SigningRequest where
  index : Nat
  key : PrivateKey
  flag : SighashFlag

def signAll (resolver : Resolver) : List SigningRequest → Spending → Spending
  | [], s => s
  | r :: rest, s => signAll resolver rest (left (signInput resolver r.index r.key r.flag s))

variable {requests : List SigningRequest}

theorem signAll_of_not_mem (resolver : Resolver) (h : ∀ r ∈ requests, r.index ≠ index)
    (s : Spending) :
    (signAll resolver requests s).transaction.bare = s.transaction.bare ∧
      (signAll resolver requests s).transaction.inputs[index]? =
        s.transaction.inputs[index]? := by
  induction requests generalizing s with
  | nil => exact ⟨rfl, rfl⟩
  | cons r rest ih =>
      obtain ⟨hr, hrest⟩ := List.forall_mem_cons.mp h
      have hsigned := signInput_bare resolver r.index r.key r.flag s
      obtain ⟨hbare, hinput⟩ := ih hrest (left (signInput resolver r.index r.key r.flag s))
      exact ⟨hbare.trans hsigned.view, hinput.trans (hsigned.others index hr.symm)⟩

theorem signAll_append (before after : List SigningRequest) (s : Spending) :
    signAll resolver (before ++ after) s =
      signAll resolver after (signAll resolver before s) := by
  induction before generalizing s with
  | nil => rfl
  | cons r before ih => exact ih _

theorem answer_verifyInput_signAll (h : ∀ r ∈ requests, r.index ≠ index) (other : Resolver)
    (s : Spending) :
    answer (verifyInput other index (signAll resolver requests s)) =
      answer (verifyInput other index s) := by
  obtain ⟨hbare, hinput⟩ := signAll_of_not_mem resolver h s
  rw [answer_verifyInput, answer_verifyInput]
  exact Transaction.answerAt_eq_of_bare_eq hbare hinput

/-- Where every input is signed at most once, an input that answers when it is the first to be
signed answers the same in the end. -/
theorem answer_verifyInput_of_signed (hdistinct : (requests.map SigningRequest.index).Nodup)
    {r : SigningRequest} (hr : r ∈ requests) {valid : Bool}
    (h : answer (signInput resolver r.index r.key r.flag s) = .ok valid) :
    answer (verifyInput resolver r.index (signAll resolver requests s)) = .ok valid := by
  obtain ⟨before, after, rfl⟩ := List.append_of_mem hr
  rw [List.map_append, List.map_cons, List.nodup_middle, List.nodup_cons, List.mem_append,
    not_or] at hdistinct
  obtain ⟨⟨hnotBefore, hnotAfter⟩, -⟩ := hdistinct
  have hbefore : ∀ r' ∈ before, r'.index ≠ r.index := by
    intro r' hmem heq
    exact hnotBefore (heq ▸ List.mem_map_of_mem hmem)
  have hafter : ∀ r' ∈ after, r'.index ≠ r.index := by
    intro r' hmem heq
    exact hnotAfter (heq ▸ List.mem_map_of_mem hmem)
  obtain ⟨hbare, hinput⟩ := signAll_of_not_mem resolver hbefore s
  have hsame : answer (signInput resolver r.index r.key r.flag (signAll resolver before s)) =
      .ok valid := by
    rw [answer_signInput, signedAnswer_eq_of_bare_eq hbare hinput, ← answer_signInput, h]
  rw [signAll_append, signAll, answer_verifyInput_signAll hafter]
  exact answer_verifyInput_of_signInput hsame

/-! ## Independence -/

/-- What is left when the input at `index` was signed, or could not be: the rest of the transaction
is as it was, and answers as it did. -/
structure SignedApart (index : Nat) (s t : Spending) : Prop where
  version : t.transaction.version = s.transaction.version
  lockTime : t.transaction.lockTime = s.transaction.lockTime
  chain : t.transaction.chain = s.transaction.chain
  outputs : t.transaction.outputs = s.transaction.outputs
  previous : t.transaction.inputs.map Input.previous = s.transaction.inputs.map Input.previous
  sequence : t.transaction.inputs.map Input.sequence = s.transaction.inputs.map Input.sequence
  others : ∀ j, j ≠ index → t.transaction.inputs[j]? = s.transaction.inputs[j]?
  verifies : ∀ resolver j, j ≠ index →
    answer (verifyInput resolver j t) = answer (verifyInput resolver j s)
  hashes : ∀ resolver j flag, j ≠ index →
    answer (signatureHash resolver j flag t) = answer (signatureHash resolver j flag s)

theorem map_inputs_of_bare_eq {α : Type} {a b : Transaction} (h : a.bare = b.bare)
    {view : Input → α} (hview : ∀ input, view input.bare = view input) :
    a.inputs.map view = b.inputs.map view := by
  have hmap : ∀ tx : Transaction, tx.inputs.map view = tx.bare.inputs.map view := by
    intro tx
    rw [Transaction.bare, List.map_map]
    exact List.map_congr_left fun input _ => (hview input).symm
  rw [hmap a, hmap b, h]

theorem SameBut.signedApart (h : SameBut .bare index s t) : SignedApart index s t := by
  obtain ⟨hversion, -, houtputs, hlockTime, hchain⟩ := Transaction.mk.inj h.view
  exact {
    version := hversion
    lockTime := hlockTime
    chain := hchain
    outputs := houtputs
    previous := map_inputs_of_bare_eq h.view fun _ => rfl
    sequence := map_inputs_of_bare_eq h.view fun _ => rfl
    others := h.others
    verifies := by
      intro resolver j hj
      rw [answer_verifyInput, answer_verifyInput]
      exact Transaction.answerAt_eq_of_bare_eq h.view (h.others j hj)
    hashes := by
      intro resolver j flag hj
      rw [answer_signatureHash, answer_signatureHash]
      exact Transaction.digestAt_eq_of_bare_eq h.view (h.others j hj) flag }

structure SignedInput (resolver : Resolver) (index : Nat) (key : PrivateKey) (flag : SighashFlag)
    (s : Spending) : Prop where
  unsigned : ∀ e, signedScript resolver s.transaction index key flag = .error e →
    ∃ t, signInput resolver index key flag s = .error e t ∧
      t.transaction.inputs.map Input.unlockingScript =
        s.transaction.inputs.map Input.unlockingScript
  refused : ∀ script, signedScript resolver s.transaction index key flag = .ok script →
    ∀ e t, signInput resolver index key flag s = .error e t →
    (∃ i n, e = .singleWithoutOutput i n) ∨ ∃ defect, e = .invalidScript defect
  verified : ∀ valid t, signInput resolver index key flag s = .ok valid t →
    answer (verifyInput resolver index t) = .ok valid

theorem signedInput (resolver : Resolver) (index : Nat) (key : PrivateKey) (flag : SighashFlag)
    (s : Spending) : SignedInput resolver index key flag s where
  unsigned e h := by
    obtain ⟨t, hrun, hfound⟩ := signInput_of_unsigned h
    exact ⟨t, hrun, Transaction.unlockingScripts_of_forget_eq hfound.view⟩
  refused script h e t hrun := by
    obtain ⟨e', u, hscript, -, -⟩ | ⟨script', u, -, hverify, hinstalls⟩ :=
      signInput_stages resolver index key flag s
    · cases h.symm.trans hscript
    · exact error_of_installs hinstalls (hverify.symm.trans hrun)
  verified valid t hrun := by
    have hanswer := answer_verifyInput_of_signInput (s := s) (by rw [hrun]; rfl)
    rw [hrun] at hanswer
    exact hanswer

/-- Signing an input leaves all others as they are and as valid as they are, whatever it answers,
so the inputs may be signed in any order. -/
theorem signInput_independent (resolver : Resolver) (s : Spending) :
    (∀ index key flag,
      SignedApart index s (left (signInput resolver index key flag s)) ∧
      SignedInput resolver index key flag s) ∧
    ∀ requests : List SigningRequest,
      (∀ other index, (∀ r ∈ requests, r.index ≠ index) →
        answer (verifyInput other index (signAll resolver requests s)) =
          answer (verifyInput other index s)) ∧
      ((requests.map SigningRequest.index).Nodup → ∀ r ∈ requests, ∀ valid,
        answer (signInput resolver r.index r.key r.flag s) = .ok valid →
        answer (verifyInput resolver r.index (signAll resolver requests s)) = .ok valid) := by
  refine ⟨fun index key flag => ?_, fun requests => ⟨fun other index h => ?_, ?_⟩⟩
  · exact ⟨(signInput_bare resolver index key flag s).signedApart,
      signedInput resolver index key flag s⟩
  · exact answer_verifyInput_signAll h other s
  · exact fun hdistinct r hr valid h => answer_verifyInput_of_signed hdistinct hr h

def strayRequest : List SigningRequest := [⟨1, oneKey, foreignFlag⟩, ⟨0, oneKey, foreignFlag⟩]

theorem answer_signInput_spendOne :
    answer (signInput payToOne 0 oneKey foreignFlag spendOne) = .ok true := by
  have hhas : ¬Sighash.LacksOutput spendOne.transaction 0 foreignFlag := by
    rintro ⟨-, hbase, -⟩
    cases hbase
  have hinput : spendOne.transaction.inputs[0]? = some (.unsigned ⟨.ofNat 32 0xab, 1⟩) := rfl
  have hspends : (Input.unsigned ⟨.ofNat 32 0xab, 1⟩).spends payToOne =
      .ok ⟨5000, .payToKeyHash oneKey.publicKey.hash160⟩ := rfl
  obtain ⟨t, hrun⟩ := signInput_of_hasOutput (by decide) hinput hspends reliable_spendOne hhas
  rw [hrun]
  rfl

theorem signInput_independent_spendOne :
    (∃ t, signInput payToOne 1 oneKey foreignFlag spendOne = .error (.noInput 1 1) t ∧
      t.transaction.inputs.map Input.unlockingScript = [.empty]) ∧
    (strayRequest.map SigningRequest.index).Nodup ∧
    answer (signInput payToOne 0 oneKey foreignFlag spendOne) = .ok true ∧
    answer (verifyInput payToOne 0 (signAll payToOne strayRequest spendOne)) = .ok true := by
  obtain ⟨hone, hmany⟩ := signInput_independent payToOne spendOne
  have hmissing : signedScript payToOne spendOne.transaction 1 oneKey foreignFlag =
      .error (.noInput 1 1) := rfl
  have hdistinct : (strayRequest.map SigningRequest.index).Nodup := by decide
  refine ⟨(hone 1 oneKey foreignFlag).2.unsigned _ hmissing, hdistinct,
    answer_signInput_spendOne, ?_⟩
  have hlast : ⟨0, oneKey, foreignFlag⟩ ∈ strayRequest := List.mem_cons_of_mem _ List.mem_cons_self
  exact (hmany strayRequest).2 hdistinct _ hlast true answer_signInput_spendOne

end Spending

end UtxoSpend
