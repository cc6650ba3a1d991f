import UtxoSpend.Key.PrivateKey
import UtxoSpend.Spending.Verify

/-!
# Signing inputs
-/

namespace UtxoSpend

namespace Script

def unlockKeyHash (signature : Signature) (flag : SighashFlag) (key : PublicKey) :
    Except ScriptError Script :=
  match empty.appendPush (Der.encode signature ++ [flag.toByte]) with
  | .error e => .error e
  | .ok s => s.appendPush key.compressed

end Script

namespace Spending

def unlockingScript (key : PrivateKey) (digest : ByteVector 32) (flag : SighashFlag) :
    Except TransactionError Script :=
  match key.sign digest.bytes with
  | .error e => .error (.decode e)
  | .ok signature =>
    match Script.unlockKeyHash signature flag key.publicKey with
    | .error e => .error (.script e)
    | .ok script => .ok script

/-- Signs the input at a position with a key and installs the unlocking script, under the fork id of
the chain. Whether the input is then valid depends on the output that it spends. -/
def signInput (resolver : Resolver) (index : Nat) (key : PrivateKey) (flag : SighashFlag) :
    SpendM Bool := do
  let flag := { flag with forkId := (← get).transaction.chain.forkId }
  let digest ← signatureHash resolver index flag
  match unlockingScript key digest flag with
  | .error e => throw e
  | .ok script =>
    modifyInput index fun input => { input with unlockingScript := script }
    verifyInput resolver index

end Spending

end UtxoSpend
