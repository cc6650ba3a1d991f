import UtxoSpend.Key.PublicKey
import UtxoSpend.Machine.Rules
import UtxoSpend.Script.Address
import UtxoSpend.Script.Template
import UtxoSpend.Sighash.SighashFlag

/-!
# Chains

The chains share transactions and scripts. They differ in the digest that signatures sign, in the
fork id that keeps signatures from being valid elsewhere, and in the versions of their addresses.
-/

namespace UtxoSpend

/-- What distinguishes a chain from the others. -/
structure Chain where
  name : String
  forkId : Option UInt32
  /-- Signatures sign the digest that commits to the spent amount. -/
  usesPreimage : Bool
  keyVersion : UInt8
  scriptVersion : UInt8
  deriving DecidableEq

namespace Chain

def bitcoin : Chain := ⟨"bitcoin", none, false, 0x00, 0x05⟩

def bitcoinTestnet : Chain := ⟨"bitcoin-testnet", none, false, 0x6f, 0xc4⟩

def bitcoinCash : Chain := ⟨"bitcoin-cash", some 0, true, 0x00, 0x05⟩

def bitcoinSv : Chain := ⟨"bitcoin-sv", some 0, true, 0x00, 0x05⟩

def bitcoinGold : Chain := ⟨"bitcoin-gold", some 79, true, 38, 23⟩

def known : List (String × Chain) :=
  [("bitcoin", bitcoin), ("btc", bitcoin), ("mainnet", bitcoin),
   ("bitcoin-testnet", bitcoinTestnet), ("testnet", bitcoinTestnet), ("tbtc", bitcoinTestnet),
   ("bitcoin-cash", bitcoinCash), ("bch", bitcoinCash),
   ("bitcoin-sv", bitcoinSv), ("bsv", bitcoinSv),
   ("bitcoin-gold", bitcoinGold), ("btg", bitcoinGold)]

/-- The known chain with a name or ticker; the case of ASCII letters does not matter. -/
def ofName (name : String) : Except TransactionError Chain :=
  match known.lookup (name.map Char.toLower) with
  | some chain => .ok chain
  | none => .error (.unknownChain name)

/-- A chain has a fork id exactly if it signs the digest that commits to the amount. -/
def validate (c : Chain) : Except TransactionError Unit :=
  match c.forkId, c.usesPreimage with
  | some id, false => .error (.inconsistentChain c.name (.idWithoutAlgorithm id))
  | none, true => .error (.inconsistentChain c.name .algorithmWithoutId)
  | _, _ => .ok ()

def flags (c : Chain) : Flags :=
  let base := Flags.payToScriptHash.union .cleanStack
  if c.usesPreimage then base.union .forkId else base

/-- The flag that covers everything, with the chain's fork id. -/
def defaultSighash (c : Chain) : SighashFlag := { SighashFlag.all with forkId := c.forkId }

def lockingScript (c : Chain) (a : Address) : Except ScriptError Script :=
  if a.version = c.keyVersion then .ok (.payToKeyHash a.hash)
  else if a.version = c.scriptVersion then .ok (.payToScriptHash a.hash)
  else .error (.unsupportedVersion a.version)

def lockingScriptOfText (c : Chain) (text : String) : Except ScriptError Script :=
  match Address.ofText text with
  | .error e => .error e
  | .ok a => c.lockingScript a

def keyAddress (c : Chain) (key : PublicKey) : Address := ⟨c.keyVersion, key.hash160⟩

end Chain

end UtxoSpend
