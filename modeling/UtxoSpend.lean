import UtxoSpend.Bytes.Basic
import UtxoSpend.Bytes.ByteVector
import UtxoSpend.Bytes.Hex
import UtxoSpend.Bytes.Lemmas
import UtxoSpend.Bytes.Positional
import UtxoSpend.Chain.Chain
import UtxoSpend.DecodeError
import UtxoSpend.Hash.Blocks
import UtxoSpend.Hash.Compound
import UtxoSpend.Hash.Ripemd160
import UtxoSpend.Hash.Sha1
import UtxoSpend.Hash.Sha256
import UtxoSpend.Key.Der
import UtxoSpend.Key.PrivateKey
import UtxoSpend.Key.PublicKey
import UtxoSpend.Key.Signature
import UtxoSpend.Machine.Context
import UtxoSpend.Machine.Execute
import UtxoSpend.Machine.Failure
import UtxoSpend.Machine.LockTime
import UtxoSpend.Machine.Machine
import UtxoSpend.Machine.Number
import UtxoSpend.Machine.Rules
import UtxoSpend.Machine.SignatureOps
import UtxoSpend.Machine.Stack
import UtxoSpend.Machine.State
import UtxoSpend.Script.Action
import UtxoSpend.Script.Address
import UtxoSpend.Script.Assembly
import UtxoSpend.Script.Basic
import UtxoSpend.Script.Chunk
import UtxoSpend.Script.Instruction
import UtxoSpend.Script.Opcode
import UtxoSpend.Script.ScriptError
import UtxoSpend.Script.Template
import UtxoSpend.Secp256k1.Ecdsa
import UtxoSpend.Secp256k1.Field
import UtxoSpend.Secp256k1.Nonce
import UtxoSpend.Secp256k1.Point
import UtxoSpend.Sighash.Digest
import UtxoSpend.Sighash.Preimage
import UtxoSpend.Sighash.SighashFlag
import UtxoSpend.Spending.Sign
import UtxoSpend.Spending.Spending
import UtxoSpend.Spending.UtxoSet
import UtxoSpend.Spending.Verify
import UtxoSpend.Text.Base58
import UtxoSpend.Text.Base58Check
import UtxoSpend.Text.Blank
import UtxoSpend.Text.Bytes
import UtxoSpend.Transaction.Basic
import UtxoSpend.Transaction.Codec
import UtxoSpend.Transaction.OutPoint
import UtxoSpend.Transaction.TransactionError
import UtxoSpend.Wire.CompactSize
import UtxoSpend.Wire.Cursor
import UtxoSpend.Proofs.Effect
import UtxoSpend.Proofs.Wire.RoundTrip
import UtxoSpend.Proofs.Wire.Position
import UtxoSpend.Proofs.Wire.CanonicalSize
import UtxoSpend.Proofs.Transaction.RoundTrip
import UtxoSpend.Proofs.Transaction.Unique
import UtxoSpend.Proofs.Transaction.Rejection
import UtxoSpend.Proofs.Machine.Phases
import UtxoSpend.Proofs.Machine.Reach
import UtxoSpend.Proofs.Script.Template
import UtxoSpend.Proofs.Machine.Operations
import UtxoSpend.Proofs.Machine.PayToKeyHash
import UtxoSpend.Proofs.Machine.PushOnly
import UtxoSpend.Proofs.Machine.PushedItems
import UtxoSpend.Proofs.Machine.CanonicalPush
import UtxoSpend.Proofs.Script.Push
import UtxoSpend.Proofs.Machine.PayToScriptHash
import UtxoSpend.Proofs.Bytes.BigEndian
import UtxoSpend.Proofs.Bytes.Positional
import UtxoSpend.Proofs.Key.Der
import UtxoSpend.Proofs.Key.Signing
import UtxoSpend.Proofs.Key.Complement
import UtxoSpend.Proofs.Key.DerReading
import UtxoSpend.Proofs.Sighash.Digest
import UtxoSpend.Proofs.Sighash.SignedCopy
import UtxoSpend.Proofs.Sighash.FlagWord
import UtxoSpend.Proofs.Sighash.FlagCodec
import UtxoSpend.Proofs.Sighash.ForkId
import UtxoSpend.Proofs.Sighash.Fields
import UtxoSpend.Proofs.Sighash.Commitment
import UtxoSpend.Proofs.Sighash.Independence
import UtxoSpend.Proofs.Spending.Resolve
import UtxoSpend.Proofs.Spending.SignInput
import UtxoSpend.Proofs.Machine.SoftFork
import UtxoSpend.Proofs.Machine.Frame
import UtxoSpend.Proofs.Machine.Run
import UtxoSpend.Proofs.Machine.Deletion
import UtxoSpend.Proofs.Machine.SignedCode
import UtxoSpend.Proofs.Spending.Verdict
import UtxoSpend.Proofs.Spending.Verify
import UtxoSpend.Proofs.Spending.IndependentSigning
import UtxoSpend.Proofs.Spending.SignedFlag
import UtxoSpend.Proofs.Machine.KeyMatching
import UtxoSpend.Proofs.Machine.UnlockingPhase
import UtxoSpend.Proofs.Machine.Failures
import UtxoSpend.Proofs.Machine.Building
import UtxoSpend.Proofs.Machine.Loading
import UtxoSpend.Proofs.Machine.Termination
import UtxoSpend.Proofs.Machine.SignMagnitude
import UtxoSpend.Proofs.Machine.NumberCodec
import UtxoSpend.Proofs.Machine.Arithmetic
import UtxoSpend.Proofs.Machine.Items
import UtxoSpend.Proofs.Machine.Limits
import UtxoSpend.Spending.SharedInput
import UtxoSpend.Proofs.Script.Chunks
import UtxoSpend.Proofs.Script.Nesting
import UtxoSpend.Proofs.Text.Words
import UtxoSpend.Proofs.Text.Base58
import UtxoSpend.Proofs.Text.Base58Check
import UtxoSpend.Proofs.Bytes.Hex
import UtxoSpend.Proofs.Script.OpcodeNames
import UtxoSpend.Proofs.Script.Assembly
import UtxoSpend.Proofs.Machine.Branches
import UtxoSpend.Proofs.Machine.DeadBranches
import UtxoSpend.Proofs.Spending.Queries
import UtxoSpend.Proofs.Spending.Fee
import UtxoSpend.Proofs.Spending.SharedInput
import UtxoSpend.Proofs.Machine.Blocks
import UtxoSpend.Proofs.Machine.LockTimes
import UtxoSpend.Proofs.Transaction.CoinbaseHeight
import UtxoSpend.Proofs.Chain.LockingScript
