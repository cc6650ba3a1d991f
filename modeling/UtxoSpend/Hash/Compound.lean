import UtxoSpend.Hash.Sha256
import UtxoSpend.Hash.Ripemd160

/-!
# Hashes of hashes

Transaction ids, checksums and signature digests use SHA-256 twice; standard locking scripts commit
to RIPEMD-160 of SHA-256. Nonces come from SHA-256 under a key (HMAC).
-/

namespace UtxoSpend.Hash

def sha256d (message : Bytes) : ByteVector 32 := Sha256.hash (Sha256.hash message).bytes

def hash160 (message : Bytes) : ByteVector 20 := Ripemd160.hash (Sha256.hash message).bytes

end UtxoSpend.Hash

namespace UtxoSpend.Hash.Hmac

/-- The key as one block: hashed first if it is longer, filled with zeros if it is shorter. -/
def keyBlock (key : Bytes) : Bytes :=
  let short := if key.length > blockSize then (Sha256.hash key).bytes else key
  short ++ List.replicate (blockSize - short.length) 0

/-- The authentication code of a message under a key. -/
def code (key message : Bytes) : Bytes :=
  let block := keyBlock key
  let inner := Sha256.hash (block.map (· ^^^ 0x36) ++ message)
  (Sha256.hash (block.map (· ^^^ 0x5c) ++ inner.bytes)).bytes

end UtxoSpend.Hash.Hmac
