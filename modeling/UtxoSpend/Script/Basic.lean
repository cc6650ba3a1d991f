import UtxoSpend.Script.Chunk

/-!
# Scripts

A script is a byte string that is read as a sequence of chunks. The bytes are kept as they are, also
when they do not decode.
-/

namespace UtxoSpend

structure Script where
  bytes : Bytes
  deriving DecidableEq

namespace Script

def empty : Script := ⟨[]⟩

def size (s : Script) : Nat := s.bytes.length

def isEmpty (s : Script) : Bool := s.bytes.isEmpty

def toHex (s : Script) : String := Hex.encode s.bytes

def ofHex (text : String) : Except ScriptError Script :=
  match Hex.decode text with
  | .error e => .error (.hex e)
  | .ok bytes => .ok ⟨bytes⟩

def chunks (s : Script) : Except ScriptError (List Chunk) := Chunk.decode s.bytes

def firstChunk (s : Script) : Except ScriptError (Option Chunk) := Chunk.first s.bytes

/-- Whether all chunks push data or a number. -/
def isPushOnly (s : Script) : Bool :=
  match s.chunks with
  | .error _ => false
  | .ok chunks => chunks.all fun c => c.isPush || c.op == Opcode.negative1 || c.op.isSmallNumber

def pushedData (s : Script) : Except ScriptError (List Bytes) :=
  s.chunks.map fun chunks => (chunks.filter Chunk.isPush).map Chunk.payload

/-- The script followed by the shortest push of `data`. -/
def appendPush (s : Script) (data : Bytes) : Except ScriptError Script :=
  (pushHeader data.length).map fun header => ⟨s.bytes ++ (header ++ data)⟩

def appendPushHex (s : Script) (text : List Char) : Except ScriptError Script :=
  match Hex.decodeChars text with
  | .error _ => .error .badToken
  | .ok data => s.appendPush data

/-- The script followed by opcodes, none of which may announce data. -/
def appendOpcodes (s : Script) (ops : Bytes) : Except ScriptError Script :=
  match ops.find? fun op => op ≠ 0 ∧ op ≤ Opcode.pushData4 with
  | some op => .error (.pushOpcode op)
  | none => .ok ⟨s.bytes ++ ops⟩

end Script

end UtxoSpend
