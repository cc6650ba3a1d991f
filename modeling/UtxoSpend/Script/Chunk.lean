import UtxoSpend.Script.ScriptError

/-!
# Chunks

A chunk is an opcode and, if the opcode pushes, the pushed data. A chunk remembers the opcode that
introduced its data, so writing decoded chunks gives the same bytes again, however wasteful the
pushes were.
-/

namespace UtxoSpend

/-- An opcode with the data it pushes. The empty push `OP_0` has no data of its own. -/
structure Chunk where
  op : Opcode
  data : Option Bytes
  deriving DecidableEq

def pushLengthField (op : Opcode) (length : Nat) : Bytes :=
  if op = Opcode.pushData1 then Bytes.toLE 1 length
  else if op = Opcode.pushData2 then Bytes.toLE 2 length
  else if op = Opcode.pushData4 then Bytes.toLE 4 length
  else []

def pushLengthWidth (op : Opcode) : Nat :=
  if op = Opcode.pushData1 then 1
  else if op = Opcode.pushData2 then 2
  else if op = Opcode.pushData4 then 4
  else 0

/-- The shortest opcode and length field that push `length` bytes. -/
def pushHeader (length : Nat) : Except ScriptError Bytes :=
  if length ≤ 75 then .ok [UInt8.ofNat length]
  else if length ≤ 0xff then .ok (Opcode.pushData1 :: Bytes.toLE 1 length)
  else if length ≤ 0xffff then .ok (Opcode.pushData2 :: Bytes.toLE 2 length)
  else if length ≤ 0xffffffff then .ok (Opcode.pushData4 :: Bytes.toLE 4 length)
  else .error .oversizedPush

namespace Chunk

/-- The pushed bytes; none for an opcode that pushes no data. -/
def payload (c : Chunk) : Bytes := c.data.getD []

/-- Whether the chunk pushes data; the empty push counts. -/
def isPush (c : Chunk) : Bool := c.op.isPush

def encode (c : Chunk) : Bytes := c.op :: (pushLengthField c.op c.payload.length ++ c.payload)

def readData (op : Opcode) (length : Nat) (rest : Bytes) : Except ScriptError (Chunk × Bytes) :=
  let data := rest.take length
  if data.length = length then .ok (⟨op, some data⟩, rest.drop length) else .error .truncatedPush

def read (op : Opcode) (rest : Bytes) : Except ScriptError (Chunk × Bytes) :=
  if op = 0 ∨ Opcode.pushData4 < op then .ok (⟨op, none⟩, rest)
  else if op ≤ Opcode.data75 then readData op op.toNat rest
  else
    let width := pushLengthWidth op
    let field := rest.take width
    if field.length = width then readData op (Bytes.leNat field) (rest.drop width)
    else .error .truncatedPush

theorem readData_length {op : Opcode} {length : Nat} {rest : Bytes} {c : Chunk} {left : Bytes}
    (h : readData op length rest = .ok (c, left)) : left.length ≤ rest.length := by
  unfold readData at h
  dsimp only at h
  split at h
  · cases h
    simp
  · cases h

theorem read_length {op : Opcode} {rest : Bytes} {c : Chunk} {left : Bytes}
    (h : read op rest = .ok (c, left)) : left.length ≤ rest.length := by
  unfold read at h
  split at h
  · cases h
    exact Nat.le_refl _
  · split at h
    · exact readData_length h
    · dsimp only at h
      split at h
      · have hle := readData_length h
        simp only [List.length_drop] at hle
        omega
      · cases h

/-- The chunks of a byte string, after those of `acc` (last one first). -/
def decodeOnto (acc : List Chunk) : Bytes → Except ScriptError (List Chunk)
  | [] => .ok acc.reverse
  | op :: rest =>
    match _h : read op rest with
    | .error e => .error e
    | .ok (c, left) => decodeOnto (c :: acc) left
termination_by bs => bs.length
decreasing_by
  have hle := read_length _h
  simp only [List.length_cons]
  omega

def decode (bs : Bytes) : Except ScriptError (List Chunk) := decodeOnto [] bs

/-- The first chunk, whatever follows it; an empty script has none. -/
def first : Bytes → Except ScriptError (Option Chunk)
  | [] => .ok none
  | op :: rest =>
    match read op rest with
    | .error e => .error e
    | .ok (c, _) => .ok (some c)

def word (c : Chunk) : String :=
  match c.data with
  | some data => Hex.encode data
  | none => c.op.name

end Chunk

end UtxoSpend
