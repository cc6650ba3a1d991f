import UtxoSpend.Script.Basic

/-!
# Instructions

For execution a script is parsed into instructions: opcodes with the data they push, empty where
they push none. A parse failure tells at which byte the bad push begins. The old signature digest
needs instructions deleted; deleting works on instructions, never across their boundaries.
-/

namespace UtxoSpend

structure Instruction where
  op : Opcode
  data : Bytes
  deriving DecidableEq

inductive PushDefect
  | truncatedLength
  | pastEnd
  deriving DecidableEq

/-- A bad push and the byte at which it begins. -/
structure ParseError where
  defect : PushDefect
  offset : Nat
  deriving DecidableEq

namespace PushDefect

def message : PushDefect → String
  | truncatedLength => "truncated push length"
  | pastEnd => "push data exceeds script length"

end PushDefect

namespace ParseError

def message (e : ParseError) : String := s!"{e.defect.message} at offset {e.offset}"

end ParseError

namespace Instruction

def name (i : Instruction) : String := i.op.name

def encode (i : Instruction) : Bytes := i.op :: (pushLengthField i.op i.data.length ++ i.data)

/-- Whether no shorter instruction pushes the same item. Numbers that have opcodes of their own need
them; for the rest each opcode has its range of lengths. -/
def isMinimalPush (i : Instruction) : Bool :=
  if i.op = 1 then
    match i.data with
    | b :: _ => !(1 ≤ b && b ≤ 16) && b != 0x81
    | [] => true
  else if i.op = Opcode.pushData1 then 75 < i.data.length
  else if i.op = Opcode.pushData2 then 0xff < i.data.length
  else if i.op = Opcode.pushData4 then 0xffff < i.data.length
  else true

/-- How many bytes of length field and of data follow an opcode. -/
def extent (op : Opcode) (rest : Bytes) : Except PushDefect (Nat × Nat) :=
  let width := pushLengthWidth op
  if width = 0 then .ok (0, if op ≤ Opcode.data75 then op.toNat else 0)
  else
    let field := rest.take width
    if field.length < width then .error .truncatedLength else .ok (width, Bytes.leNat field)

/-- The instructions of a byte string that stands at `offset`, after those of `acc` (last one
first). -/
def parseOnto (acc : List Instruction) (offset : Nat) :
    Bytes → Except ParseError (List Instruction)
  | [] => .ok acc.reverse
  | op :: rest =>
    match extent op rest with
    | .error defect => .error ⟨defect, offset⟩
    | .ok (width, length) =>
      let data := (rest.drop width).take length
      if data.length < length then .error ⟨.pastEnd, offset⟩
      else
        parseOnto (⟨op, data⟩ :: acc) (offset + 1 + width + length) (rest.drop (width + length))
termination_by bs => bs.length
decreasing_by
  simp only [List.length_cons, List.length_drop]
  omega

def parse (bs : Bytes) : Except ParseError (List Instruction) := parseOnto [] 0 bs

def unparse (is : List Instruction) : Script := ⟨is.flatMap encode⟩

/-- Whether no opcode lies above the number pushes. A reserved opcode among them counts as a
push. -/
def isPushOnly (is : List Instruction) : Bool := is.all fun i => i.op ≤ Opcode.number16

/-- Without the pushes that are written as the shortest push of `data`. -/
def deletePush (data : Bytes) (is : List Instruction) : List Instruction :=
  match pushHeader data.length with
  | .error _ => is
  | .ok header => is.filter fun i => !(i.op.isPush && i.encode == header ++ data)

def deleteOpcode (op : Opcode) (is : List Instruction) : List Instruction :=
  is.filter fun i => i.op != op

end Instruction

namespace Script

def instructions (s : Script) : Except ParseError (List Instruction) := Instruction.parse s.bytes

end Script

end UtxoSpend
