import UtxoSpend.Transaction.TransactionError

/-!
# What a signature covers

A flag says which outputs a signature commits to, whether it leaves the other inputs open, and on
which fork it is valid. Its low byte is the hash type that follows a signature; the fork id stands
in the other three bytes.
-/

namespace UtxoSpend

/-- Which outputs a signature commits to. -/
inductive SighashBase
  | all
  | none
  | single
  deriving DecidableEq

structure SighashFlag where
  base : SighashBase
  /-- Other inputs may be added, removed or changed. -/
  anyoneCanPay : Bool
  forkId : Option UInt32
  deriving DecidableEq

namespace SighashBase

def toUInt32 : SighashBase → UInt32
  | all => 1
  | none => 2
  | single => 3

end SighashBase

namespace SighashFlag

def forkIdMask : UInt32 := 0x40

def anyoneCanPayMask : UInt32 := 0x80

def baseMask : UInt32 := 0x1f

def unusedMask : UInt32 := 0x20

def all : SighashFlag := ⟨.all, false, none⟩

def withForkId (flag : SighashFlag) (id : UInt32) : SighashFlag := { flag with forkId := some id }

def typeBits (flag : SighashFlag) : UInt32 :=
  flag.base.toUInt32 ||| (if flag.forkId.isSome then forkIdMask else 0)
    ||| (if flag.anyoneCanPay then anyoneCanPayMask else 0)

def toByte (flag : SighashFlag) : UInt8 := flag.typeBits.toUInt8

/-- The whole flag. Of the fork id, 24 bits are kept. -/
def toUInt32 (flag : SighashFlag) : UInt32 :=
  flag.toByte.toUInt32 ||| (flag.forkId.getD 0 <<< 8)

def encode (flag : SighashFlag) : Bytes := Wire.u32 flag.toUInt32

def baseOf? (value : UInt32) : Option SighashBase :=
  let low := value &&& baseMask
  if low = 1 then some .all
  else if low = 2 then some .none
  else if low = 3 then some .single
  else none

/-- The flag with a value. Bits without a meaning must be clear, and a fork id needs its bit. -/
def ofUInt32 (value : UInt32) : Except TransactionError SighashFlag :=
  match baseOf? value with
  | none => .error (.badSighashFlag value)
  | some base =>
    let anyoneCanPay := value &&& anyoneCanPayMask != 0
    if value &&& unusedMask ≠ 0 then .error (.badSighashFlag value)
    else if value &&& forkIdMask ≠ 0 then .ok ⟨base, anyoneCanPay, some (value >>> 8)⟩
    else if value >>> 8 ≠ 0 then .error (.badSighashFlag value)
    else .ok ⟨base, anyoneCanPay, none⟩

/-- The flag of a signature with a hash type, on a chain with a fork id. The byte only tells that
there is a fork id; which one, the chain knows. -/
def ofByte (byte : UInt8) (chainForkId : Option UInt32) : Except TransactionError SighashFlag :=
  match ofUInt32 byte.toUInt32 with
  | .error e => .error e
  | .ok flag =>
    .ok (if flag.forkId.isSome then flag.withForkId (chainForkId.getD 0) else flag)

end SighashFlag

end UtxoSpend
