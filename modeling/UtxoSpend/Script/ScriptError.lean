import UtxoSpend.DecodeError
import UtxoSpend.Script.Opcode

/-!
# Why scripts and addresses are refused
-/

namespace UtxoSpend

inductive AddressDefect
  | undecodable (cause : DecodeError)
  | wrongLength (actual : Nat)
  deriving DecidableEq

inductive ScriptError
  | hex (cause : HexError)
  | truncatedPush
  | oversizedPush
  | badToken
  | pushOpcode (op : Opcode)
  | empty
  | notPayToKeyHash
  | badAddress (text : String) (defect : AddressDefect)
  | unsupportedVersion (version : UInt8)
  deriving DecidableEq

namespace AddressDefect

def message : AddressDefect → String
  | undecodable cause => cause.message
  | wrongLength actual => s!"payload is {actual} bytes"

end AddressDefect

namespace ScriptError

def message : ScriptError → String
  | hex cause => s!"invalid hex: {cause.message}"
  | truncatedPush => "not enough data"
  | oversizedPush => "data too big"
  | badToken => "invalid opcode data"
  | pushOpcode op => s!"use append_push_data for push data funcs: {op.name}"
  | empty => "script is empty"
  | notPayToKeyHash => "not a P2PKH"
  | badAddress text defect => s!"invalid address: {text}: {defect.message}"
  | unsupportedVersion version =>
    s!"address version 0x{Text.hexPadded 2 version.toNat} not supported"

end ScriptError

end UtxoSpend
