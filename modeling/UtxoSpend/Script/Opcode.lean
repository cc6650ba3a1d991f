import UtxoSpend.Script.Action

/-!
# Opcodes

The table of named opcodes, the names of all bytes, and the classes of opcodes that scripts and the
machine tell apart. Bytes up to 75 push as many bytes as they say; bytes above the table have no
meaning.
-/

namespace UtxoSpend

abbrev Opcode := UInt8

namespace Opcode

def tableStart : Nat := 0x4c

/-- The named opcodes in byte order, from the first push with a length field. -/
def table : List (String × Action) :=
  [("OP_PUSHDATA1", .pushData),
   ("OP_PUSHDATA2", .pushData),
   ("OP_PUSHDATA4", .pushData),
   ("OP_1NEGATE", .stack (.push [0x81])),
   ("OP_RESERVED", .reserved),
   ("OP_1", .stack (.push [1])),
   ("OP_2", .stack (.push [2])),
   ("OP_3", .stack (.push [3])),
   ("OP_4", .stack (.push [4])),
   ("OP_5", .stack (.push [5])),
   ("OP_6", .stack (.push [6])),
   ("OP_7", .stack (.push [7])),
   ("OP_8", .stack (.push [8])),
   ("OP_9", .stack (.push [9])),
   ("OP_10", .stack (.push [10])),
   ("OP_11", .stack (.push [11])),
   ("OP_12", .stack (.push [12])),
   ("OP_13", .stack (.push [13])),
   ("OP_14", .stack (.push [14])),
   ("OP_15", .stack (.push [15])),
   ("OP_16", .stack (.push [16])),
   ("OP_NOP", .nothing),
   ("OP_VER", .reserved),
   ("OP_IF", .branch false),
   ("OP_NOTIF", .branch true),
   ("OP_VERIF", .reserved),
   ("OP_VERNOTIF", .reserved),
   ("OP_ELSE", .otherwise),
   ("OP_ENDIF", .endBranch),
   ("OP_VERIFY", .verify),
   ("OP_RETURN", .earlyReturn),
   ("OP_TOALTSTACK", .toAlt),
   ("OP_FROMALTSTACK", .fromAlt),
   ("OP_2DROP", .stack (.drop 2)),
   ("OP_2DUP", .stack (.dup 2)),
   ("OP_3DUP", .stack (.dup 3)),
   ("OP_2OVER", .stack (.copySecond 2)),
   ("OP_2ROT", .stack (.rot 2)),
   ("OP_2SWAP", .stack (.swap 2)),
   ("OP_IFDUP", .stack .ifDup),
   ("OP_DEPTH", .stack .depth),
   ("OP_DROP", .stack (.drop 1)),
   ("OP_DUP", .stack (.dup 1)),
   ("OP_NIP", .stack .nip),
   ("OP_OVER", .stack (.copySecond 1)),
   ("OP_PICK", .stack .pick),
   ("OP_ROLL", .stack .roll),
   ("OP_ROT", .stack (.rot 1)),
   ("OP_SWAP", .stack (.swap 1)),
   ("OP_TUCK", .stack .tuck),
   ("OP_CAT", .disabled),
   ("OP_SUBSTR", .disabled),
   ("OP_LEFT", .disabled),
   ("OP_RIGHT", .disabled),
   ("OP_SIZE", .stack .size),
   ("OP_INVERT", .disabled),
   ("OP_AND", .disabled),
   ("OP_OR", .disabled),
   ("OP_XOR", .disabled),
   ("OP_EQUAL", .stack .equal),
   ("OP_EQUALVERIFY", .stackVerify .equal .equal),
   ("OP_RESERVED1", .reserved),
   ("OP_RESERVED2", .reserved),
   ("OP_1ADD", .stack (.unary .increment)),
   ("OP_1SUB", .stack (.unary .decrement)),
   ("OP_2MUL", .disabled),
   ("OP_2DIV", .disabled),
   ("OP_NEGATE", .stack (.unary .negate)),
   ("OP_ABS", .stack (.unary .absolute)),
   ("OP_NOT", .stack (.unary .isZero)),
   ("OP_0NOTEQUAL", .stack (.unary .isNonzero)),
   ("OP_ADD", .stack (.binary .add)),
   ("OP_SUB", .stack (.binary .sub)),
   ("OP_MUL", .disabled),
   ("OP_DIV", .disabled),
   ("OP_MOD", .disabled),
   ("OP_LSHIFT", .disabled),
   ("OP_RSHIFT", .disabled),
   ("OP_BOOLAND", .stack (.binary .boolAnd)),
   ("OP_BOOLOR", .stack (.binary .boolOr)),
   ("OP_NUMEQUAL", .stack (.binary .equal)),
   ("OP_NUMEQUALVERIFY", .stackVerify (.binary .equal) .numEqual),
   ("OP_NUMNOTEQUAL", .stack (.binary .notEqual)),
   ("OP_LESSTHAN", .stack (.binary .less)),
   ("OP_GREATERTHAN", .stack (.binary .greater)),
   ("OP_LESSTHANOREQUAL", .stack (.binary .lessOrEqual)),
   ("OP_GREATERTHANOREQUAL", .stack (.binary .greaterOrEqual)),
   ("OP_MIN", .stack (.binary .min)),
   ("OP_MAX", .stack (.binary .max)),
   ("OP_WITHIN", .stack .within),
   ("OP_RIPEMD160", .stack (.hash .ripemd160)),
   ("OP_SHA1", .stack (.hash .sha1)),
   ("OP_SHA256", .stack (.hash .sha256)),
   ("OP_HASH160", .stack (.hash .hash160)),
   ("OP_HASH256", .stack (.hash .hash256)),
   ("OP_CODESEPARATOR", .codeSeparator),
   ("OP_CHECKSIG", .checkSig false),
   ("OP_CHECKSIGVERIFY", .checkSig true),
   ("OP_CHECKMULTISIG", .checkMultiSig false),
   ("OP_CHECKMULTISIGVERIFY", .checkMultiSig true),
   ("OP_NOP1", .upgradable),
   ("OP_CHECKLOCKTIMEVERIFY", .checkLockTime),
   ("OP_CHECKSEQUENCEVERIFY", .checkSequence),
   ("OP_NOP4", .upgradable),
   ("OP_NOP5", .upgradable),
   ("OP_NOP6", .upgradable),
   ("OP_NOP7", .upgradable),
   ("OP_NOP8", .upgradable),
   ("OP_NOP9", .upgradable),
   ("OP_NOP10", .upgradable)]

/-- The longest push whose opcode is its length. -/
def data75 : Opcode := 0x4b

def pushData1 : Opcode := 0x4c

def pushData2 : Opcode := 0x4d

def pushData4 : Opcode := 0x4e

def negative1 : Opcode := 0x4f

def number1 : Opcode := 0x51

def number16 : Opcode := 0x60

def branch : Opcode := 0x63

def endBranch : Opcode := 0x68

def dup : Opcode := 0x76

def equal : Opcode := 0x87

def equalVerify : Opcode := 0x88

def hash160 : Opcode := 0xa9

def codeSeparator : Opcode := 0xab

def checkSig : Opcode := 0xac

def entry? (op : Opcode) : Option (String × Action) :=
  if op.toNat < tableStart then none else table[op.toNat - tableStart]?

def action (op : Opcode) : Action :=
  if op ≤ pushData4 then .pushData
  else
    match entry? op with
    | some e => e.2
    | none => .reserved

def name (op : Opcode) : String :=
  if op = 0 then "OP_0"
  else if op ≤ data75 then s!"OP_DATA_{op.toNat}"
  else
    match entry? op with
    | some e => e.1
    | none => "OP_UNKNOWN"

/-- Other names under which opcodes are known. -/
def aliases : List (String × Opcode) :=
  [("OP_FALSE", 0x00), ("OP_TRUE", 0x51), ("OP_NOP2", 0xb1), ("OP_NOP3", 0xb2), ("OP_0", 0x00)]

/-- The opcode with a name. Direct pushes have none: assembly text writes their data. -/
def ofName? (text : String) : Option Opcode :=
  match aliases.find? (·.1 == text) with
  | some e => some e.2
  | none => (table.findIdx? (·.1 == text)).map fun i => UInt8.ofNat (tableStart + i)

/-- Whether an opcode pushes data that follows it; the empty push counts. -/
def isPush (op : Opcode) : Bool := op ≤ pushData4

def isSmallNumber (op : Opcode) : Bool := op == 0 || (number1 ≤ op && op ≤ number16)

def smallNumber? (op : Opcode) : Option Nat :=
  if op = 0 then some 0
  else if number1 ≤ op ∧ op ≤ number16 then some (op.toNat - number1.toNat + 1)
  else none

/-- Whether an opcode fails even in a branch that is not executed. -/
def isDisabled (op : Opcode) : Bool := op.action == .disabled

/-- Whether an opcode runs even in a branch that is not executed. -/
def isConditional (op : Opcode) : Bool := branch ≤ op && op ≤ endBranch

def isCounted (op : Opcode) : Bool := number16 < op

end Opcode

end UtxoSpend
