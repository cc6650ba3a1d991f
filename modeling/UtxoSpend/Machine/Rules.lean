/-!
# Rules and limits of a run

Each verification rule is a bit, so that sets of rules are combined and compared as words.
-/

namespace UtxoSpend

structure Limits where
  operations : Nat := 201
  stackItems : Nat := 1000
  scriptSize : Nat := 10000
  elementSize : Nat := 520
  numberLength : Nat := 4
  multisigKeys : Nat := 20
  deriving DecidableEq

structure Flags where
  bits : UInt32
  deriving DecidableEq

namespace Flags

def none : Flags := ⟨0⟩

def payToScriptHash : Flags := ⟨1⟩

/-- The extra item of a multiple signature check must be empty. -/
def strictMultisig : Flags := ⟨2⟩

/-- Opcodes kept for upgrades must not run. -/
def discourageUpgradable : Flags := ⟨4⟩

def checkLockTime : Flags := ⟨8⟩

def checkSequence : Flags := ⟨16⟩

/-- Exactly one item may be left. Needs `payToScriptHash`. -/
def cleanStack : Flags := ⟨32⟩

def minimalData : Flags := ⟨64⟩

def pushOnlyUnlocking : Flags := ⟨128⟩

/-- Signatures must carry the fork-id bit, and nothing is deleted from the code they sign. -/
def forkId : Flags := ⟨256⟩

def has (f rule : Flags) : Bool := f.bits &&& rule.bits == rule.bits

def union (f g : Flags) : Flags := ⟨f.bits ||| g.bits⟩

def inter (f g : Flags) : Flags := ⟨f.bits &&& g.bits⟩

end Flags

end UtxoSpend
