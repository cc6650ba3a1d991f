import UtxoSpend.Script.Basic
import UtxoSpend.Text.Blank

/-!
# Assembly text

A script is written as words: the data of a push in hex, any other opcode by its name. Reading takes
the shortest push for every word that is no opcode's name.
-/

namespace UtxoSpend.Script

/-- The script as words; nothing if it does not decode. -/
def toAssembly (s : Script) : String :=
  match s.chunks with
  | .error _ => ""
  | .ok chunks => " ".intercalate (chunks.map Chunk.word)

def appendWord (s : Script) (word : List Char) : Except ScriptError Script :=
  match Opcode.ofName? (String.ofList word) with
  | some op => .ok ⟨s.bytes ++ [op]⟩
  | none => s.appendPushHex word

def ofAssembly (text : String) : Except ScriptError Script :=
  (Text.words text.toList).foldlM appendWord empty

end UtxoSpend.Script
