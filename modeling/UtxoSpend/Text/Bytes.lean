/-!
# Text and bytes

Readers of hex and Base58 work on UTF-8 bytes, because the positions in their errors count bytes.
These errors show a rejected byte as the quoted character with its code point, escaped where it
could not be read on a line of text, and a byte string as a bracketed list of two-digit numbers.
-/

namespace UtxoSpend.Text

def utf8 (cs : List Char) : List UInt8 := cs.flatMap String.utf8EncodeChar

def hexDigit (n : Nat) : Char := "0123456789abcdef".toList.getD n '0'

def hexNat (n : Nat) : String := String.ofList (Nat.toDigits 16 n)

/-- A number in base sixteen, filled with zeros to at least `width` digits. -/
def hexPadded (width n : Nat) : String :=
  let digits := Nat.toDigits 16 n
  String.ofList (List.replicate (width - digits.length) '0' ++ digits)

/-- Code points below 256 that have no visible form: controls, the no-break space and the soft
hyphen. -/
def isInvisible (code : Nat) : Bool :=
  code < 0x20 || (0x7f ≤ code && code ≤ 0xa0) || code == 0xad

/-- The character with a byte's code point, quoted and escaped. -/
def quotedByte (b : UInt8) : String :=
  let code := b.toNat
  let body :=
    match code with
    | 0x00 => "\\0"
    | 0x09 => "\\t"
    | 0x0a => "\\n"
    | 0x0d => "\\r"
    | 0x27 => "\\'"
    | 0x5c => "\\\\"
    | _ =>
      if isInvisible code then "\\u\x7b" ++ hexNat code ++ "\x7d"
      else String.singleton (Char.ofNat code)
  "'" ++ body ++ "'"

def byteList (bs : List UInt8) : String :=
  "[" ++ ", ".intercalate (bs.map fun b => hexPadded 2 b.toNat) ++ "]"

end UtxoSpend.Text
