import ShaderLoom.Text.Quoted

/-! Why a text is not a document: it holds nothing, it stops inside a value, it nests too deep, or
something stands where it cannot stand. A text is taken in by blocks, the first of 64 bytes and each
of the next as long as all before it; what a message shows ends where the last block taken in
ends. -/
namespace ShaderLoom.Json

/-- What was due when a character was met that could not stand there. -/
inductive Place where
  | value
  | key
  | afterKey
  | afterField
  | afterItem
  | afterDocument
  | inText
  | inNumber
  | inWord (word : String) (due : Char)
  deriving DecidableEq, Repr

def Place.text : Place → String
  | .value => "looking for beginning of value"
  | .key => "looking for beginning of object key string"
  | .afterKey => "after object key"
  | .afterField => "after object key:value pair"
  | .afterItem => "after array element"
  | .afterDocument => "after top-level value"
  | .inText => "in string"
  | .inNumber => "in numeric literal"
  | .inWord word due => s!"in literal {word} (expecting '{due}')"

inductive Problem where
  | empty
  | cut
  | tooDeep
  | unexpected (held : Text.Glimpse) (place : Place)
  | badEscape (held : Text.Glimpse)
  deriving DecidableEq, Repr

def Problem.text : Problem → String
  | .empty => "EOF"
  | .cut => "unexpected EOF"
  | .tooDeep => "exceeded max depth"
  | .unexpected held place => s!"invalid character {held.firstShown} {place.text}"
  | .badEscape held => s!"invalid escape sequence {held.shown} in string"

/-- Where reading stops: at the end, or before a rest that does not go on as it should. -/
inductive Stop where
  | cut
  | tooDeep
  | unexpected (rest : List Char) (place : Place)
  /-- An escape of `width` bytes, of which the first `good` could be part of one. -/
  | badEscape (rest : List Char) (good width : Nat)
  deriving DecidableEq, Repr

/-- The rest of a text does not go on as it should: it is at its end, or its first character is
wrong. -/
def Stop.at (place : Place) : List Char → Stop
  | [] => .cut
  | rest => .unexpected rest place

/-- Where the block that holds the byte at an offset ends. -/
def blockEnd (offset : Nat) : Nat :=
  if offset < 64 then 64 else 64 <<< (Nat.log2 (offset / 64) + 1)

/-- What a stop in a text of `size` bytes tells. -/
def Stop.problem (size : Nat) : Stop → Problem
  | .cut => .cut
  | .tooDeep => .tooDeep
  | .unexpected rest place =>
    let offset := size - (String.ofList rest).utf8ByteSize
    .unexpected (.ofChars (blockEnd offset - offset) rest) place
  | .badEscape rest good width =>
    let offset := size - (String.ofList rest).utf8ByteSize
    .badEscape (.ofChars (min width (blockEnd (offset + good) - offset)) rest)

example : [0, 63, 64, 127, 128, 300].map blockEnd = [64, 64, 128, 128, 256, 512] := by
  decide +kernel

end ShaderLoom.Json
