import ShaderLoom.Text.Quoted

/-! How a text is laid out at its place in a message: as it is, in quotes or byte by byte, cut to a
precision and padded to a width. Both count characters, but the precision of bytes counts bytes. -/
namespace ShaderLoom

structure Layout where
  sharp : Bool := false
  zero : Bool := false
  plus : Bool := false
  minus : Bool := false
  space : Bool := false
  width : Option Nat := none
  precision : Option Nat := none
  deriving DecidableEq, Repr

namespace Layout

/-- The layout with one more flag; `none` if the character is no flag. -/
def flag? (l : Layout) (c : Char) : Option Layout :=
  match c with
  | '#' => some { l with sharp := true }
  | '0' => some { l with zero := true }
  | '+' => some { l with plus := true }
  | '-' => some { l with minus := true }
  | ' ' => some { l with space := true }
  | _ => none

/-- Fills up to the width. Zeros stand on the left only. -/
def pad (l : Layout) (s : String) : String :=
  let gap := l.width.getD 0 - s.length
  if l.minus then s ++ String.ofList (List.replicate gap ' ')
  else String.ofList (List.replicate gap (if l.zero then '0' else ' ')) ++ s

def clip (l : Layout) (s : String) : String :=
  match l.precision with
  | some n => String.ofList (s.toList.take n)
  | none => s

def plain (l : Layout) (s : String) : String := l.pad (l.clip s)

/-- In quotes: backquotes where they fit and `sharp` asks for them, nothing beyond ASCII with
`plus`. -/
def quoted (l : Layout) (s : String) : String :=
  let s := l.clip s
  l.pad
    (if l.sharp && Text.fitsBackquotes s then "`" ++ s ++ "`"
    else if l.plus then Text.quotedAscii s
    else Text.quoted s)

/-- The bytes in hexadecimal digits. `space` sets them apart, and `sharp` puts the base before each
that stands apart. -/
def bytes (l : Layout) (capital : Bool) (s : String) : String :=
  let bytes := match l.precision with
    | some n => s.toUTF8.toList.take n
    | none => s.toUTF8.toList
  let digits := bytes.map fun b =>
    let ds := Text.hexDigits 2 b.toNat
    String.ofList (if capital then ds.map Char.toUpper else ds)
  let base := if !l.sharp then "" else if capital then "0X" else "0x"
  l.pad
    (if bytes.isEmpty then ""
    else if l.space then " ".intercalate (digits.map (base ++ ·))
    else base ++ String.join digits)

/-- A text as its own value: `sharp` puts it in quotes. -/
def value (l : Layout) (s : String) : String :=
  if l.sharp then { l with sharp := false, plus := false }.quoted s else l.plain s

/-- What a place with a letter makes of a text. A letter that takes no text shows it all the
same. -/
def filled (l : Layout) (letter : Char) (s : String) : String :=
  match letter with
  | 's' => l.plain s
  | 'v' => l.value s
  | 'x' => l.bytes false s
  | 'X' => l.bytes true s
  | 'q' => l.quoted s
  | 'T' => l.plain "string"
  | 'w' => s!"%!w(string={l.value s})"
  | _ => s!"%!{letter}(string={l.plain s})"

end Layout

example : ({ width := some 6, minus := true : Layout }.plain "é") = "é     " := by decide +kernel
example : ({ sharp := true, space := true : Layout }.bytes true "né") = "0X6E 0XC3 0XA9" := by
  decide +kernel

end ShaderLoom
