import ShaderLoom.Text.Printable

/-! Text in quotes, with a backslash before what would not print as it stands. What is shown of a
text may be its first bytes; they may end inside a character, whose bytes then show one by one. -/
namespace ShaderLoom.Text

/-- At least `width` hexadecimal digits. -/
def hexDigits (width n : Nat) : List Char :=
  let ds := Nat.toDigits 16 n
  List.replicate (width - ds.length) '0' ++ ds

/-- The letter that stands for a control character after a backslash. -/
def escapeLetter? (c : Char) : Option Char :=
  match c.toNat with
  | 7 => some 'a'
  | 8 => some 'b'
  | 9 => some 't'
  | 10 => some 'n'
  | 11 => some 'v'
  | 12 => some 'f'
  | 13 => some 'r'
  | _ => none

/-- A byte that belongs to no character. -/
def escapeByte (b : UInt8) : List Char := '\\' :: 'x' :: hexDigits 2 b.toNat

/-- A character between quotes. `plain` says which characters may stand as they are. -/
def escapeChar (quote : Char) (plain : Char → Bool) (c : Char) : List Char :=
  if c = quote ∨ c = '\\' then ['\\', c]
  else if plain c then [c]
  else
    match escapeLetter? c with
    | some letter => ['\\', letter]
    | none =>
      if c.toNat < 0x20 ∨ c.toNat = 0x7f then '\\' :: 'x' :: hexDigits 2 c.toNat
      else if c.toNat < 0x10000 then '\\' :: 'u' :: hexDigits 4 c.toNat
      else '\\' :: 'U' :: hexDigits 8 c.toNat

def quotedWith (plain : Char → Bool) (s : String) : String :=
  String.ofList ('"' :: s.toList.flatMap (escapeChar '"' plain) ++ ['"'])

def quoted (s : String) : String := quotedWith isPrintable s

/-- Whether a character is printable and of ASCII. -/
def isPlainAscii (c : Char) : Bool := c.toNat < 128 && isPrintable c

/-- The text in quotes with nothing beyond ASCII. -/
def quotedAscii (s : String) : String := quotedWith isPlainAscii s

/-- A single character between single quotes. -/
def quotedChar (c : Char) : String :=
  String.ofList ('\'' :: escapeChar '\'' isPrintable c ++ ['\''])

def backquote : Char := Char.ofNat 0x60

/-- The mark that some systems put first in a text. -/
def byteOrderMark : Char := Char.ofNat 0xFEFF

/-- Whether a text may stand between backquotes: it is one line and holds no backquote. -/
def fitsBackquotes (s : String) : Bool :=
  s.all fun c =>
    !(c.toNat < 0x20 && c != '\t') && c != backquote && c.toNat != 0x7f && c != byteOrderMark

example : quoted "a\"\n\u00a0" = "\"a\\\"\\n\\u00a0\"" := by decide +kernel
example : quotedAscii "é'" = "\"\\u00e9'\"" := by decide +kernel
example : quotedChar '\'' = "'\\''" := by decide +kernel

/-- Whole characters, and after them the first bytes of one that is cut. -/
structure Glimpse where
  whole : List Char := []
  loose : List UInt8 := []
  deriving DecidableEq, Repr

namespace Glimpse

/-- The first `n` bytes of a text. -/
def ofChars : Nat → List Char → Glimpse
  | _, [] => {}
  | n, c :: rest =>
    let bytes := String.utf8EncodeChar c
    if bytes.length ≤ n then
      let g := ofChars (n - bytes.length) rest
      { g with whole := c :: g.whole }
    else { loose := bytes.take n }

def bytes (g : Glimpse) : List UInt8 := g.whole.flatMap String.utf8EncodeChar ++ g.loose

/-- A glimpse shows the first bytes of a text and no others. -/
theorem bytes_ofChars (n : Nat) (cs : List Char) :
    (ofChars n cs).bytes = (cs.flatMap String.utf8EncodeChar).take n := by
  induction cs generalizing n with
  | nil => simp [ofChars, bytes]
  | cons c rest ih =>
    rw [List.flatMap_cons, List.take_append, ofChars]
    split
    · next h =>
      have := ih (n - (String.utf8EncodeChar c).length)
      simp only [bytes] at this ⊢
      rw [List.flatMap_cons, List.append_assoc, this, List.take_of_length_le h]
    · next h =>
      have h : n - (String.utf8EncodeChar c).length = 0 := by omega
      rw [h, List.take_zero]
      simp [bytes]

/-- Whether all of it reads well between backquotes. -/
def isPlain (g : Glimpse) : Bool :=
  g.loose.isEmpty &&
    g.whole.all fun c => c != backquote && c != ' ' && c.toNat != 0xFFFD && isPrintable c

/-- Between backquotes where that reads well, in quotes otherwise. -/
def shown (g : Glimpse) : String :=
  if g.isPlain then "`" ++ String.ofList g.whole ++ "`"
  else
    String.ofList ('"' :: g.whole.flatMap (escapeChar '"' isPrintable) ++
      g.loose.flatMap escapeByte ++ ['"'])

/-- The first character in single quotes, or the first byte if that character is cut. -/
def firstShown (g : Glimpse) : String :=
  match g.whole, g.loose with
  | c :: _, _ => quotedChar c
  | [], b :: _ => String.ofList ('\'' :: escapeByte b ++ ['\''])
  | [], [] => ""

end Glimpse

example : (Glimpse.ofChars 3 ['\\', 'é', 'x']).shown = "`\\é`" := by decide +kernel
example : (Glimpse.ofChars 2 ['\\', 'é', 'x']).shown = "\"\\\\\\xc3\"" := by decide +kernel

end ShaderLoom.Text
