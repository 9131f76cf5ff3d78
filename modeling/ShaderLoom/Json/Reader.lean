import ShaderLoom.Json.Problem
import ShaderLoom.Json.Value

/-! Reading document text. A document is one value; what may follow it is the caller's choice. Text
nested deeper than ten thousand levels is refused. -/
namespace ShaderLoom.Json

def isBlank (c : Char) : Bool := c == ' ' || c == '\t' || c == '\r' || c == '\n'

def skipBlanks (cs : List Char) : List Char := cs.dropWhile isBlank

def maxDepth : Nat := 10000

def hexValue? (c : Char) : Option Nat :=
  if '0' ≤ c ∧ c ≤ '9' then some (c.toNat - '0'.toNat)
  else if 'a' ≤ c ∧ c ≤ 'f' then some (c.toNat - 'a'.toNat + 10)
  else if 'A' ≤ c ∧ c ≤ 'F' then some (c.toNat - 'A'.toNat + 10)
  else none

/-- The number that four digits write. -/
def unitOf? (a b c d : Char) : Option Nat := do
  return (((← hexValue? a) * 16 + (← hexValue? b)) * 16 + (← hexValue? c)) * 16 + (← hexValue? d)

/-- What is wrong with a `\u` escape, given what follows the `u`: the text ends, or there is another
character where a digit is due. -/
def badUnit (cs : List Char) : Stop :=
  let digits := cs.takeWhile fun c => (hexValue? c).isSome
  if digits.length = cs.length then .cut else .badEscape ('\\' :: 'u' :: cs) (digits.length + 2) 6

def replacement : Char := Char.ofNat 0xFFFD

def isHighHalf (u : Nat) : Bool := 0xD800 ≤ u && u ≤ 0xDBFF

def isLowHalf (u : Nat) : Bool := 0xDC00 ≤ u && u ≤ 0xDFFF

/-- The character with a number. A half of a surrogate pair is none, and is replaced. -/
def charOf (u : Nat) : Char := if isHighHalf u || isLowHalf u then replacement else Char.ofNat u

/-- The characters with the given numbers, where two halves in a row are one character. -/
def joinHalves : List Nat → List Char
  | [] => []
  | [u] => [charOf u]
  | u :: v :: rest =>
    if isHighHalf u && isLowHalf v then
      Char.ofNat (0x10000 + (u - 0xD800) * 1024 + (v - 0xDC00)) :: joinHalves rest
    else charOf u :: joinHalves (v :: rest)

def escaped? (c : Char) : Option Char :=
  match c with
  | '"' => some '"'
  | '\\' => some '\\'
  | '/' => some '/'
  | 'b' => some (Char.ofNat 8)
  | 'f' => some (Char.ofNat 12)
  | 'n' => some '\n'
  | 'r' => some '\r'
  | 't' => some '\t'
  | _ => none

/-- What follows an opening quote, up to and without the closing one. `acc` holds the numbers of the
characters before, the last one first. -/
def readString (acc : List Nat) : List Char → Except Stop (String × List Char)
  | [] => .error .cut
  | '"' :: rest => .ok (String.ofList (joinHalves acc.reverse), rest)
  | ['\\'] => .error .cut
  | '\\' :: 'u' :: a :: b :: c :: d :: rest =>
    match unitOf? a b c d with
    | some u => readString (u :: acc) rest
    | none => .error (badUnit (a :: b :: c :: d :: rest))
  | '\\' :: 'u' :: rest => .error (badUnit rest)
  | '\\' :: c :: rest =>
    match escaped? c with
    | some e => readString (e.toNat :: acc) rest
    | none => .error (.badEscape ('\\' :: c :: rest) 1 2)
  | c :: rest =>
    if c.toNat < 0x20 then .error (.unexpected (c :: rest) .inText)
    else readString (c.toNat :: acc) rest

/-- The digits at the start of a text; at least one is due. -/
def readDigits (place : Place) (cs : List Char) : Except Stop (List Char × List Char) :=
  let ds := cs.takeWhile Char.isDigit
  if ds.isEmpty then .error (.at place cs) else .ok (ds, cs.drop ds.length)

/-- A number's whole part: one zero, or digits that do not start with zero. -/
def readWhole (place : Place) : List Char → Except Stop (List Char × List Char)
  | '0' :: rest => .ok (['0'], rest)
  | cs => readDigits place cs

def readPart : List Char → Except Stop (List Char × List Char)
  | '.' :: rest => do
    let (ds, rest) ← readDigits .inNumber rest
    return ('.' :: ds, rest)
  | cs => .ok ([], cs)

def readPower (cs : List Char) : Except Stop (List Char × List Char) :=
  match cs with
  | m :: rest =>
    if m == 'e' || m == 'E' then do
      let sign := rest.take 1 |>.filter fun c => c == '+' || c == '-'
      let (ds, rest) ← readDigits .inNumber (rest.drop sign.length)
      return (m :: sign ++ ds, rest)
    else .ok ([], cs)
  | [] => .ok ([], [])

def readNumber (cs : List Char) : Except Stop (String × List Char) := do
  let sign := cs.take 1 |>.filter (· == '-')
  let (whole, rest) ← readWhole (if sign.isEmpty then .value else .inNumber) (cs.drop sign.length)
  let (part, rest) ← readPart rest
  let (power, rest) ← readPower rest
  return (String.ofList (sign ++ whole ++ part ++ power), rest)

/-- The letters of a word that are still due. -/
def readLetters (word : String) : List Char → List Char → Except Stop (List Char)
  | [], cs => .ok cs
  | _ :: _, [] => .error .cut
  | due :: more, c :: rest =>
    if c == due then readLetters word more rest
      else .error (.unexpected (c :: rest) (.inWord word due))

def readWord (word : String) (value : Json) (cs : List Char) : Except Stop (Json × List Char) := do
  return (value, ← readLetters word word.toList cs)

mutual

/-- One value after blanks; `level` counts the arrays and objects around it. -/
def readValue : Nat → Nat → List Char → Except Stop (Json × List Char)
  | 0, _, _ => .error .cut
  | n + 1, level, cs =>
    match skipBlanks cs with
    | [] => .error .cut
    | '\x7b' :: rest =>
      if maxDepth ≤ level then .error .tooDeep
      else
        match skipBlanks rest with
        | '\x7d' :: rest => .ok (.obj [], rest)
        | rest => (readFields n (level + 1) [] rest).map fun (fs, rest) => (.obj fs, rest)
    | '[' :: rest =>
      if maxDepth ≤ level then .error .tooDeep
      else
        match skipBlanks rest with
        | ']' :: rest => .ok (.arr [], rest)
        | rest => (readItems n (level + 1) [] rest).map fun (vs, rest) => (.arr vs, rest)
    | '"' :: rest => (readString [] rest).map fun (s, rest) => (.str s, rest)
    | cs@('t' :: _) => readWord "true" (.bool true) cs
    | cs@('f' :: _) => readWord "false" (.bool false) cs
    | cs@('n' :: _) => readWord "null" .null cs
    | cs => (readNumber cs).map fun (t, rest) => (.num t, rest)

/-- The items up to the closing bracket; at least one is due. -/
def readItems : Nat → Nat → List Json → List Char → Except Stop (List Json × List Char)
  | 0, _, _, _ => .error .cut
  | n + 1, level, acc, cs =>
    match readValue n level cs with
    | .error stop => .error stop
    | .ok (v, rest) =>
      match skipBlanks rest with
      | ',' :: rest => readItems n level (v :: acc) rest
      | ']' :: rest => .ok ((v :: acc).reverse, rest)
      | rest => .error (.at .afterItem rest)

/-- The fields up to the closing brace; at least one is due. -/
def readFields : Nat → Nat → List (String × Json) → List Char →
    Except Stop (List (String × Json) × List Char)
  | 0, _, _, _ => .error .cut
  | n + 1, level, acc, cs =>
    match skipBlanks cs with
    | '"' :: rest =>
      match readString [] rest with
      | .error stop => .error stop
      | .ok (key, rest) =>
        match skipBlanks rest with
        | ':' :: rest =>
          match readValue n level rest with
          | .error stop => .error stop
          | .ok (v, rest) =>
            match skipBlanks rest with
            | ',' :: rest => readFields n level ((key, v) :: acc) rest
            | '\x7d' :: rest => .ok (((key, v) :: acc).reverse, rest)
            | rest => .error (.at .afterField rest)
        | rest => .error (.at .afterKey rest)
    | rest => .error (.at .key rest)

end

/-- How much may follow the value: only blanks, or anything. -/
inductive Extent where
  | whole
  | first
  deriving DecidableEq, Repr

/-- The value that a text starts with; `extent` says what may follow it. -/
def readDocument (extent : Extent) (cs : List Char) : Except Stop Json := do
  let (v, rest) ← readValue (2 * cs.length + 2) 0 cs
  if extent == .first then return v
  match skipBlanks rest with
  | [] => return v
  | rest => throw (.unexpected rest .afterDocument)

/-- The document that a text holds. -/
def parse (text : String) (extent : Extent) : Except Problem Json :=
  let cs := text.toList
  if (skipBlanks cs).isEmpty then .error .empty
  else (readDocument extent cs).mapError (Stop.problem text.utf8ByteSize)

end ShaderLoom.Json
