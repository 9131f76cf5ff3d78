import ShaderLoom.Report.Layout

/-! Messages with places for texts. A place is a percent sign, how the text is laid out there, and a
letter; a second percent sign in place of the letter stands for the first. A place takes the next
text, or the one whose number it gives in brackets. A place without a text, a text without a place,
and a letter that takes no text are pointed out in the message. -/
namespace ShaderLoom.Template

/-- The texts that no place took. -/
def surplus : List String → List Char
  | [] => []
  | args =>
    ("%!(EXTRA " ++ ", ".intercalate (args.map fun a => "string=" ++ a) ++ ")").toList

/-- The number that a message goes on with. A number that is past a million and still goes on
swallows the rest of the message. -/
def readCount (count : Option Nat) : List Char → Option Nat × List Char
  | [] => (count, [])
  | c :: rest =>
    if c.isDigit then
      if 1000000 < count.getD 0 then (none, [])
      else readCount (some (count.getD 0 * 10 + (c.toNat - '0'.toNat))) rest
    else (count, c :: rest)

/-- A place while it is read, up to its letter. -/
structure Place where
  /-- The text that is due. -/
  next : Nat
  /-- Whether a place, this one or one before it, gave the number of its text. -/
  numbered : Bool
  layout : Layout := {}
  /-- Whether the number of the text was the last thing read. -/
  afterNumber : Bool := false
  /-- Whether the place asks for its text in a way that makes no sense. -/
  astray : Bool := false
  /-- What is wrong with the width and the precision. -/
  complaints : String := ""
  rest : List Char

namespace Place

def readFlags (layout : Layout) : List Char → Layout × List Char
  | [] => (layout, [])
  | c :: rest =>
    match layout.flag? c with
    | some layout => readFlags layout rest
    | none => (layout, c :: rest)

/-- The number of a text, in brackets, if it comes next. -/
def readNumber (total : Nat) (p : Place) : Place :=
  match p.rest with
  | '[' :: rest =>
    let p := { p with numbered := true, afterNumber := false }
    if rest.length < 2 || !rest.contains ']' then { p with astray := true, rest }
    else
      let inside := rest.takeWhile (· != ']')
      let p := { p with rest := rest.drop (inside.length + 1) }
      match readCount none inside with
      | (some n, []) =>
        if 0 < n ∧ n ≤ total then { p with next := n - 1, afterNumber := true }
        else { p with astray := true, afterNumber := true }
      | _ => { p with astray := true }
  | _ => { p with afterNumber := false }

/-- No text is a number, so one that is asked for is used up in vain. -/
def skipText (total : Nat) (complaint : String) (p : Place) : Place :=
  { p with
    next := if p.next < total then p.next + 1 else p.next
    afterNumber := false
    complaints := p.complaints ++ complaint }

def readWidth (total : Nat) (p : Place) : Place :=
  match p.rest with
  | '*' :: rest => { p with rest }.skipText total "%!(BADWIDTH)"
  | _ =>
    let (width, rest) := readCount none p.rest
    { p with
      layout := { p.layout with width }
      astray := p.astray || p.afterNumber && width.isSome
      rest }

/-- A point and the precision. A point that ends the message is no such point. -/
def readPrecision (total : Nat) (p : Place) : Place :=
  match p.rest with
  | '.' :: c :: rest =>
    let p := { p with astray := p.astray || p.afterNumber, rest := c :: rest }.readNumber total
    match p.rest with
    | '*' :: rest => { p with rest }.skipText total "%!(BADPREC)"
    | _ =>
      let (precision, rest) := readCount none p.rest
      { p with layout := { p.layout with precision := some (precision.getD 0) }, rest }
  | _ => p

/-- The place after a percent sign. -/
def read (total next : Nat) (numbered : Bool) (cs : List Char) : Place :=
  let (layout, rest) := readFlags {} cs
  let p : Place := { next, numbered, layout, rest }
  let p := (p.readNumber total).readWidth total |>.readPrecision total
  if p.afterNumber then p else p.readNumber total

end Place

/-- The message from some place on. `next` is the text that is due, and `fuel` bounds how many
characters are left. -/
def fillChars (args : List String) : Nat → Nat → Bool → List Char → List Char
  | 0, _, _, _ => []
  | fuel + 1, next, numbered, cs =>
    match cs with
    | [] => if numbered then [] else surplus (args.drop next)
    | '%' :: cs =>
      let p := Place.read args.length next numbered cs
      let head := p.complaints.toList
      match p.rest with
      | [] => head ++ "%!(NOVERB)".toList ++ fillChars args fuel p.next p.numbered []
      | letter :: rest =>
        let text? := if p.astray then none else args[p.next]?
        if letter == '%' then head ++ '%' :: fillChars args fuel p.next p.numbered rest
        else
          match text? with
          | some arg =>
            head ++ (p.layout.filled letter arg).toList ++
              fillChars args fuel (p.next + 1) p.numbered rest
          | none =>
            let why := if p.astray then "(BADINDEX)" else "(MISSING)"
            head ++ '%' :: '!' :: letter :: why.toList ++ fillChars args fuel p.next p.numbered rest
    | c :: rest => c :: fillChars args fuel next numbered rest

/-- The message with its places filled. Without texts it stays as it is. -/
def fill (message : String) (args : List String) : String :=
  if args.isEmpty then message
  else String.ofList (fillChars args (message.length + 1) 0 false message.toList)

example : fill "fmt '%s' and %s" ["a", "b"] = "fmt 'a' and b" := by decide +kernel
example : fill "plain 100%" [] = "plain 100%" := by decide +kernel
example : fill "%[2]s, %5.1s|" ["ab", "c"] = "c, %!s(MISSING)|" := by decide +kernel

end ShaderLoom.Template
