/-! Texts cut up into words and into lines. Blanks are white space in the sense of Unicode. A line
ends at a line feed, and one carriage return before it is dropped; a last line without a line feed
counts if it is not empty. A line too long for the buffer ends the list: it and what follows it are
left out. -/
namespace ShaderLoom.Text

def isBlank (c : Char) : Bool :=
  let n := c.toNat
  (9 ≤ n && n ≤ 13) || n == 0x20 || n == 0x85 || n == 0xa0 || n == 0x1680 ||
    (0x2000 ≤ n && n ≤ 0x200a) || n == 0x2028 || n == 0x2029 || n == 0x202f || n == 0x205f ||
    n == 0x3000

/-- A text without the blanks at its ends. -/
def trim (s : String) : String :=
  String.ofList (((s.toList.dropWhile isBlank).reverse.dropWhile isBlank).reverse)

/-- The runs of characters between blanks. -/
def words (s : String) : List String :=
  let runs := s.toList.foldr (fun c acc =>
    if isBlank c then [] :: acc
    else match acc with
      | run :: rest => (c :: run) :: rest
      | [] => [[c]]) [[]]
  (runs.filter (!·.isEmpty)).map String.ofList

example : words " a\tbc " = ["a", "bc"] := by decide +kernel
example : trim "\u00a0a b\n" = "a b" := by decide +kernel

end ShaderLoom.Text

namespace ShaderLoom.Lines

/-- The bytes that a line has room for, beside its line feed. -/
def capacity : Nat := 65535

/-- The pieces between line feeds, the last one after the last line feed. -/
def pieces (cs : List Char) : List (List Char) :=
  cs.foldr (fun c acc =>
    if c = '\n' then [] :: acc
    else match acc with
      | first :: rest => (c :: first) :: rest
      | [] => [[c]]) [[]]

def byteLength (cs : List Char) : Nat := cs.foldl (fun n c => n + c.utf8Size) 0

def dropReturn (cs : List Char) : List Char :=
  if cs.getLast? = some '\r' then cs.dropLast else cs

def split (text : String) : List String :=
  let ps := pieces text.toList
  let ps := if ps.getLast? = some [] then ps.dropLast else ps
  (ps.takeWhile fun p => byteLength p ≤ capacity).map fun p => String.ofList (dropReturn p)

example : split "a\r\nb" = ["a", "b"] := by decide +kernel
example : split "a\n\n" = ["a", ""] := by decide +kernel

end ShaderLoom.Lines
