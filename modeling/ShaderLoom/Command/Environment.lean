import ShaderLoom.Decimal.Reading
import ShaderLoom.Report.Failure
import ShaderLoom.Text.Split
import ShaderLoom.Text.Lowercase
import ShaderLoom.Text.Quoted

/-! Settings that come from environment variables. -/
namespace ShaderLoom

/-- When diagnostics are coloured. -/
inductive ColorMode where
  | auto
  | always
  | never
  deriving DecidableEq, Repr

namespace ColorMode

def text : ColorMode → String
  | auto => "auto"
  | always => "always"
  | never => "never"

def code : ColorMode → Nat
  | auto => 0
  | always => 1
  | never => 2

/-- Any number stands for a mode. -/
def ofCode : Int → ColorMode
  | 1 => always
  | 2 => never
  | _ => auto

/-- Several words for each mode, in upper or lower case; no word at all is `auto`. -/
def parse (s : String) : Except Failure ColorMode :=
  let word := Text.lowercase (Text.trim s)
  if ["", "auto"].contains word then .ok auto
  else if ["always", "on", "true", "1"].contains word then .ok always
  else if ["never", "off", "false", "0"].contains word then .ok never
  else .error (.plain ("invalid color mode " ++ Text.quoted s))

/-- Whether to colour, given whether the output is a terminal. -/
def useColor (mode : ColorMode) (terminal : Bool) : Bool :=
  match mode with
  | auto => terminal
  | always => true
  | never => false

end ColorMode

structure Environment where
  maxConcurrency : Nat
  verbose : Bool
  debug : Bool
  color : ColorMode
  deriving Repr

namespace Environment

def maxConcurrencyName : String := "PRISM_MAX_CONCURRENCY"
def verboseName : String := "PRISM_VERBOSE"
def debugName : String := "PRISM_DEBUG"
def colorName : String := "PRISM_COLOR"

def trueWords : List String :=
  ["t", "true", "y", "yes", "enable", "enabled", "positive", "absolutely", "affirmative"]

/-- A word of affirmation in small letters, in capitals, or with one capital in front. -/
def isTrue (s : String) : Bool :=
  s == "1" || trueWords.any fun w => s == w || s == w.toUpper || s == w.capitalize

/-- Decimal digits after an optional sign, within 64 bits. -/
def integer? (s : String) : Option Int :=
  let cs := s.toList
  let signed := cs.head? == some '-' || cs.head? == some '+'
  let ds := if signed then cs.drop 1 else cs
  if ds.isEmpty || !ds.all Char.isDigit then none
  else
    let n : Int := Decimal.digitsValue ds
    let n := if cs.head? == some '-' then -n else n
    if -9223372036854775808 ≤ n ∧ n < 9223372036854775808 then some n else none

/-- The settings that variables give. The number of runs at a time is at least one, and that of the
processors unless a number is given. -/
def load (get? : String → Option String) (processors : Nat) : Except Failure Environment := do
  let concurrency := (get? maxConcurrencyName).bind integer?
  let color ← (ColorMode.parse ((get? colorName).getD "auto")).mapError (.wrapped colorName)
  return {
    maxConcurrency := max 1 (concurrency.getD processors).toNat
    verbose := (get? verboseName).any isTrue
    debug := (get? debugName).any isTrue
    color }

end Environment
end ShaderLoom
