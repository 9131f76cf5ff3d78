import ShaderLoom.Source.Span

/-! Problems found in a program. They are collected and never dropped: a program carries all that
the stages which made it had to say. -/
namespace ShaderLoom

inductive Severity where
  | error
  | warning
  | info
  | hint
  | other (code : Int)
  deriving DecidableEq, Repr, Inhabited

def Severity.ofCode : Int → Severity
  | 0 => .error
  | 1 => .warning
  | 2 => .info
  | 3 => .hint
  | n => .other n

def Severity.text : Severity → String
  | .error => "error"
  | .warning => "warning"
  | .info => "info"
  | .hint => "hint"
  | .other _ => "unknown"

/-- The stage that raised a problem. -/
inductive Stage where
  | resolver
  | transform
  | sanitizer
  | decoder
  | other (code : Int)
  deriving DecidableEq, Repr, Inhabited

def Stage.ofCode : Int → Stage
  | 0 => .resolver
  | 1 => .transform
  | 2 => .sanitizer
  | 3 => .decoder
  | n => .other n

def Stage.text : Stage → String
  | .resolver => "resolver"
  | .transform => "transform"
  | .sanitizer => "sanitizer"
  | .decoder => "decoder"
  | .other _ => "unknown"

structure Diagnostic where
  severity : Severity
  stage : Stage
  message : String
  span : Span := {}
  code : String := ""
  deriving DecidableEq, Repr, Inhabited

namespace Diagnostic

/-- An error with a place, which is left out if it is invalid. -/
def errorAt (stage : Stage) (message : String) (span : Span) : Diagnostic :=
  { severity := .error, stage, message, span := if span.valid then span else {} }

def isError (d : Diagnostic) : Bool := d.severity == .error

def text (d : Diagnostic) : String :=
  let body := d.severity.text ++ ": " ++ d.message
  if d.span.valid then d.span.text ++ " " ++ body else body

def paint : Severity → String
  | .error => "\x1b[31;1m"
  | .warning => "\x1b[33;1m"
  | _ => "\x1b[36m"

/-- The text with the severity in its colour. -/
def painted (d : Diagnostic) : String :=
  let place := if d.span.valid then d.span.text ++ " " else ""
  place ++ paint d.severity ++ d.severity.text ++ "\x1b[0m: " ++ d.message

end Diagnostic

abbrev Diagnostics := List Diagnostic

namespace Diagnostics

def errors (ds : Diagnostics) : Diagnostics := ds.filter Diagnostic.isError

def hasErrors (ds : Diagnostics) : Bool := ds.any Diagnostic.isError

def without (ds : Diagnostics) (stage : Stage) : Diagnostics := ds.filter (·.stage != stage)

def text (ds : Diagnostics) : String := "\n".intercalate (ds.map Diagnostic.text)

/-- One diagnostic to a line. -/
def render (ds : Diagnostics) (color : Bool) : String :=
  String.join (ds.map fun d => (if color then d.painted else d.text) ++ "\n")

theorem hasErrors_eq_false_iff {ds : Diagnostics} : ds.hasErrors = false ↔ ds.errors = [] := by
  simp [hasErrors, errors]

@[simp] theorem errors_append (ds es : Diagnostics) :
    errors (ds ++ es) = errors ds ++ errors es := by simp [errors]

end Diagnostics
end ShaderLoom
