/-! Failures that are handed back to the caller. A fault carries a category and a code; a failure is
a fault, a plain text, or another failure with something said in front of it. -/
namespace ShaderLoom

structure Fault where
  category : String
  code : String
  message : String
  deriving DecidableEq, Repr, Inhabited

def Fault.text (f : Fault) : String := "[" ++ f.category ++ ":" ++ f.code ++ "] " ++ f.message

def Fault.carries (f : Fault) (category code : String) : Bool :=
  f.category == category && (code == "" || f.code == code)

/-- Data that a stage needs and the caller did not supply. -/
def Fault.configuration (code message : String) : Fault := ⟨"CONFIGURATION", code, message⟩

/-- Data that does not match the program. -/
def Fault.input (code message : String) : Fault := ⟨"INPUT", code, message⟩

inductive Failure where
  | fault (fault : Fault)
  | plain (text : String)
  | wrapped (context : String) (cause : Failure)
  deriving DecidableEq, Repr, Inhabited

namespace Failure

def text : Failure → String
  | .fault f => f.text
  | .plain t => t
  | .wrapped context cause => context ++ ": " ++ cause.text

/-- The fault inside, however deep. -/
def fault? : Failure → Option Fault
  | .fault f => some f
  | .plain _ => none
  | .wrapped _ cause => cause.fault?

/-- What a diagnostic says about the failure: a fault's bare message, or else the whole text. -/
def diagnosticText (e : Failure) : String :=
  match e.fault? with
  | some f => f.message
  | none => e.text

def carries (e : Failure) (category code : String) : Bool :=
  match e.fault? with
  | some f => f.carries category code
  | none => false

@[simp] theorem fault?_wrapped (context : String) (e : Failure) :
    (wrapped context e).fault? = e.fault? := rfl

end Failure
end ShaderLoom
