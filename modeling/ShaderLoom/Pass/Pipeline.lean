import ShaderLoom.Pass.Pass

/-! Transforms in a row. Each of them sees the inputs, as those before it left them, together with
what those have put out. One that fails or makes an invalid program ends the run with the last good
program. -/
namespace ShaderLoom

inductive LogLevel where
  | debug
  | info
  deriving DecidableEq, Repr

structure LogLine where
  level : LogLevel
  text : String
  deriving DecidableEq, Repr

abbrev Log := List LogLine

/-- Errors of `after` that are not already in `before`: those beyond it if `after` starts with it,
and all of them otherwise. -/
def newErrors (before after : Diagnostics) : Diagnostics :=
  Diagnostics.errors (if before.isPrefixOf after then after.drop before.length else after)

namespace Pipeline

variable {κ : Type} [DecidableEq κ] {π : κ → Type}

/-- A run under way: the last good program, what transforms may read, and what they have put out. -/
structure State (κ : Type) (π : κ → Type) where
  current : Program
  data : Exchange κ π
  outputs : Exchange κ π := {}

def note (level : LogLevel) (text : String) (r : Log × Except Misuse (Outcome κ π)) :
    Log × Except Misuse (Outcome κ π) :=
  (⟨level, text⟩ :: r.1, r.2)

def runFrom : List (Transform κ π) → State κ π → Log × Except Misuse (Outcome κ π)
  | [], s => ([], .ok ⟨s.current, s.outputs⟩)
  | t :: rest, s =>
    let (wanted, data) := t.shouldRun s.current s.data
    if wanted then
      note .debug s!"transform {t.name}: running" <|
        match t.apply s.current data with
        | (.error m, _) => ([], .error m)
        | (.ok out, data) =>
          let outputs := s.outputs.merge out.data
          if out.program.valid then
            runFrom rest ⟨out.program, data.merge out.data, outputs⟩
          else
            let errors := newErrors s.current.diagnostics out.program.diagnostics
            ([⟨.info, s!"transform {t.name} failed: {errors.text}"⟩],
              .ok ⟨s.current.withDiagnostics errors, outputs⟩)
    else note .debug s!"transform {t.name}: skipped" (runFrom rest { s with data })

/-- Runs transforms one after another, on data of their own that starts as the inputs. An invalid
program is handed back unchanged. -/
def run (ts : List (Transform κ π)) (p : Program) (inputs : Exchange κ π) :
    Log × Except Misuse (Outcome κ π) :=
  if p.valid then runFrom ts ⟨p, Exchange.merge {} inputs, {}⟩
  else ([⟨.info, "input program is invalid; no transform run"⟩], .ok ⟨p, {}⟩)

end Pipeline
end ShaderLoom
