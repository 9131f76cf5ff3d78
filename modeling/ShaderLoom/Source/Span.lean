import ShaderLoom.Text.Path

/-! Places in source text. Lines and columns count from one and offsets from zero; the zero position
stands for "nowhere", which is where nodes built in memory are. -/
namespace ShaderLoom

structure Position where
  file : String := ""
  line : Int := 0
  column : Int := 0
  offset : Int := 0
  deriving DecidableEq, Repr, Inhabited

namespace Position

def valid (p : Position) : Bool := 0 < p.line && 0 < p.column && 0 ≤ p.offset

/-- `line:column`, after the file's last path element if a file is named. -/
def text (p : Position) : String :=
  let place := toString p.line ++ ":" ++ toString p.column
  if p.file.isEmpty then place else Path.base p.file ++ ":" ++ place

/-- By file name first, then by offset. -/
def before (p q : Position) : Bool :=
  if p.file != q.file then p.file < q.file else p.offset < q.offset

end Position

/-- From `start` up to but not including `stop`. -/
structure Span where
  start : Position := {}
  stop : Position := {}
  deriving DecidableEq, Repr, Inhabited

namespace Span

def valid (s : Span) : Bool :=
  s.start.valid && s.stop.valid && s.start.file == s.stop.file && s.start.offset ≤ s.stop.offset

/-- A span is cited by its start. -/
def text (s : Span) : String := s.start.text

/-- The smallest span over two of one file; of an invalid pair, the valid one. -/
def union (s t : Span) : Span :=
  if !s.valid then t
  else if !t.valid || s.start.file != t.start.file then s
  else
    { start := if t.start.before s.start then t.start else s.start
      stop := if s.stop.before t.stop then t.stop else s.stop }

end Span
end ShaderLoom
