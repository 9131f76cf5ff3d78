/-! The ways in which control leaves a statement. -/
namespace ShaderLoom

inductive Behavior where
  | next | ret | brk | cont | discard
  deriving DecidableEq, Repr

namespace Behavior

def all : List Behavior := [next, ret, brk, cont, discard]

def text : Behavior → String
  | next => "Next"
  | ret => "Return"
  | brk => "Break"
  | cont => "Continue"
  | discard => "Discard"

def parse? (s : String) : Option Behavior := all.find? (·.text == s)

end Behavior

/-- A set of behaviors. -/
structure Behaviors where
  next : Bool := false
  ret : Bool := false
  brk : Bool := false
  cont : Bool := false
  discard : Bool := false
  deriving DecidableEq, Repr, Inhabited

namespace Behaviors

def has (s : Behaviors) : Behavior → Bool
  | .next => s.next
  | .ret => s.ret
  | .brk => s.brk
  | .cont => s.cont
  | .discard => s.discard

def set (s : Behaviors) (b : Behavior) (value : Bool) : Behaviors :=
  match b with
  | .next => { s with next := value }
  | .ret => { s with ret := value }
  | .brk => { s with brk := value }
  | .cont => { s with cont := value }
  | .discard => { s with discard := value }

def insert (s : Behaviors) (b : Behavior) : Behaviors := s.set b true

def erase (s : Behaviors) (b : Behavior) : Behaviors := s.set b false

def only (b : Behavior) : Behaviors := insert {} b

def union (s t : Behaviors) : Behaviors :=
  ⟨s.next || t.next, s.ret || t.ret, s.brk || t.brk, s.cont || t.cont, s.discard || t.discard⟩

def text (s : Behaviors) : String :=
  "\x7b" ++ ", ".intercalate ((Behavior.all.filter s.has).map Behavior.text) ++ "\x7d"

@[simp] theorem has_insert (s : Behaviors) (a b : Behavior) :
    (s.insert a).has b = (a == b || s.has b) := by
  cases a <;> cases b <;> simp [insert, set, has]

@[simp] theorem has_erase (s : Behaviors) (a b : Behavior) :
    (s.erase a).has b = (a != b && s.has b) := by
  cases a <;> cases b <;> simp [erase, set, has]

@[simp] theorem has_union (s t : Behaviors) (b : Behavior) :
    (s.union t).has b = (s.has b || t.has b) := by
  cases b <;> rfl

/-- A loop completes only through a break or a failing condition; breaks and continues stay
inside. -/
def ofLoop (body : Behaviors) (conditional : Bool) : Behaviors :=
  let done := if body.brk || conditional then body.insert .next else body.erase .next
  (done.erase .brk).erase .cont

/-- What a list of statements does once one more of them has run. -/
def andThen (sofar statement : Behaviors) : Behaviors := (sofar.erase .next).union statement

end Behaviors
end ShaderLoom
