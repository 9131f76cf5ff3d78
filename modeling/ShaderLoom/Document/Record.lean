import ShaderLoom.Decimal.Binary64
import ShaderLoom.Source.Span

/-! Module documents. A document lists the module-scope declarations of a program; every node is a
record whose kind says which of its fields count. -/
namespace ShaderLoom.Document

structure Record where
  kind : String := ""
  span : Option Span := none
  name : String := ""
  int : Option Int := none
  float : Option Binary64 := none
  bool : Option Bool := none
  suffix : String := ""
  op : String := ""
  lhs : Option Record := none
  rhs : Option Record := none
  expr : Option Record := none
  target : Option Record := none
  args : List (Option Record) := []
  object : Option Record := none
  index : Option Record := none
  statements : List (Option Record) := []
  var : Option Record := none
  call : Option Record := none
  condition : Option Record := none
  body : Option Record := none
  otherwise : Option Record := none
  continuing : Option Record := none
  initializer : Option Record := none
  decrement : Bool := false
  type : Option Record := none
  addressSpace : String := ""
  access : String := ""
  attributes : List (Option Record) := []
  params : List (Option Record) := []
  returnType : Option Record := none
  returnAttributes : List (Option Record) := []
  members : List (Option Record) := []
  stage : String := ""
  builtin : String := ""
  value : Option UInt32 := none
  x : Option Record := none
  y : Option Record := none
  z : Option Record := none
  elem : Option Record := none
  width : Int := 0
  columns : Int := 0
  rows : Int := 0
  count : Int := 0
  comparison : Bool := false
  dim : String := ""

instance : Inhabited Record := ⟨{}⟩

structure Module where
  version : Int := 0
  globals : List (Option Record) := []
  deriving Inhabited

/-- The version that is written. -/
def formatVersion : Int := 1

end ShaderLoom.Document
