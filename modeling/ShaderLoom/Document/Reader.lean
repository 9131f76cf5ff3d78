import ShaderLoom.Decimal.Reading
import ShaderLoom.Document.Record
import ShaderLoom.Json.Reader

/-! Documents from text. A record is read from the fields of its object, and from the fields of a
further object under the same key as if they stood at the end of the first: a later text, number or
flag wins, objects join, and arrays join place by place with the length of the last one. A `null`
takes back what came before it. Keys match in upper and lower case, and unknown keys are ignored. A
value of the wrong form anywhere makes the document unreadable. -/
namespace ShaderLoom.Document

/-- Upper and lower case of one letter, with the two letters outside ASCII that fold into it. -/
def foldChar (c : Char) : Char :=
  if c.toNat = 0x212A then 'k' else if c.toNat = 0x17F then 's' else c.toLower

def foldKey (key : String) : String := key.map foldChar

abbrev Fields := List (String × Json)

/-- All values under a key, in order. -/
def Fields.valuesOf (fs : Fields) (key : String) : List Json :=
  fs.filterMap fun (k, v) => if foldKey k == key then some v else none

/-- The last value that is not `null`; all of them have to be of the right form. -/
def lastOf {α : Type} (read : Json → Option α) (zero : α) (vs : List Json) : Option α :=
  vs.foldlM (fun old v => match v with
    | .null => some old
    | v => read v) zero

/-- The last value, none after `null`. -/
def lastSome {α : Type} (read : Json → Option α) (vs : List Json) : Option (Option α) :=
  vs.foldlM (fun _ v => match v with
    | .null => some none
    | v => (read v).map some) none

def readText : Json → Option String
  | .str s => some s
  | _ => none

def readFlag : Json → Option Bool
  | .bool b => some b
  | _ => none

/-- A whole number without point or exponent, within the bounds. -/
def readWithin (low high : Int) : Json → Option Int
  | .num t =>
    let cs := t.toList
    let negative := cs.head? == some '-'
    let ds := if negative then cs.drop 1 else cs
    if ds.all Char.isDigit then
      let n : Int := Decimal.digitsValue ds
      let n := if negative then -n else n
      if low ≤ n ∧ n ≤ high then some n else none
    else none
  | _ => none

def readInt : Json → Option Int := readWithin (-9223372036854775808) 9223372036854775807

/-- An unsigned number has no sign, not even before zero. -/
def readWord : Json → Option UInt32
  | .num t =>
    if t.startsWith "-" then none
    else (readWithin 0 4294967295 (.num t)).map fun n => UInt32.ofNat n.toNat
  | _ => none

def readFloat : Json → Option Binary64
  | .num t => Decimal.binary64? t
  | _ => none

def readFields : Json → Option Fields
  | .obj fs => some fs
  | _ => none

/-- The fields of all objects of a list, `null`s left out. -/
def joinObjects (vs : List Json) : Option Fields := do
  let parts ← vs.mapM fun
    | .null => some []
    | v => readFields v
  return parts.flatten

/-- Cuts a list at the values that take back what came before them. -/
def cutAt (resets : Json → Bool) : List Json → List (List Json)
  | [] => [[]]
  | v :: rest =>
    match cutAt resets rest with
    | [] => []
    | first :: more => if resets v then [] :: first :: more else (v :: first) :: more

def isNull : Json → Bool
  | .null => true
  | _ => false

def isEmptyList : Json → Bool
  | .null => true
  | .arr [] => true
  | _ => false

/-- What objects under one key make: the last run of them between `null`s, joined. -/
def readJoined {α : Type} (read : Fields → Option α) (vs : List Json) : Option (Option α) := do
  let runs ← (cutAt isNull vs).mapM fun run =>
    if run.isEmpty then some none
    else do
      let fs ← joinObjects run
      (read fs).map some
  return runs.getLast?.getD none

def readItems : Json → Option (List Json)
  | .arr items => some items
  | _ => none

/-- What arrays under one key make: the items of each place joined over the last run of arrays, up
to the length of the last array. -/
def readColumns {α : Type} (read : Fields → Option α) (vs : List Json) :
    Option (List (Option α)) := do
  let runs ← (cutAt isEmptyList vs).mapM fun run => do
    let rows ← run.mapM readItems
    let widest := rows.foldl (fun n row => max n row.length) 0
    let columns ← (List.range widest).mapM fun i =>
      readJoined read (rows.filterMap (·[i]?))
    return columns.take ((rows.getLast?.getD []).length)
  return runs.getLast?.getD []

def readPosition (fs : Fields) : Option Position := do
  let file ← lastOf readText "" (fs.valuesOf "file")
  let line ← lastOf readInt 0 (fs.valuesOf "line")
  let column ← lastOf readInt 0 (fs.valuesOf "column")
  let offset ← lastOf readInt 0 (fs.valuesOf "offset")
  return { file, line, column, offset }

def readSpan (fs : Fields) : Option Span := do
  let start ← readPosition (← joinObjects (fs.valuesOf "start"))
  let stop ← readPosition (← joinObjects (fs.valuesOf "end"))
  return { start, stop }

/-- The record that fields describe. `fuel` bounds how deep records nest. -/
def readRecord : Nat → Fields → Option Record
  | 0, _ => none
  | n + 1, fs => do
    let text (key : String) : Option String := lastOf readText "" (fs.valuesOf key)
    let number (key : String) : Option Int := lastOf readInt 0 (fs.valuesOf key)
    let flag (key : String) : Option Bool := lastOf readFlag false (fs.valuesOf key)
    let child (key : String) : Option (Option Record) :=
      readJoined (readRecord n) (fs.valuesOf key)
    let list (key : String) : Option (List (Option Record)) :=
      readColumns (readRecord n) (fs.valuesOf key)
    return {
      kind := ← text "kind"
      span := ← readJoined readSpan (fs.valuesOf "span")
      name := ← text "name"
      int := ← lastSome readInt (fs.valuesOf "int")
      float := ← lastSome readFloat (fs.valuesOf "float")
      bool := ← lastSome readFlag (fs.valuesOf "bool")
      suffix := ← text "suffix"
      op := ← text "op"
      lhs := ← child "lhs"
      rhs := ← child "rhs"
      expr := ← child "expr"
      target := ← child "target"
      args := ← list "args"
      object := ← child "object"
      index := ← child "index"
      statements := ← list "statements"
      var := ← child "variable"
      call := ← child "call"
      condition := ← child "condition"
      body := ← child "body"
      otherwise := ← child "else"
      continuing := ← child "continuing"
      initializer := ← child "initializer"
      decrement := ← flag "decrement"
      type := ← child "type"
      addressSpace := ← text "address_space"
      access := ← text "access"
      attributes := ← list "attributes"
      params := ← list "params"
      returnType := ← child "return_type"
      returnAttributes := ← list "return_attributes"
      members := ← list "members"
      stage := ← text "stage"
      builtin := ← text "builtin"
      value := ← lastSome readWord (fs.valuesOf "value")
      x := ← child "x"
      y := ← child "y"
      z := ← child "z"
      elem := ← child "elem"
      width := ← number "width"
      columns := ← number "columns"
      rows := ← number "rows"
      count := ← number "count"
      comparison := ← flag "comparison"
      dim := ← text "dim"
    }

/-- The document that a value describes; `null` is the empty document. -/
def Module.ofJson? (v : Json) : Option Module :=
  match v with
  | .null => some {}
  | .obj fs => do
    let version ← lastOf readInt 0 (Fields.valuesOf fs "version")
    let globals ← readColumns (readRecord (v.depth + 1)) (Fields.valuesOf fs "globals")
    return { version, globals }
  | _ => none

end ShaderLoom.Document
