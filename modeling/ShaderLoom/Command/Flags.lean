import ShaderLoom.Decimal.Reading
import ShaderLoom.Text.Quoted

/-! The command line. Flags stand in front of the module's path, with one dash or two; a flag that
is not a switch takes the next word, or what stands behind `=`. -/
namespace ShaderLoom.Command

structure Flags where
  backends : String := "glsl"
  config : String := ""
  out : String := ""
  dump : Bool := false
  diff : Bool := false
  watch : Bool := false
  seed : Int := -1
  version : Bool := false
  json : Bool := false
  verbose : Bool := false
  debug : Bool := false
  deriving Repr

/-- How a flag changes the settings, by what it takes. -/
inductive Setter where
  | text (set : String → Flags → Flags)
  | switch (set : Bool → Flags → Flags)
  | number (set : Int → Flags → Flags)

def setter? : String → Option Setter
  | "backend" => some (.text fun v f => { f with backends := v })
  | "config" => some (.text fun v f => { f with config := v })
  | "o" => some (.text fun v f => { f with out := v })
  | "dump" => some (.switch fun v f => { f with dump := v })
  | "diff" => some (.switch fun v f => { f with diff := v })
  | "watch" => some (.switch fun v f => { f with watch := v })
  | "seed" => some (.number fun v f => { f with seed := v })
  | "version" => some (.switch fun v f => { f with version := v })
  | "json" => some (.switch fun v f => { f with json := v })
  | "v" => some (.switch fun v f => { f with verbose := v })
  | "debug" => some (.switch fun v f => { f with debug := v })
  | _ => none

inductive FlagProblem where
  | help
  | malformed (word : String)
  | unknown (name : String)
  | noValue (name : String)
  | notSwitch (name value : String)
  | notNumber (name value : String)
  | outOfRange (name value : String)
  deriving DecidableEq, Repr

def FlagProblem.text : FlagProblem → String
  | .help => ""
  | .malformed word => s!"bad flag syntax: {word}"
  | .unknown name => s!"flag provided but not defined: -{name}"
  | .noValue name => s!"flag needs an argument: -{name}"
  | .notSwitch name value => s!"invalid boolean value {Text.quoted value} for -{name}: parse error"
  | .notNumber name value => s!"invalid value {Text.quoted value} for flag -{name}: parse error"
  | .outOfRange name value =>
    s!"invalid value {Text.quoted value} for flag -{name}: value out of range"

/-- What a word of the command line is. -/
inductive Argument where
  | operand
  | endOfFlags
  | malformed
  | flag (name : String) (value : Option String)
  deriving DecidableEq, Repr

def splitValue (cs : List Char) : String × Option String :=
  let name := cs.takeWhile (· != '=')
  match cs.drop name.length with
  | [] => (String.ofList name, none)
  | _ :: value => (String.ofList name, some (String.ofList value))

def Argument.ofText (s : String) : Argument :=
  let named (cs : List Char) : Argument :=
    match cs with
    | [] | '-' :: _ | '=' :: _ => .malformed
    | cs => let (name, value) := splitValue cs; .flag name value
  match s.toList with
  | ['-', '-'] => .endOfFlags
  | '-' :: '-' :: cs => named cs
  | ['-'] => .operand
  | '-' :: cs => named cs
  | _ => .operand

def switch? (s : String) : Option Bool :=
  if ["1", "t", "T", "true", "TRUE", "True"].contains s then some true
  else if ["0", "f", "F", "false", "FALSE", "False"].contains s then some false
  else none

/-- A whole number within 64 bits, with an optional sign. -/
def readSeed (name value : String) : Except FlagProblem Int :=
  let cs := value.toList
  let signed := cs.head? == some '-' || cs.head? == some '+'
  let ds := if signed then cs.drop 1 else cs
  if ds.isEmpty || !ds.all Char.isDigit then .error (.notNumber name value)
  else
    let n : Int := Decimal.digitsValue ds
    let n := if cs.head? == some '-' then -n else n
    if -9223372036854775808 ≤ n ∧ n < 9223372036854775808 then
      .ok n else .error (.outOfRange name value)

def Setter.apply (name value : String) (f : Flags) : Setter → Except FlagProblem Flags
  | .text set => .ok (set value f)
  | .number set => return set (← readSeed name value) f
  | .switch set =>
    match switch? value with
    | some b => .ok (set b f)
    | none => .error (.notSwitch name value)

/-- Whether a flag without a value takes the next word. -/
def Setter.takesNext : Setter → Bool
  | .switch _ => false
  | _ => true

/-- The settings, and the words from the first that is no flag on. -/
def Flags.read (f : Flags) : List String → Except FlagProblem (Flags × List String)
  | [] => .ok (f, [])
  | word :: rest =>
    match Argument.ofText word with
    | .operand => .ok (f, word :: rest)
    | .endOfFlags => .ok (f, rest)
    | .malformed => .error (.malformed word)
    | .flag name value =>
      match setter? name with
      | none => .error (if name == "help" || name == "h" then .help else .unknown name)
      | some setter =>
        match value, rest with
        | some value, rest => do Flags.read (← setter.apply name value f) rest
        | none, [] =>
          if setter.takesNext then .error (.noValue name)
          else do Flags.read (← setter.apply name "true" f) []
        | none, next :: rest =>
          if setter.takesNext then do Flags.read (← setter.apply name next f) rest
          else do Flags.read (← setter.apply name "true" f) (next :: rest)
  termination_by words => words.length

def usage : String :=
  "Usage: prism [flags] module.json\n\nFlags:\n" ++
  "  -backend string\n    \tcomma-separated backends: glsl, hlsl, msl, spirv (default \"glsl\")\n"
  ++
  "  -config string\n    \tJSON sanitizer options file\n" ++
  "  -debug\n    \tdebug logging\n" ++
  "  -diff\n    \tprint a unified diff between the input and each sanitized module\n" ++
  "  -dump\n    \tprint sanitized modules as text\n" ++
  "  -json\n    \tprint version information as JSON\n" ++
  "  -o string\n    \twrite sanitized modules as JSON into this directory\n" ++
  "  -seed int\n    \tshuffle module declarations with this seed before sanitizing (default -1)\n"
  ++
  "  -v\tverbose logging\n" ++
  "  -version\n    \tprint version information\n" ++
  "  -watch\n    \tre-run when the module or options file changes\n" ++
  "\nEnvironment:\n" ++
  "  PRISM_MAX_CONCURRENCY  bound on concurrent backend runs\n" ++
  "  PRISM_VERBOSE          enable info logging\n" ++
  "  PRISM_DEBUG            enable debug logging\n" ++
  "  PRISM_COLOR            auto, always or never\n"

end ShaderLoom.Command
