import ShaderLoom.Report.Failure
import ShaderLoom.Decimal.Reading
import ShaderLoom.Text.Split

/-! Versions of target languages. A version has three numbers, and a general one may name a
pre-release and carry build data. Reading versions and comparing them with ranges is the work of a
package for them, which is a parameter. -/
namespace ShaderLoom

structure Version where
  major : Nat
  minor : Nat
  patch : Nat := 0
  preRelease : String := ""
  build : String := ""
  deriving DecidableEq, Repr

/-- The releases from one on, up to another if there is an upper end. -/
structure VersionRange where
  least : Nat × Nat
  greatest : Option (Nat × Nat) := none
  deriving DecidableEq, Repr

/-- A package for versions: how it reads and writes a version, which versions a range admits, and
how a range is written. -/
structure Semver where
  parse? : String → Option Version
  text : Version → String
  admits : VersionRange → Version → Bool
  describe : VersionRange → String

/-- Is the version of the first two numbers at or above the bound? -/
def notBelow (major minor : Nat) (bound : Nat × Nat) : Bool :=
  bound.1 < major || (bound.1 == major && bound.2 ≤ minor)

/-- What a package for versions documents of its ranges. A release is admitted between the two ends
of a range, the upper one with every patch of its minor version, and a pre-release never. -/
structure Semver.Lawful (semver : Semver) : Prop where
  release : ∀ r v, v.preRelease = "" → (semver.admits r v = true ↔
    notBelow v.major v.minor r.least = true ∧
      ∀ e ∈ r.greatest, notBelow e.1 e.2 (v.major, v.minor) = true)
  preRelease : ∀ r v, v.preRelease ≠ "" → semver.admits r v = false

namespace Version

def text (v : Version) : String :=
  s!"{v.major}.{v.minor}.{v.patch}" ++ (if v.preRelease.isEmpty then "" else "-" ++ v.preRelease) ++
    (if v.build.isEmpty then "" else "+" ++ v.build)

/-- Reads a number of at least one digit that fits 64 bits. -/
def number? (cs : List Char) : Option Nat :=
  let n := Decimal.digitsValue cs
  if !cs.isEmpty && cs.all Char.isDigit && n < 1 <<< 64 then some n else none

def isIdentifierChar (c : Char) : Bool := c.isAlphanum || c == '-'

/-- The identifiers between points. -/
def identifiers (cs : List Char) : List (List Char) :=
  cs.foldr (fun c acc =>
    if c = '.' then [] :: acc
    else match acc with
      | first :: rest => (c :: first) :: rest
      | [] => [[c]]) [[]]

def areIdentifiers (cs : List Char) : Bool :=
  (identifiers cs).all fun part => !part.isEmpty && part.all isIdentifierChar

/-- A number among the identifiers of a pre-release has no zero in front. -/
def isPreRelease (cs : List Char) : Bool :=
  areIdentifiers cs && (identifiers cs).all fun part =>
    !(part.all Char.isDigit && 1 < part.length && part.head? == some '0')

/-- What follows a mark, or nothing if the text does not start with it. -/
def afterMark (mark : Char) : List Char → Option (List Char)
  | c :: rest => if c = mark then some rest else none
  | [] => none

/-- One to three numbers with points between them, after an optional `v`; then a pre-release after
`-` and build data after `+`, each of identifiers with points between them. -/
def parse? (s : String) : Option Version := do
  let cs := s.toList
  let cs := (afterMark 'v' cs).getD cs
  let core := cs.takeWhile fun c => c.isDigit || c == '.'
  let rest := cs.drop core.length
  let numbers ← (identifiers core).mapM number?
  let (pre, rest) := match afterMark '-' rest with
    | some tail => (some (tail.takeWhile (· != '+')), tail.dropWhile (· != '+'))
    | none => (none, rest)
  guard (rest.isEmpty || rest.head? == some '+')
  let build := afterMark '+' rest
  guard (pre.all isPreRelease && build.all areIdentifiers)
  let preRelease := String.ofList (pre.getD [])
  let build := String.ofList (build.getD [])
  match numbers with
  | [major] => return ⟨major, 0, 0, preRelease, build⟩
  | [major, minor] => return ⟨major, minor, 0, preRelease, build⟩
  | [major, minor, patch] => return ⟨major, minor, patch, preRelease, build⟩
  | _ => none

end Version

namespace VersionRange

def text (r : VersionRange) : String :=
  s!">={r.least.1}.{r.least.2}" ++
    match r.greatest with
    | some (major, minor) => s!" <={major}.{minor}"
    | none => ""

/-- An upper end admits every patch of its minor version. -/
def admits (r : VersionRange) (v : Version) : Bool :=
  v.preRelease.isEmpty && notBelow v.major v.minor r.least &&
    r.greatest.all fun (major, minor) => notBelow major minor (v.major, v.minor)

end VersionRange

namespace Semver

/-- The package that programs are run with. -/
def standard : Semver where
  parse? := Version.parse?
  text := Version.text
  admits := VersionRange.admits
  describe := VersionRange.text

theorem lawful_standard : standard.Lawful where
  release r v hv := by
    obtain ⟨least, greatest⟩ := r
    cases greatest <;> simp [standard, VersionRange.admits, hv]
  preRelease r v hv := by
    simp [standard, VersionRange.admits, String.isEmpty_iff, hv]

end Semver

inductive VersionProblem where
  | invalid (language text : String)
  /-- The range is given as it is written. -/
  | unsupported (language text wanted : String)
  deriving DecidableEq, Repr

def VersionProblem.toFault : VersionProblem → Fault
  | .invalid language text =>
    .configuration "INVALID_VERSION" s!"invalid {language} version '{text}'"
  | .unsupported language text wanted =>
    .configuration "UNSUPPORTED_VERSION"
      s!"unsupported {language} version '{text}' (want {wanted})"

/-- A version directive of GLSL: desktop, or ES for embedded systems. -/
structure GlslVersion where
  version : Version
  es : Bool
  deriving DecidableEq, Repr

namespace GlslVersion

def supported (es : Bool) : VersionRange :=
  if es then ⟨(3, 0), some (3, 2)⟩ else ⟨(3, 3), some (4, 6)⟩

def computeRange (es : Bool) : VersionRange := if es then ⟨(3, 1), none⟩ else ⟨(4, 3), none⟩

def supportsCompute (semver : Semver) (v : GlslVersion) : Bool :=
  semver.admits (computeRange v.es) v.version

def text (v : GlslVersion) : String :=
  s!"{v.version.major}{v.version.minor}0" ++ (if v.es then " es" else "")

def directive (v : GlslVersion) : String := "#version " ++ v.text

/-- Three digits, possibly after a plus sign; more zeros may stand in front. -/
def directiveNumber? (s : String) : Option Nat :=
  let cs := s.toList
  let ds := if cs.head? == some '+' then cs.drop 1 else cs
  let n := Decimal.digitsValue ds
  if !ds.isEmpty && ds.all Char.isDigit && 100 ≤ n && n ≤ 999 then some n else none

/-- A number such as `440`, and `es` after it for ES. -/
def directive? (s : String) : Option (Nat × Bool) :=
  match Text.words s with
  | [n] => (directiveNumber? n).map (·, false)
  | [n, mark] => if mark == "es" then (directiveNumber? n).map (·, true) else none
  | _ => none

/-- The version of a directive. The last digit of the number is passed over. -/
def parse (semver : Semver) (s : String) : Except VersionProblem GlslVersion :=
  match directive? s with
  | none => .error (.invalid "GLSL" s)
  | some (n, es) =>
    let v : GlslVersion := ⟨⟨n / 100, n % 100 / 10, 0, "", ""⟩, es⟩
    if semver.admits (supported es) v.version then .ok v
    else .error (.unsupported "GLSL" s (semver.describe (supported es)))

/-- For a package that keeps its word, the versions that are read are those of ES from 3.0 to 3.2
and of the desktop from 3.3 to 4.6, and compute shaders come with ES 3.1 and desktop 4.3. -/
theorem parse_sound {semver : Semver} (h : semver.Lawful) {s : String} {v : GlslVersion}
    (hv : parse semver s = .ok v) :
    (if v.es then v.version.major = 3 ∧ v.version.minor ≤ 2
      else v.version.major = 3 ∧ 3 ≤ v.version.minor ∨ v.version.major = 4 ∧ v.version.minor ≤ 6) ∧
    (v.supportsCompute semver = true ↔
      if v.es then 1 ≤ v.version.minor else v.version.major = 4 ∧ 3 ≤ v.version.minor) := by
  unfold parse at hv
  split at hv
  · cases hv
  · next n es _ =>
    dsimp only at hv
    split at hv
    · next hadmits =>
      cases hv
      have hrange := (h.release _ _ rfl).1 hadmits
      have hcompute := h.release (computeRange es) ⟨n / 100, n % 100 / 10, 0, "", ""⟩ rfl
      unfold supportsCompute
      rw [hcompute]
      cases es <;> simp [supported, computeRange, notBelow] at hrange ⊢ <;> omega
    · cases hv

end GlslVersion

namespace MslVersion

def supported : VersionRange := ⟨(1, 2), none⟩

def parse (semver : Semver) (s : String) : Except VersionProblem Version :=
  match semver.parse? (Text.trim s) with
  | none => .error (.invalid "MSL" s)
  | some v =>
    if semver.admits supported v then .ok v
    else .error (.unsupported "MSL" s (semver.describe supported))

/-- For a package that keeps its word, the versions that are read are the releases from 1.2 on. -/
theorem parse_sound {semver : Semver} (h : semver.Lawful) {s : String} {v : Version}
    (hv : parse semver s = .ok v) :
    v.preRelease = "" ∧ (1 < v.major ∨ v.major = 1 ∧ 2 ≤ v.minor) := by
  unfold parse at hv
  split at hv
  · cases hv
  · split at hv
    · next hadmits =>
      cases hv
      have hrelease : v.preRelease = "" := Decidable.byContradiction fun hpre => by
        rw [h.preRelease _ _ hpre] at hadmits
        cases hadmits
      have hfrom := ((h.release _ _ hrelease).1 hadmits).1
      simp only [notBelow, Bool.or_eq_true, Bool.and_eq_true, decide_eq_true_eq, beq_iff_eq]
        at hfrom
      exact ⟨hrelease, hfrom.imp_right fun hm => ⟨hm.1.symm, hm.2⟩⟩
    · cases hv

end MslVersion
end ShaderLoom
