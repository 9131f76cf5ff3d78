import ShaderLoom.Backend.Options
import ShaderLoom.Document.Misfit
import ShaderLoom.Json.Writer

/-! Options as documents. Reading follows the rules for modules, but an unknown key makes the
document unreadable. Writing leaves out what is empty. -/
namespace ShaderLoom.Document

/-- All keys have to be known. -/
def Fields.only (known : List String) (fs : Fields) : Option Fields :=
  if fs.all fun (k, _) => known.contains (foldKey k) then some fs else none

/-- What objects under one key make when none of them can be taken back. -/
def readInPlace {α : Type} (read : Fields → Option α) (vs : List Json) : Option α := do
  read (← joinObjects vs)

/-- Like `readColumns` for elements that `null` leaves as they are. -/
def readRows {α : Type} (read : Fields → Option α) (vs : List Json) : Option (List α) := do
  let runs ← (cutAt isEmptyList vs).mapM fun run => do
    let rows ← run.mapM readItems
    let widest := rows.foldl (fun n row => max n row.length) 0
    let columns ← (List.range widest).mapM fun i => readInPlace read (rows.filterMap (·[i]?))
    return columns.take ((rows.getLast?.getD []).length)
  return runs.getLast?.getD []

def readPoint (fs : Fields) : Option BindingPoint := do
  let fs ← fs.only ["group", "binding"]
  let group ← lastOf readWord 0 (fs.valuesOf "group")
  let binding ← lastOf readWord 0 (fs.valuesOf "binding")
  return { group, binding }

def pointAt (fs : Fields) (key : String) : Option BindingPoint :=
  readInPlace readPoint (fs.valuesOf key)

def readRemap (fs : Fields) : Option RemapOption := do
  let fs ← fs.only ["from", "to"]
  return { source := ← pointAt fs "from", target := ← pointAt fs "to" }

def readAccess (fs : Fields) : Option AccessOption := do
  let fs ← fs.only ["binding", "access"]
  return { binding := ← pointAt fs "binding",
           access := ← lastOf readText "" (fs.valuesOf "access") }

def readTexture (fs : Fields) : Option TextureOption := do
  let fs ← fs.only ["binding", "plane1", "params"]
  return {
    binding := ← pointAt fs "binding"
    plane1 := ← pointAt fs "plane1"
    params := ← pointAt fs "params" }

def commonKeys : List String :=
  ["binding_remaps", "access_controls", "allow_collisions", "external_textures"]

def readCommon (fs : Fields) : Option CommonOptions := do
  return {
    remaps := ← readRows readRemap (fs.valuesOf "binding_remaps")
    accesses := ← readRows readAccess (fs.valuesOf "access_controls")
    allowCollisions := ← lastOf readFlag false (fs.valuesOf "allow_collisions")
    textures := ← readRows readTexture (fs.valuesOf "external_textures") }

def readGlsl (fs : Fields) : Option GlslOptions := do
  let fs ← fs.only (["version", "entry_point"] ++ commonKeys)
  let version ← lastOf readText "" (fs.valuesOf "version")
  let entryPoint ← lastOf readText "" (fs.valuesOf "entry_point")
  return { ← readCommon fs with version, entryPoint }

def readHlsl (fs : Fields) : Option HlslOptions := do
  let fs ← fs.only (["first_index_offset", "num_workgroups"] ++ commonKeys)
  let firstIndexOffset ← readJoined readPoint (fs.valuesOf "first_index_offset")
  let numWorkgroups ← readJoined readPoint (fs.valuesOf "num_workgroups")
  return { ← readCommon fs with firstIndexOffset, numWorkgroups }

def readMsl (fs : Fields) : Option MslOptions := do
  let fs ← fs.only ("version" :: commonKeys)
  let version ← lastOf readText "" (fs.valuesOf "version")
  return { ← readCommon fs with version }

def readSpirv (fs : Fields) : Option SpirvOptions := do
  let fs ← fs.only commonKeys
  return { ← readCommon fs with }

def readOptions (fs : Fields) : Option Options := do
  let fs ← fs.only ["glsl", "hlsl", "msl", "spirv"]
  return {
    glsl := ← readInPlace readGlsl (fs.valuesOf "glsl")
    hlsl := ← readInPlace readHlsl (fs.valuesOf "hlsl")
    msl := ← readInPlace readMsl (fs.valuesOf "msl")
    spirv := ← readInPlace readSpirv (fs.valuesOf "spirv") }

end ShaderLoom.Document

namespace ShaderLoom.Options

open Document

/-- The options that a value describes; `null` stands for the defaults. -/
def ofJson? (v : Json) : Option Options := readInPlace readOptions [v]

/-- The options that the first value of a text describes. -/
def parse : String → Except Unreadable Options := readPart true .options ofJson?

def pointJson (p : BindingPoint) : Json :=
  .obj [("group", .ofNat p.group.toNat), ("binding", .ofNat p.binding.toNat)]

/-- A field that is left out when its list is empty. -/
def listField (key : String) (items : List Json) : Fields :=
  if items.isEmpty then [] else [(key, .arr items)]

def textField (key text : String) : Fields := if text.isEmpty then [] else [(key, .str text)]

def commonFields (c : CommonOptions) : Fields :=
  listField "binding_remaps" (c.remaps.map fun r =>
      .obj [("from", pointJson r.source), ("to", pointJson r.target)]) ++
    listField "access_controls" (c.accesses.map fun a =>
      .obj [("binding", pointJson a.binding), ("access", .str a.access)]) ++
    (if c.allowCollisions then [("allow_collisions", .bool true)] else []) ++
    listField "external_textures" (c.textures.map fun t =>
      .obj [("binding", pointJson t.binding), ("plane1", pointJson t.plane1),
        ("params", pointJson t.params)])

def offsetJson (p : BindingPoint) : Json :=
  .obj [("Group", .ofNat p.group.toNat), ("Binding", .ofNat p.binding.toNat)]

def toJson (o : Options) : Json :=
  .obj [
    ("glsl", .obj (commonFields o.glsl.toCommonOptions ++ textField "version" o.glsl.version ++
      textField "entry_point" o.glsl.entryPoint)),
    ("hlsl", .obj (commonFields o.hlsl.toCommonOptions ++
      (o.hlsl.firstIndexOffset.map fun p => ("first_index_offset", offsetJson p)).toList ++
      (o.hlsl.numWorkgroups.map fun p => ("num_workgroups", pointJson p)).toList)),
    ("msl", .obj (commonFields o.msl.toCommonOptions ++ textField "version" o.msl.version)),
    ("spirv", .obj (commonFields o.spirv.toCommonOptions))]

end ShaderLoom.Options
