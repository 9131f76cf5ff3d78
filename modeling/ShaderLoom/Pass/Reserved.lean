/-! Words that a target language keeps for itself. -/
namespace ShaderLoom.Reserved

def glsl : List String :=
  ["active", "asm", "atomic_uint", "attribute", "bool", "break", "buffer", "bvec2", "bvec3",
    "bvec4", "case", "cast", "centroid", "class", "coherent", "common", "const", "continue",
    "default", "discard", "dmat2", "dmat2x2", "dmat2x3", "dmat2x4", "dmat3", "dmat3x2", "dmat3x3",
    "dmat3x4", "dmat4", "dmat4x2", "dmat4x3", "dmat4x4", "do", "double", "dvec2", "dvec3", "dvec4",
    "else", "enum", "extern", "external", "false", "filter", "fixed", "flat", "float", "for",
    "fvec2", "fvec3", "fvec4", "goto", "half", "highp", "hvec2", "hvec3", "hvec4", "if",
    "iimage1D", "iimage2D", "iimage3D", "image1D", "image2D", "image3D", "imageCube", "in",
    "inline", "inout", "input", "int", "interface", "invariant", "isampler2D", "isampler3D",
    "isamplerCube", "ivec2", "ivec3", "ivec4", "layout", "long", "lowp", "main", "mat2", "mat2x2",
    "mat2x3", "mat2x4", "mat3", "mat3x2", "mat3x3", "mat3x4", "mat4", "mat4x2", "mat4x3", "mat4x4",
    "mediump", "namespace", "noinline", "noperspective", "out", "output", "partition", "patch",
    "precise", "precision", "public", "readonly", "resource", "restrict", "return", "sample",
    "sampler1D", "sampler2D", "sampler2DArray", "sampler2DShadow", "sampler3D", "samplerCube",
    "samplerCubeShadow", "shared", "short", "sizeof", "smooth", "static", "struct", "subroutine",
    "superp", "switch", "template", "this", "true", "typedef", "uimage2D", "uimage3D", "uint",
    "uniform", "union", "unsigned", "usampler2D", "usampler3D", "usamplerCube", "using", "uvec2",
    "uvec3", "uvec4", "varying", "vec2", "vec3", "vec4", "void", "volatile", "while", "writeonly"]

def hlsl : List String :=
  ["AppendStructuredBuffer", "BlendState", "Buffer", "ByteAddressBuffer", "CompileShader",
    "ComputeShader", "ConsumeStructuredBuffer", "DepthStencilState", "DepthStencilView",
    "DomainShader", "GeometryShader", "HullShader", "InputPatch", "LineStream", "NULL",
    "OutputPatch", "PixelShader", "PointStream", "RWBuffer", "RWByteAddressBuffer",
    "RWStructuredBuffer", "RWTexture1D", "RWTexture2D", "RWTexture2DArray", "RWTexture3D",
    "RasterizerState", "RenderTargetView", "SamplerComparisonState", "SamplerState",
    "StructuredBuffer", "Texture1D", "Texture2D", "Texture2DArray", "Texture2DMS", "Texture3D",
    "TextureCube", "TextureCubeArray", "TriangleStream", "VertexShader", "asm", "bool", "break",
    "case", "cbuffer", "centroid", "class", "column_major", "compile", "const", "continue",
    "default", "discard", "do", "double", "dword", "else", "export", "extern", "false", "float",
    "float2", "float3", "float4", "float2x2", "float3x3", "float4x4", "for", "groupshared", "half",
    "if", "in", "inline", "inout", "int", "int2", "int3", "int4", "interface", "line", "lineadj",
    "linear", "matrix", "min10float", "min12int", "min16float", "min16int", "min16uint",
    "namespace", "nointerpolation", "noperspective", "out", "packoffset", "pass", "point",
    "precise", "register", "return", "row_major", "sample", "sampler", "shared", "snorm",
    "stateblock", "static", "string", "struct", "switch", "tbuffer", "technique", "texture",
    "triangle", "triangleadj", "true", "typedef", "uint", "uint2", "uint3", "uint4", "uniform",
    "unorm", "unsigned", "vector", "void", "volatile", "while"]

def msl : List String :=
  ["access", "alignas", "alignof", "and", "and_eq", "array", "array_ref", "as_type", "asm",
    "atomic", "auto", "bitand", "bitor", "bool", "break", "case", "catch", "char", "char16_t",
    "char32_t", "class", "compl", "const", "const_cast", "constant", "constexpr", "continue",
    "decltype", "default", "delete", "depth2d", "device", "do", "double", "dynamic_cast", "else",
    "enum", "explicit", "export", "extern", "false", "float", "float2", "float3", "float4", "for",
    "fragment", "friend", "goto", "half", "if", "inline", "int", "int2", "int3", "int4", "kernel",
    "long", "main", "metal", "mutable", "namespace", "new", "noexcept", "not", "not_eq", "nullptr",
    "operator", "or", "or_eq", "packed_float3", "private", "protected", "public", "register",
    "reinterpret_cast", "return", "sampler", "short", "signed", "sizeof", "static",
    "static_assert", "static_cast", "struct", "switch", "template", "texture2d", "this", "thread",
    "thread_local", "threadgroup", "throw", "true", "try", "typedef", "typeid", "typename", "uint",
    "uint2", "uint3", "uint4", "union", "unsigned", "using", "vec", "vertex", "virtual", "void",
    "volatile", "wchar_t", "while", "xor", "xor_eq"]

end ShaderLoom.Reserved
