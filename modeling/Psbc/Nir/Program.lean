import Mathlib.Data.List.Basic

/-!
# Shaders as the metadata walks see them

The library walks the optimized NIR twice before its lowering: for the push-constant dwords a
stage reads and for the descriptor bindings it names. `Instr` has what the two walks look at
in an instruction; a shader is its function bodies, each a list of blocks.
-/

namespace Psbc.Nir

/-- A variable's descriptor. -/
structure Variable where
  descriptorSet : Nat
  binding : Nat
  deriving DecidableEq, Repr

/-- The image operations that the descriptor walk knows. -/
inductive ImageDerefOp where
  | load
  | sparseLoad
  | store
  | atomic
  | atomicSwap
  | size
  | samples
  deriving DecidableEq, Repr

inductive TexSrcType where
  | textureDeref
  | samplerDeref
  | other
  deriving DecidableEq, Repr

/-- A source of a texture operation, with the variable its deref chain leads to. -/
structure TexSrc where
  srcType : TexSrcType
  var : Option Variable
  deriving DecidableEq, Repr

/-- `load_push_constant`: the offset is a 32-bit value, here `none` when it is not constant. -/
structure PushConstantLoad where
  base : BitVec 32
  range : BitVec 32
  offset : Option (BitVec 32)
  numComponents : BitVec 8
  bitSize : BitVec 8
  deriving DecidableEq, Repr

inductive Instr where
  | vulkanResourceIndex (descSet binding : Nat)
  | imageDeref (op : ImageDerefOp) (var : Option Variable)
  | loadPushConstant (load : PushConstantLoad)
  | tex (srcs : List TexSrc)
  | other
  deriving DecidableEq, Repr

/-- The function bodies of a shader. -/
structure Shader where
  impls : List (List (List Instr))

/-- The instructions in the order of a walk: bodies, blocks, instructions. -/
def Shader.instrs (s : Shader) : List Instr := s.impls.flatten.flatten

end Psbc.Nir
