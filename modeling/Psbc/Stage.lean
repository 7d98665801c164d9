import Mathlib.Data.Nat.Notation

/-!
# Stages and results

The enumerations of `psbc_compile.h`, the part of Mesa's stage enumeration the
library uses, and the map between them.
-/

namespace Psbc

inductive PsbcStage where
  | none
  | vertex
  | tessCtrl
  | tessEval
  | geometry
  | fragment
  | compute
  | task
  /-- A vertex shader as ES. -/
  | exportShader
  /-- A vertex shader as LS. -/
  | localShader
  deriving DecidableEq, Repr

inductive PsbcTarget where
  | ps4Base
  | ps4Neo
  | ps5
  deriving DecidableEq, Repr

/-- The values of `PsbcResult` other than success. -/
inductive PsbcError where
  | invalidSpirv
  | unsupportedStage
  | compileNir
  | compileAco
  | outOfMemory
  | internalError
  | unsupportedCapability
  deriving DecidableEq, Repr

/-- `mesa_shader_stage`, with `MESA_SHADER_NONE`. -/
inductive MesaStage where
  | none
  | vertex
  | tessCtrl
  | tessEval
  | geometry
  | fragment
  | compute
  | task
  | mesh
  deriving DecidableEq, Repr

def psbcToMesaStage : PsbcStage → MesaStage
  | .vertex => .vertex
  | .tessCtrl => .tessCtrl
  | .tessEval => .tessEval
  | .geometry => .geometry
  | .fragment => .fragment
  | .compute => .compute
  | .task => .task
  | .exportShader => .vertex
  | .localShader => .vertex
  | .none => .none

end Psbc
