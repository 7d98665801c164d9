import Psbc.Stage

/-!
# The modules of one compile

`psbc_compile_impl` takes up to three modules: the stage it compiles, a previous stage,
and a link-only one. Which of them are present, and the compiled stage, decide what the
call is: a geometry pair, a hull pair, a domain pair or a stage on its own. This module
has those tests and the refusals that follow from them.
-/

namespace Psbc

/-- What `psbc_compile_impl` knows of its modules before it lowers one. -/
structure Request where
  target : PsbcTarget
  mesaStage : MesaStage
  ngg : Bool
  /-- `paired_previous`: a previous stage is given, as SPIR-V or as NIR. -/
  pairedPrevious : Bool
  /-- `next_link_spirv` is given. -/
  nextLink : Bool
  deriving DecidableEq, Repr

namespace Request

def pairedGeometry (r : Request) : Bool := r.pairedPrevious && r.mesaStage == .geometry

def pairedTessGeometry (r : Request) : Bool := r.pairedGeometry && r.nextLink

def pairedHull (r : Request) : Bool := r.pairedPrevious && r.mesaStage == .tessCtrl

def pairedDomain (r : Request) : Bool := r.pairedPrevious && r.mesaStage == .tessEval

def previousRole (r : Request) : MesaStage :=
  if r.pairedDomain then .tessCtrl else if r.pairedTessGeometry then .tessEval else .vertex

/-- The pairs the library refuses: of another stage, a geometry pair that is not NGG, a
hull pair that is, or any pair for another target. -/
def pairRefused (r : Request) : Bool :=
  r.pairedPrevious &&
    ((!r.pairedGeometry && !r.pairedHull && !r.pairedDomain) ||
      (r.pairedGeometry && !r.ngg) || (r.pairedHull && r.ngg) || r.target != .ps5)

def nggRefused (r : Request) : Bool :=
  r.ngg && (r.target != .ps5 ||
    (r.mesaStage != .vertex && r.mesaStage != .tessEval && !r.pairedGeometry))

theorem pairedHull_of_pairedTessGeometry {r : Request} (h : r.pairedTessGeometry = true) :
    r.pairedHull = false := by
  simp only [pairedTessGeometry, pairedGeometry, Bool.and_eq_true, beq_iff_eq] at h
  simp [pairedHull, h.1.2]

theorem pairedPrevious_of_link {r : Request}
    (h : r.pairedHull = true ∨ r.pairedTessGeometry = true) : r.pairedPrevious = true := by
  simp only [pairedHull, pairedTessGeometry, pairedGeometry, Bool.and_eq_true] at h
  rcases h with h | h
  · exact h.1
  · exact h.1.1

end Request

end Psbc
