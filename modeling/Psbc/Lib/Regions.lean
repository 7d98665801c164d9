import Psbc.Lib.Ranges

/-!
# Regions that are filled from the bottom

A region is a range of places with a mark; what was handed out of it lies below the mark. As
long as the regions keep apart, so do the ranges that were handed out of any of them:
`Serves.give` hands out the next one, above the mark, and `Serves.mono` moves marks up and adds
regions.
-/

namespace Regions

open Ranges

variable {ρ γ : Type} {base mark limit : ρ → Nat} {start stop : γ → Nat}
  {regions regions' : List ρ} {given : List γ} {r r' : ρ} {g : γ}

/-- The range lies in the region, below its mark. -/
structure Within (base mark limit : ρ → Nat) (start stop : γ → Nat) (r : ρ) (g : γ) : Prop where
  base_le : base r ≤ start g
  le_mark : stop g ≤ mark r
  le_limit : stop g ≤ limit r

/-- What was handed out lies in the regions and keeps apart. -/
structure Serves (base mark limit : ρ → Nat) (start stop : γ → Nat) (regions : List ρ)
    (given : List γ) : Prop where
  within : ∀ g ∈ given, ∃ r ∈ regions, Within base mark limit start stop r g
  apart : given.Pairwise (Apart start stop)

theorem serves_nil : Serves base mark limit start stop regions [] := ⟨nofun, .nil⟩

structure Raised (base mark limit : ρ → Nat) (r r' : ρ) : Prop where
  base_eq : base r' = base r
  limit_eq : limit r' = limit r
  mark_le : mark r ≤ mark r'

theorem Within.raise (h : Within base mark limit start stop r g)
    (hr : Raised base mark limit r r') : Within base mark limit start stop r' g where
  base_le := hr.base_eq ▸ h.base_le
  le_mark := h.le_mark.trans hr.mark_le
  le_limit := hr.limit_eq ▸ h.le_limit

theorem Serves.mono (h : Serves base mark limit start stop regions given)
    (hr : ∀ r ∈ regions, ∃ r' ∈ regions', Raised base mark limit r r') :
    Serves base mark limit start stop regions' given := by
  refine ⟨fun g hg => ?_, h.apart⟩
  obtain ⟨r, hmem, hwithin⟩ := h.within g hg
  obtain ⟨r', hmem', hraised⟩ := hr r hmem
  exact ⟨r', hmem', hwithin.raise hraised⟩

/-- The next range comes from above the mark of a region. -/
theorem Serves.give (h : Serves base mark limit start stop (r :: regions) given)
    (hregions : (r' :: regions).Pairwise (Apart base limit)) (hr : Raised base mark limit r r')
    (hfrom : mark r ≤ start g) (hg : Within base mark limit start stop r' g) :
    Serves base mark limit start stop (r' :: regions) (g :: given) := by
  refine ⟨List.forall_mem_cons.mpr ⟨⟨r', .head _, hg⟩, ?_⟩,
    List.pairwise_cons.mpr ⟨fun g' hg' => ?_, h.apart⟩⟩
  · refine (h.mono fun s hs => ?_).within
    rcases List.mem_cons.mp hs with rfl | hs
    · exact ⟨r', .head _, hr⟩
    · exact ⟨s, .tail _ hs, rfl, rfl, Nat.le_refl _⟩
  · obtain ⟨s, hs, hg'⟩ := h.within g' hg'
    rcases List.mem_cons.mp hs with rfl | hs
    · exact .inr (hg'.le_mark.trans hfrom)
    · rcases (List.pairwise_cons.mp hregions).1 s hs with hlt | hlt
      · exact .inl (hg.le_limit.trans (hlt.trans hg'.base_le))
      · exact .inr (hg'.le_limit.trans (hlt.trans hg.base_le))

end Regions
