import ChartCompiler.Statistics.Quantile

/-!
# Kernel density

A Gaussian kernel over an evenly spaced grid, scaled so that the peak is one.
-/

namespace ChartCompiler.Statistics

/-- Silverman's rule of thumb for the bandwidth; one where the data have no spread. -/
def bandwidth (values : List Float) : Float :=
  if values.length < 2 then 1
  else
    let deviation := standardDeviation values
    let range := quartileRange values
    let scale := if 0 < range then lesser deviation (range / 1.34) else deviation
    if scale ≤ 0 then 1 else 0.9 * scale * Float.pow (size values) (-0.2)

def gaussian (u : Float) : Float :=
  Float.exp (-0.5 * u * u) / 2.5066282746310002

/-- Density by grid point. -/
structure Density where
  grid : List Float
  density : List Float

/-- The density of the values on `points` grid points, three bandwidths beyond the data on both
sides. Without room for a grid it is one point of density one. -/
def Density.of (values : List Float) (bandwidth : Float) (points : Nat) : Density :=
  if values.isEmpty || points = 0 then ⟨[], []⟩
  else
    let low := least values
    let start := low - 3 * bandwidth
    let range := greatest values + 3 * bandwidth - start
    if range ≤ 0 || points = 1 then ⟨[low], [1]⟩
    else
      let step := range / Float.ofNat (points - 1)
      let grid := (List.range points).map fun i => start + Float.ofNat i * step
      let total := size values * bandwidth
      let density := grid.map fun y =>
        sum (values.map fun x => gaussian ((y - x) / bandwidth)) / total
      let peak := density.foldl greater 0
      ⟨grid, if 0 < peak then density.map (· / peak) else density⟩

end ChartCompiler.Statistics
