import ChartCompiler.Statistics.Moments

/-!
# Histograms
-/

namespace ChartCompiler.Statistics

/-- An interval of values and how many of them it holds. -/
structure Bin where
  start : Float
  stop : Float
  count : Nat

def Bin.center (bin : Bin) : Float :=
  (bin.start + bin.stop) / 2

/-- The number of bins for `n` values: their square root, rounded up, from 1 to 50. -/
def defaultBinCount (n : Nat) : Nat :=
  max 1 (min 50 (ceilNat (Float.sqrt (Float.ofNat n))))

/-- The counts of bins, one more at an index. -/
def countAt : Nat → List Nat → List Nat
  | _, [] => []
  | 0, count :: rest => (count + 1) :: rest
  | index + 1, count :: rest => count :: countAt index rest

@[simp]
theorem length_countAt (index : Nat) (counts : List Nat) :
    (countAt index counts).length = counts.length := by
  fun_induction countAt index counts <;> simp_all

/-- One value more is counted, if its bin exists. -/
theorem sum_countAt {index : Nat} {counts : List Nat} (exists_bin : index < counts.length) :
    (countAt index counts).foldr (· + ·) 0 = counts.foldr (· + ·) 0 + 1 := by
  fun_induction countAt index counts with
  | case1 => simp at exists_bin
  | case2 => simp; omega
  | case3 index count rest ih => simp_all; omega

/-- Bins of one width from the smallest to the largest value, which the last bin includes. Values
that are all equal get bins of width one. -/
def histogram (values : List Float) (binCount : Nat) : List Bin :=
  if values.isEmpty then []
  else
    let low := least values
    let range := greatest values - low
    let width := if range == 0 then 1 else range / Float.ofNat binCount
    let index (v : Float) : Nat := min (floorNat ((v - low) / width)) (binCount - 1)
    let counts := values.foldl (fun counts v => countAt (index v) counts)
      (List.replicate binCount 0)
    counts.zipIdx.map fun (count, i) => {
      start := low + Float.ofNat i * width
      stop := low + Float.ofNat (i + 1) * width
      count }

end ChartCompiler.Statistics
