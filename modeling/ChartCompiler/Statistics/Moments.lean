import ChartCompiler.Decimal.Dyadic

/-!
# Mean and spread

Sums run from left to right, starting at `-0.0`, which adds nothing to any number.
-/

namespace ChartCompiler.Statistics

/-- The sum from left to right. -/
def sum (values : List Float) : Float :=
  values.foldl (· + ·) (-0.0)

def size (values : List Float) : Float :=
  Float.ofNat values.length

def mean? (values : List Float) : Option Float :=
  if values.isEmpty then none else some (sum values / size values)

/-- The standard deviation of a sample, zero for fewer than two values. -/
def standardDeviation (values : List Float) : Float :=
  if values.length < 2 then 0
  else
    let mean := sum values / size values
    let squares := values.map fun v => (v - mean) * (v - mean)
    Float.sqrt (sum squares / Float.ofNat (values.length - 1))

/-- The standard error of the mean, zero for no values. -/
def standardError (values : List Float) : Float :=
  if values.isEmpty then 0 else standardDeviation values / Float.sqrt (size values)

/-- Smallest and largest value of a list that has any. -/
def extent? : List Float → Option (Float × Float)
  | [] => none
  | first :: rest =>
      some (rest.foldl (fun (low, high) v => (lesser low v, greater high v)) (first, first))

/-- The smallest value, infinity if there is none. -/
def least (values : List Float) : Float :=
  values.foldl lesser infinity

/-- The largest value, negative infinity if there is none. -/
def greatest (values : List Float) : Float :=
  values.foldl greater (-infinity)

end ChartCompiler.Statistics
