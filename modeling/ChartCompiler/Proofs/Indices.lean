import ChartCompiler.Look.Palette
import ChartCompiler.Plot.Facet
import ChartCompiler.Proofs.Conservation
import ChartCompiler.Proofs.Numbers
import ChartCompiler.Statistics.Density

/-!
# Indices and divisors within bounds

The computations of `Checked` take each entry of a list by an index that may
miss it, and divide by numbers that may be zero; then they have no result. The
quartile ranks of a list lie between its ends because three quarters of its
length, rounded twice, stay below it. A bin is cut off at the last one, a grid
has a column, and colours are only counted off where there are any. So every
such computation has a result, the one without checks.
-/

namespace ChartCompiler

open Double Float.Model Statistics

/-! ## Ranks -/

theorem floorNat_lt (x : Float) : floorNat x < 2 ^ 64 :=
  x.toUInt64.toNat_lt

theorem floorNat_le_ceilNat (x : Float) : floorNat x ≤ ceilNat x := by
  unfold ceilNat
  dsimp only
  split_ifs <;> omega

theorem ceilNat_le_succ (x : Float) : ceilNat x ≤ floorNat x + 1 := by
  unfold ceilNat
  dsimp only
  split_ifs <;> omega

/-- Rounding up stays within a bound that is a whole number and a double. -/
theorem ceilNat_le {x : Float} (hx : x.isFinite = true) {m : ℕ} (hm : m ≤ 2 ^ 53)
    (hle : real x ≤ m) : ceilNat x ≤ m := by
  have hfloor : floorNat x ≤ m := by
    rw [floorNat_eq hx]
    exact (min_le_left _ _).trans (Nat.floor_le_of_le hle)
  unfold ceilNat
  dsimp only
  split_ifs with hbelow
  · obtain ⟨hwhole, hreal⟩ := exact_ofNat (hfloor.trans hm)
    rw [real_lt_real_iff hwhole hx, hreal] at hbelow
    exact_mod_cast hbelow.trans_le hle
  · exact hfloor

theorem ceilNat_eq_ceil {x : Float} (hx : x.isFinite = true) (hhigh : real x ≤ 2 ^ 53) :
    ceilNat x = ⌈real x⌉₊ := by
  refine le_antisymm (ceilNat_le hx ?_ (Nat.le_ceil _)) (Nat.ceil_le.mpr (real_le_ceilNat hx hhigh))
  exact Nat.ceil_le.mpr (by exact_mod_cast hhigh)

/-- Below `2 ^ 64` rounding adds at most half of `2 ^ 11`. -/
theorem real_le_of_rounds_word {x : Float} {r : ℝ} (hx : Rounds x r) (hlow : 0 ≤ r)
    (hhigh : r < 2 ^ (64 : ℤ)) : x.isFinite = true ∧ 0 ≤ real x ∧ real x ≤ r + 2 ^ (10 : ℤ) := by
  have hlimit : (2 : ℝ) ^ (64 : ℤ) < limit := zpow_lt_limit (by norm_num)
  have hdouble : IsDouble (2 ^ (64 : ℤ)) := isDouble_zpow (by norm_num)
  have habs : |r| < 2 ^ (64 : ℤ) := by rwa [abs_of_nonneg hlow]
  obtain ⟨hfinite, hpos, -⟩ := hx.between isDouble_zero hdouble (neg_neg_of_pos limit_pos) hlimit
    hlow hhigh.le
  have hnearest : real x = nearest r :=
    hx.real_eq ((abs_nearest_le hdouble habs.le).trans_lt hlimit)
  have herror := (abs_le.mp (abs_nearest_sub_le (e := 11) (by norm_num) habs)).2
  rw [← hnearest] at herror
  refine ⟨hfinite, hpos, ?_⟩
  norm_num at herror ⊢
  linarith

/-- A share of at most three quarters of a number, rounded up, is at most this number. Below
`2 ^ 53` the number itself is a double; from there on a quarter of it is more than what two
roundings add, until ranks are cut off at `2 ^ 64`. -/
theorem ceilNat_share_le {w : Float} (hw : w.isFinite = true) (hlow : 0 ≤ real w)
    (hhigh : real w ≤ 3 / 4) (m : ℕ) : ceilNat (w * Float.ofNat m) ≤ m := by
  have hm : (0 : ℝ) ≤ m := Nat.cast_nonneg m
  rcases le_or_gt m (2 ^ 53) with hsmall | hlarge
  · obtain ⟨hcount, hreal⟩ := exact_ofNat hsmall
    have hproduct := rounds_mul hw hcount
    rw [hreal] at hproduct
    obtain ⟨hrank, -, hle⟩ := hproduct.between isDouble_zero (isDouble_natCast hsmall)
      (neg_neg_of_pos limit_pos)
      (by simpa only [Nat.abs_cast] using natCast_lt_limit (n := m) (by omega))
      (mul_nonneg hlow hm) (by nlinarith)
    exact ceilNat_le hrank hsmall hle
  have hceil := ceilNat_le_succ (w * Float.ofNat m)
  rcases le_or_gt (2 ^ 64) m with hword | hword
  · have hfloor := floorNat_lt (w * Float.ofNat m)
    omega
  · have hcast : (m : ℝ) < 2 ^ (64 : ℤ) := by exact_mod_cast hword
    have hmany : (2 : ℝ) ^ (53 : ℤ) < m := by exact_mod_cast hlarge
    obtain ⟨hcount, hclow, hchigh⟩ := real_le_of_rounds_word (rounds_ofNat m) hm hcast
    have hexact : real w * real (Float.ofNat m) ≤ 3 / 4 * (m + 2 ^ (10 : ℤ)) :=
      mul_le_mul hhigh hchigh hclow (by norm_num)
    have hwide : (2 : ℝ) ^ (53 : ℤ) = 9007199254740992 := by norm_num
    have hmost : (2 : ℝ) ^ (64 : ℤ) = 18446744073709551616 := by norm_num
    have hadded : (2 : ℝ) ^ (10 : ℤ) = 1024 := by norm_num
    rw [hwide] at hmany
    rw [hadded] at hexact
    obtain ⟨hrank, -, hrhigh⟩ := real_le_of_rounds_word (rounds_mul hw hcount)
      (mul_nonneg hlow hclow) (by rw [hmost] at hcast ⊢; linarith)
    rw [hadded] at hrhigh
    have hbelow : floorNat (w * Float.ofNat m) < m := by
      rw [floorNat_eq hrank]
      refine (min_le_left _ _).trans_lt ?_
      rw [Nat.floor_lt' (by omega)]
      linarith
    omega

/-- A share by which quantiles are asked for. -/
inductive IsQuartile : Float → Prop
  | lower : IsQuartile 0.25
  | median : IsQuartile 0.5
  | upper : IsQuartile 0.75

/-- Quartiles are quarters, and clamping leaves them as they are. -/
theorem IsQuartile.real_clamp {p : Float} (hp : IsQuartile p) :
    (clamp 0 1 p).isFinite = true ∧ ∃ k : ℕ, 0 < k ∧ k < 4 ∧ real (clamp 0 1 p) = k / 4 := by
  cases hp with
  | lower =>
      have hparts : parts (clamp 0 1 0.25) = .finite .positive (2 ^ 52) (-54) (by decide) := rfl
      exact ⟨rfl, 1, by norm_num, by norm_num, by rw [real_of_parts hparts]; norm_num⟩
  | median =>
      have hparts : parts (clamp 0 1 0.5) = .finite .positive (2 ^ 52) (-53) (by decide) := rfl
      exact ⟨rfl, 2, by norm_num, by norm_num, by rw [real_of_parts hparts]; norm_num⟩
  | upper =>
      have hparts : parts (clamp 0 1 0.75) =
          .finite .positive (3 * 2 ^ 51) (-53) (by decide) := rfl
      exact ⟨rfl, 3, by norm_num, by norm_num, by rw [real_of_parts hparts]; norm_num⟩

/-- They are shares of at most three quarters. -/
theorem IsQuartile.share {p : Float} (hp : IsQuartile p) :
    (clamp 0 1 p).isFinite = true ∧ 0 ≤ real (clamp 0 1 p) ∧ real (clamp 0 1 p) ≤ 3 / 4 := by
  obtain ⟨hfinite, k, -, hk, hreal⟩ := hp.real_clamp
  have hle : (k : ℝ) ≤ 3 := by exact_mod_cast Nat.le_of_lt_succ hk
  rw [hreal]
  exact ⟨hfinite, by positivity, by linarith⟩

/-! ## Columns -/

theorem parts_of_value_top {x : Float} (hx : value x = ⊤) : parts x = .infinity .positive := by
  rw [value] at hx
  cases hparts : parts x with
  | infinity s =>
      rw [hparts] at hx
      cases s with
      | positive => rfl
      | negative => exact absurd hx bot_ne_top
  | notANumber =>
      rw [hparts] at hx
      exact absurd hx EReal.zero_ne_top
  | zero s =>
      rw [hparts] at hx
      exact absurd hx EReal.zero_ne_top
  | finite s m e hm =>
      rw [hparts] at hx
      exact absurd hx (EReal.coe_ne_top _)

/-- The root of a count that is not zero is at least one, or infinite if the count is. -/
theorem floorNat_sqrt_pos {n : ℕ} (hpos : 0 < n) : 0 < floorNat (Float.sqrt (Float.ofNat n)) := by
  have hone : (1 : ℝ) ≤ n := by exact_mod_cast hpos
  have hrounds := rounds_ofNat n
  have hnearest := le_nearest isDouble_one hone
  by_cases hfits : |nearest n| < limit
  · have hcount := hrounds.isFinite hfits
    have hlow : 1 ≤ real (Float.ofNat n) := by rwa [hrounds.real_eq hfits]
    obtain ⟨hroot, hrlow, -⟩ := (rounds_sqrt hcount (by linarith)).between isDouble_one
      (isDouble_real hcount) (by linarith [limit_pos]) (abs_lt.mp (abs_real_lt hcount)).2
      (Real.one_le_sqrt.mpr hlow) (Real.sqrt_le_iff.mpr ⟨by linarith, by nlinarith⟩)
    rw [floorNat_eq hroot]
    have hfloor := Nat.floor_pos.mpr hrlow
    omega
  · have hvalue : value (Float.ofNat n) = ⊤ := by
      rw [hrounds.value, rounded, if_pos]
      rwa [abs_of_nonneg (by linarith), not_lt] at hfits
    have hroot : Float.sqrt (Float.ofNat n) =
        .ofModel (.pack (UnpackedFloat.sqrt Format.binary64 (parts (Float.ofNat n)))) := rfl
    rw [hroot, parts_of_value_top hvalue]
    decide

/-- A grid has at least one column, whatever the number of its cells. -/
theorem FacetLayout.columnCount_pos {n : ℕ} (hpos : 0 < n) (wanted : Option ℕ) :
    0 < columnCount n wanted := by
  unfold columnCount
  split
  · exact Nat.succ_pos _
  · exact (floorNat_sqrt_pos hpos).trans_le (floorNat_le_ceilNat _)

/-! ## Quantiles by rank -/

namespace Statistics

/-- The rank of a quartile between the first and the last of `m + 1` values. -/
def quartileRank (p : Float) (m : ℕ) : Float :=
  clamp 0 1 p * Float.ofNat m

/-- The value at a rank, between two neighbours their weighted mean. -/
def valueAt (data : List Float) (rank : Float) : Float :=
  let lower := floorNat rank
  let upper := ceilNat rank
  if lower = upper then data.getD lower 0
  else
    let weight := rank - Float.ofNat lower
    data.getD lower 0 * (1 - weight) + data.getD upper 0 * weight

theorem percentile_eq_valueAt {p : Float} {data : List Float} (hlength : 2 ≤ data.length) :
    percentile data p = valueAt data (quartileRank p (data.length - 1)) := by
  match data, hlength with
  | first :: second :: rest, _ => rfl

end Statistics

/-! ## Computations with checks -/

namespace Checked

/-- A quotient, if the divisor is not zero. -/
def quotient (a b : Nat) : Option Nat :=
  if b = 0 then none else some (a / b)

def remainder (a b : Nat) : Option Nat :=
  if b = 0 then none else some (a % b)

theorem quotient_eq {b : Nat} (hb : 0 < b) (a : Nat) : quotient a b = some (a / b) :=
  if_neg hb.ne'

theorem remainder_eq {b : Nat} (hb : 0 < b) (a : Nat) : remainder a b = some (a % b) :=
  if_neg hb.ne'

/-- The `p`-quantile of sorted data, if the data have the neighbours of its rank. -/
def percentile (data : List Float) (p : Float) : Option Float :=
  if data.length = 0 then some 0
  else if data.length = 1 then data[0]?
  else
    let rank := clamp 0 1 p * Float.ofNat (data.length - 1)
    let lower := floorNat rank
    let upper := ceilNat rank
    if lower = upper then data[lower]?
    else do
      let weight := rank - Float.ofNat lower
      let low ← data[lower]?
      let high ← data[upper]?
      return low * (1 - weight) + high * weight

/-- Both neighbours of a quartile's rank are in the list. -/
theorem percentile_eq {p : Float} (hp : IsQuartile p) (data : List Float) :
    percentile data p = some (Statistics.percentile data p) := by
  match data with
  | [] => rfl
  | [only] => rfl
  | first :: second :: rest =>
      generalize hdata : first :: second :: rest = data
      have hlength : 2 ≤ data.length := by
        rw [← hdata]
        exact Nat.le_add_left 2 rest.length
      obtain ⟨hshare, hlow, hhigh⟩ := hp.share
      have hupper := ceilNat_share_le hshare hlow hhigh (data.length - 1)
      have hlower := floorNat_le_ceilNat (clamp 0 1 p * Float.ofNat (data.length - 1))
      have hget : ∀ {i}, i ≤ data.length - 1 → data[i]? = some (data.getD i 0) := by
        intro i hi
        rw [List.getD_eq_getElem?_getD, List.getElem?_eq_getElem (by omega)]
        rfl
      rw [percentile_eq_valueAt hlength, percentile, if_neg (by omega), if_neg (by omega)]
      unfold valueAt quartileRank
      dsimp only
      rw [hget (hlower.trans hupper), hget hupper]
      split_ifs <;> rfl

def quartileRange (values : List Float) : Option Float := do
  let data := sorted values
  let upper ← percentile data 0.75
  let lower ← percentile data 0.25
  return upper - lower

@[simp]
theorem quartileRange_eq (values : List Float) :
    quartileRange values = some (Statistics.quartileRange values) := by
  unfold quartileRange
  dsimp only
  rw [percentile_eq .upper, percentile_eq .lower]
  rfl

def boxSummary (values : List Float) : Option (Option BoxSummary) :=
  if values.isEmpty then some none
  else do
    let data := sorted values
    let lowerQuartile ← percentile data 0.25
    let median ← percentile data 0.5
    let upperQuartile ← percentile data 0.75
    let range := upperQuartile - lowerQuartile
    let lowerFence := lowerQuartile - 1.5 * range
    let upperFence := upperQuartile + 1.5 * range
    return some {
      lowerWhisker := (data.find? (lowerFence ≤ ·)).getD lowerQuartile
      lowerQuartile
      median
      upperQuartile
      upperWhisker := (data.reverse.find? (· ≤ upperFence)).getD upperQuartile
      outliers := data.filter fun v => v < lowerFence || upperFence < v }

@[simp]
theorem boxSummary_eq (values : List Float) : boxSummary values = some (BoxSummary.of? values) := by
  unfold boxSummary BoxSummary.of?
  dsimp only
  rw [percentile_eq .lower, percentile_eq .median, percentile_eq .upper]
  split_ifs <;> rfl

/-- The bandwidth, whose rule of thumb reads the distance of the quartiles. -/
def bandwidth (values : List Float) : Option Float :=
  if values.length < 2 then some 1
  else do
    let deviation := standardDeviation values
    let range ← quartileRange values
    let scale := if 0 < range then lesser deviation (range / 1.34) else deviation
    return if scale ≤ 0 then 1 else 0.9 * scale * Float.pow (size values) (-0.2)

@[simp]
theorem bandwidth_eq (values : List Float) :
    bandwidth values = some (Statistics.bandwidth values) := by
  unfold bandwidth Statistics.bandwidth
  rw [quartileRange_eq]
  split_ifs <;> rfl

/-- One more value in the bin of an index, if there is such a bin. -/
def countAt (index : Nat) (counts : List Nat) : Option (List Nat) :=
  counts[index]?.map fun count => counts.set index (count + 1)

theorem countAt_eq {index : Nat} {counts : List Nat} (hindex : index < counts.length) :
    countAt index counts = some (Statistics.countAt index counts) := by
  unfold countAt
  fun_induction Statistics.countAt index counts with
  | case1 => exact absurd hindex (Nat.not_lt_zero _)
  | case2 => rfl
  | case3 index count rest ih =>
      have hrest := ih (Nat.lt_of_succ_lt_succ hindex)
      rw [List.getElem?_cons_succ]
      cases hfound : rest[index]? with
      | none => rw [hfound] at hrest; cases hrest
      | some found =>
          rw [hfound] at hrest
          rw [Option.map_some, List.set_cons_succ]
          rw [Option.map_some] at hrest
          rw [Option.some.inj hrest]

theorem foldlM_countAt {index : Float → Nat} (values : List Float) {counts : List Nat}
    (hindex : ∀ v, index v < counts.length) :
    values.foldlM (fun counts v => countAt (index v) counts) counts =
      some (values.foldl (fun counts v => Statistics.countAt (index v) counts) counts) := by
  induction values generalizing counts with
  | nil => rfl
  | cons v rest ih =>
      rw [List.foldlM_cons, countAt_eq (hindex v), List.foldl_cons]
      exact ih fun w => by rw [length_countAt]; exact hindex w

def histogram (values : List Float) (binCount : Nat) : Option (List Bin) :=
  if values.isEmpty || binCount = 0 then some []
  else do
    let low := least values
    let range := greatest values - low
    let width := if range == 0 then 1 else range / Float.ofNat binCount
    let index (v : Float) : Nat := min (floorNat ((v - low) / width)) (binCount - 1)
    let counts ← values.foldlM (fun counts v => countAt (index v) counts)
      (List.replicate binCount 0)
    return counts.zipIdx.map fun (count, i) => {
      start := low + Float.ofNat i * width
      stop := low + Float.ofNat (i + 1) * width
      count }

/-- Every value has a bin, also where the bins have no width or no end. -/
theorem histogram_eq {binCount : Nat} (hpos : 0 < binCount) (values : List Float) :
    histogram values binCount = some (Statistics.histogram values binCount) := by
  unfold histogram Statistics.histogram
  by_cases hempty : values.isEmpty = true
  · rw [hempty]
    rfl
  · rw [if_neg (by simp [hempty, hpos.ne']), if_neg hempty]
    dsimp only
    rw [foldlM_countAt values fun v => by rw [List.length_replicate]; omega]
    rfl

def layout (n : Nat) (wanted : Option Nat) : Option FacetLayout :=
  if n = 0 then some ⟨0, 0, []⟩
  else do
    let cols := FacetLayout.columnCount n wanted
    let rows ← quotient (n + cols - 1) cols
    let width := 100 / Float.ofNat cols
    let height := 100 / Float.ofNat rows
    let items ← (List.range n).mapM fun index => do
      let row ← quotient index cols
      let col ← remainder index cols
      return {
        index
        row
        col
        left := Float.ofNat col * width
        top := Float.ofNat row * height
        width
        height }
    return { rows, cols, items }

/-- A grid with cells has a column to divide by. -/
@[simp]
theorem layout_eq (n : Nat) (wanted : Option Nat) :
    layout n wanted = some (FacetLayout.of n wanted) := by
  unfold layout FacetLayout.of
  split_ifs with hzero
  · rfl
  · have hcols := FacetLayout.columnCount_pos (Nat.pos_of_ne_zero hzero) wanted
    simp only [quotient_eq hcols, remainder_eq hcols, Option.bind_eq_bind, Option.bind_some,
      List.mapM_pure]
    rfl

def pick (colors : List String) (slot : Nat) : Option (Option String) :=
  if colors.isEmpty then some none
  else do
    let place ← remainder slot colors.length
    let color ← colors[place]?
    return some color

@[simp]
theorem pick_eq (colors : List String) (slot : Nat) :
    pick colors slot = some (Palette.pick? colors slot) := by
  unfold pick Palette.pick?
  split_ifs with hempty
  · rw [List.isEmpty_iff.mp hempty]
    rfl
  · have hpos : 0 < colors.length :=
      List.length_pos_iff.mpr fun hnil => hempty (List.isEmpty_iff.mpr hnil)
    rw [remainder_eq hpos, Option.bind_eq_bind, Option.bind_some,
      List.getElem?_eq_getElem (Nat.mod_lt slot hpos)]
    rfl

end Checked

end ChartCompiler
