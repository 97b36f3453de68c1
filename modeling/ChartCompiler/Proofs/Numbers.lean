import ChartCompiler.Proofs.Double.Selection
import ChartCompiler.Statistics.Quantile
import ChartCompiler.Table.Grouping

/-!
# Statistics of finite numbers are numbers

Cells are read as finite doubles. Their sums may overflow, and means and quartiles with
them, but none of these is ever NaN, so that each can be compared with any other. Lists
have fewer than `2 ^ 63` items, as all lists in memory do.
-/

namespace ChartCompiler

open Double

theorem Row.isFinite_number? {row : Row} {field : String} {v : Float}
    (hv : row.number? field = some v) : v.isFinite = true := by
  unfold Row.number? at hv
  exact (Option.filter_eq_some_iff.mp hv).2

namespace Double

/-- A count of at least one. -/
theorem real_ofNat_pos {n : Nat} (hpos : 0 < n) (hn : n < 2 ^ 63) :
    (Float.ofNat n).isFinite = true ∧ 1 ≤ real (Float.ofNat n) ∧
      real (Float.ofNat n) ≤ 2 ^ (63 : ℤ) := by
  refine (rounds_ofNat n).between isDouble_one (isDouble_zpow (by norm_num)) ?_
    (zpow_lt_limit (by norm_num)) (by exact_mod_cast hpos) (by exact_mod_cast hn.le)
  linarith [limit_pos]

end Double

namespace Statistics

/-! ## Means -/

section Means

variable {values : List Float} (hfinite : ∀ v ∈ values, v.isFinite = true)
include hfinite

theorem isNaN_foldl_add {acc : Float} (hacc : acc.isNaN = false) :
    (values.foldl (· + ·) acc).isNaN = false := by
  induction values generalizing acc with
  | nil => exact hacc
  | cons v rest ih =>
      exact ih (fun w hw => hfinite w (List.mem_cons_of_mem v hw))
        (isNaN_add hacc (hfinite v List.mem_cons_self))

theorem isNaN_sum : (sum values).isNaN = false :=
  isNaN_foldl_add hfinite rfl

/-- A mean may be infinite, but it is a number. -/
theorem isNaN_mean? (hlength : values.length < 2 ^ 63) {mean : Float}
    (hmean : mean? values = some mean) : mean.isNaN = false := by
  unfold mean? at hmean
  split_ifs at hmean with hempty
  obtain rfl := Option.some.inj hmean
  have hpos : 0 < values.length := by
    rw [List.length_pos_iff]
    exact fun hnil => hempty (List.isEmpty_iff.mpr hnil)
  obtain ⟨hsize, hone, -⟩ := real_ofNat_pos hpos hlength
  exact isNaN_div (isNaN_sum hfinite) hsize (by unfold size; linarith)

end Means

/-! ## Quantiles -/

/-- A weight: a number from zero to one. -/
structure IsPart (w : Float) : Prop where
  isFinite : w.isFinite = true
  nonneg : 0 ≤ real w
  le_one : real w ≤ 1

theorem IsPart.of_rounds {w : Float} {r : ℝ} (hw : Rounds w r) (hlow : 0 ≤ r) (hhigh : r ≤ 1) :
    IsPart w := by
  obtain ⟨hfinite, hnonneg, hle⟩ := hw.between isDouble_zero isDouble_one
    (neg_neg_of_pos limit_pos) one_lt_limit hlow hhigh
  exact ⟨hfinite, hnonneg, hle⟩

/-- What is left of one. -/
theorem IsPart.rest {w : Float} (hw : IsPart w) : IsPart (1 - w) := by
  have hone : (1 : Float).isFinite = true := rfl
  have hnonneg := hw.nonneg
  have hle := hw.le_one
  refine .of_rounds (rounds_sub hone hw.isFinite) ?_ ?_
  · rw [real_unit]
    linarith
  · rw [real_unit]
    linarith

/-- Between two ranks the weight of the upper one is a part of one. -/
theorem isPart_weight {rank : Float} (hfinite : rank.isFinite = true) (hpos : 0 ≤ real rank)
    (hlarge : real rank ≤ 2 ^ (63 : ℤ)) : IsPart (rank - Float.ofNat (floorNat rank)) := by
  obtain ⟨hwhole, hreal⟩ := real_ofNat_floorNat hfinite hpos hlarge
  have hfloor := Nat.floor_le hpos
  have hceil := Nat.lt_floor_add_one (real rank)
  have hdifference := rounds_sub hfinite hwhole
  rw [hreal] at hdifference
  exact .of_rounds hdifference (by linarith) (by linarith)

theorem IsPart.isFinite_mul {x w : Float} (hw : IsPart w) (hx : x.isFinite = true) :
    (x * w).isFinite = true := by
  have hdouble : IsDouble |real x| := by
    rcases abs_choice (real x) with habs | habs
    · rw [habs]
      exact isDouble_real hx
    · rw [habs]
      exact (isDouble_real hx).neg
  refine ((rounds_mul hx hw.isFinite).bounded hdouble (abs_real_lt hx) ?_).1
  rw [abs_mul, abs_of_nonneg hw.nonneg]
  exact mul_le_of_le_one_right (abs_nonneg _) hw.le_one

/-- A quantile is a value or a weighted mean of two; no data have the value zero. -/
theorem percentile_cases {data : List Float} (hlength : data.length < 2 ^ 63) {p : Float}
    (hp : p.isFinite = true) :
    (∃ i, percentile data p = data.getD i 0) ∨
      ∃ i j v w, IsPart v ∧ IsPart w ∧
        percentile data p = data.getD i 0 * v + data.getD j 0 * w := by
  unfold percentile
  split
  · exact .inl ⟨0, rfl⟩
  · exact .inl ⟨0, rfl⟩
  · next _ _ _ =>
      have hlimit : (2 : ℝ) ^ (63 : ℤ) < limit := zpow_lt_limit (by norm_num)
      have hbig : IsDouble (2 ^ (63 : ℤ)) := isDouble_zpow (by norm_num)
      obtain ⟨hpart, hplow, hphigh⟩ := clamp_unit hp
      obtain ⟨hcount, hclow, hchigh⟩ := (rounds_ofNat (data.length - 1)).between isDouble_zero
        hbig (neg_neg_of_pos limit_pos) hlimit (Nat.cast_nonneg _)
        (by exact_mod_cast (by omega : data.length - 1 ≤ 2 ^ 63))
      obtain ⟨hrank, hrlow, hrhigh⟩ := (rounds_mul hpart hcount).between isDouble_zero
        hbig (neg_neg_of_pos limit_pos) hlimit (mul_nonneg hplow hclow)
        ((mul_le_of_le_one_left hclow hphigh).trans hchigh)
      dsimp only
      split_ifs with hwhole
      · exact .inl ⟨_, rfl⟩
      · have hweight := isPart_weight hrank hrlow hrhigh
        exact .inr ⟨_, _, _, _, hweight.rest, hweight, rfl⟩

theorem forall_getD {P : Float → Prop} {data : List Float} (hdata : ∀ v ∈ data, P v)
    (hzero : P 0) (i : Nat) : P (data.getD i 0) := by
  rw [List.getD_eq_getElem?_getD]
  cases hi : data[i]? with
  | none => exact hzero
  | some v => exact hdata v (List.mem_of_getElem? hi)

/-- Quantiles of finite numbers are numbers. -/
theorem isNaN_percentile {data : List Float} (hfinite : ∀ v ∈ data, v.isFinite = true)
    (hlength : data.length < 2 ^ 63) {p : Float} (hp : p.isFinite = true) :
    (percentile data p).isNaN = false := by
  have hget := forall_getD hfinite rfl
  rcases percentile_cases hlength hp with ⟨i, heq⟩ | ⟨i, j, v, w, hv, hw, heq⟩
  · rw [heq]
    exact isNaN_of_isFinite (hget i)
  · rw [heq]
    exact (rounds_add (hv.isFinite_mul (hget i)) (hw.isFinite_mul (hget j))).isNaN

theorem isFinite_of_mem_sorted {values : List Float} (hfinite : ∀ v ∈ values, v.isFinite = true) :
    ∀ v ∈ sorted values, v.isFinite = true :=
  fun v hv => hfinite v ((sorted_perm values).mem_iff.mp hv)

/-- The whiskers of a box are numbers: each is a value, or else a quartile. -/
theorem isNaN_whiskers {values : List Float} (hfinite : ∀ v ∈ values, v.isFinite = true)
    (hlength : values.length < 2 ^ 63) {box : BoxSummary}
    (hbox : BoxSummary.of? values = some box) :
    box.lowerWhisker.isNaN = false ∧ box.upperWhisker.isNaN = false ∧
      ∀ v ∈ box.outliers, v.isFinite = true := by
  have hdata := isFinite_of_mem_sorted hfinite
  have hsize : (sorted values).length < 2 ^ 63 := by rwa [length_sorted]
  unfold BoxSummary.of? at hbox
  split_ifs at hbox
  obtain rfl := Option.some.inj hbox
  refine ⟨?_, ?_, fun v hv => hdata v (List.mem_of_mem_filter hv)⟩
  · dsimp only
    cases hfound : (sorted values).find? _ with
    | none => exact isNaN_percentile hdata hsize rfl
    | some v => exact isNaN_of_isFinite (hdata v (List.mem_of_find?_eq_some hfound))
  · dsimp only
    cases hfound : (sorted values).reverse.find? _ with
    | none => exact isNaN_percentile hdata hsize rfl
    | some v =>
        exact isNaN_of_isFinite (hdata v (List.mem_reverse.mp (List.mem_of_find?_eq_some hfound)))

end Statistics

end ChartCompiler
