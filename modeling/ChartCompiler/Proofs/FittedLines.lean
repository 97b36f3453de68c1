import ChartCompiler.Proofs.Magnitudes
import ChartCompiler.Proofs.RunningSums

/-!
# When a line is fitted

A line is fitted unless the spread of the first coordinates, as it is computed, is below `2 ^ -52`.
The exact spread is the sum of the squared distances of all pairs, and vanishes for equal values
only. The computed one is off by a part of the largest square that grows with the cube of the number
of points: equal values may get a line, and values that are close to one another get none. Small
multiples of a power of two have no such error.
-/

namespace ChartCompiler

open Double

namespace Statistics

/-! ## Exact spreads -/

/-- The number of values times the sum of their squares, less the square of their sum. -/
noncomputable def exactSpread (values : List ℝ) : ℝ :=
  values.length * (values.map (· ^ 2)).sum - values.sum ^ 2

theorem sum_map_sub_sq (r : ℝ) (values : List ℝ) :
    (values.map fun s => (r - s) ^ 2).sum =
      values.length * r ^ 2 - 2 * r * values.sum + (values.map (· ^ 2)).sum := by
  induction values with
  | nil => simp
  | cons s rest ih =>
      simp only [List.map_cons, List.sum_cons, List.length_cons, ih]
      push_cast
      ring

/-- One more value adds its squared distances from all others. -/
theorem exactSpread_cons (r : ℝ) (rest : List ℝ) :
    exactSpread (r :: rest) = exactSpread rest + (rest.map fun s => (r - s) ^ 2).sum := by
  rw [sum_map_sub_sq]
  unfold exactSpread
  simp only [List.map_cons, List.sum_cons, List.length_cons]
  push_cast
  ring

theorem sum_map_sub_sq_nonneg (r : ℝ) (values : List ℝ) :
    0 ≤ (values.map fun s => (r - s) ^ 2).sum :=
  List.sum_nonneg (List.forall_mem_map.mpr fun s _ => sq_nonneg (r - s))

theorem exactSpread_nonneg (values : List ℝ) : 0 ≤ exactSpread values := by
  induction values with
  | nil => simp [exactSpread]
  | cons r rest ih =>
      rw [exactSpread_cons]
      exact add_nonneg ih (sum_map_sub_sq_nonneg r rest)

theorem pairwise_eq_iff_exactSpread {values : List ℝ} :
    values.Pairwise (· = ·) ↔ exactSpread values = 0 := by
  induction values with
  | nil => simp [exactSpread]
  | cons r rest ih =>
      have hdistances : (rest.map fun s => (r - s) ^ 2).sum = 0 ↔ ∀ s ∈ rest, r = s := by
        constructor
        · intro hzero s hs
          have hsquares : ∀ d ∈ rest.map fun s => (r - s) ^ 2, 0 ≤ d :=
            List.forall_mem_map.mpr fun s _ => sq_nonneg (r - s)
          have hsquare := List.all_zero_of_le_zero_le_of_sum_eq_zero hsquares hzero
            (List.mem_map_of_mem hs)
          exact sub_eq_zero.mp (pow_eq_zero_iff two_ne_zero |>.mp hsquare)
        · intro hequal
          refine List.sum_eq_zero (List.forall_mem_map.mpr fun s hs => ?_)
          rw [hequal s hs, sub_self, sq, mul_zero]
      rw [List.pairwise_cons, ih, exactSpread_cons,
        add_eq_zero_iff_of_nonneg (exactSpread_nonneg rest) (sum_map_sub_sq_nonneg r rest),
        hdistances, and_comm]

theorem exactSpread_eq_zero_iff {values : List ℝ} :
    exactSpread values = 0 ↔ ∀ r ∈ values, ∀ s ∈ values, r = s := by
  rw [← pairwise_eq_iff_exactSpread]
  constructor
  · intro hequal r hr s hs
    exact hequal.forall_of_forall (fun _ _ => rfl) hr hs
  · exact List.pairwise_of_forall_mem_list

theorem exactSpread_map (xs : List Float) : exactSpread (xs.map real) =
    xs.length * (xs.map fun x => real x ^ 2).sum - (xs.map real).sum ^ 2 := by
  rw [exactSpread, List.length_map, List.map_map]
  rfl

/-! ## Computed spreads -/

def computedSpread (xs : List Float) : Float :=
  Float.ofNat xs.length * sum (xs.map fun x => x * x) - sum xs * sum xs

theorem fit?_eq_none_iff {points : List (Float × Float)} :
    fit? points = none ↔ points.length < 2 ∨
      Float.abs (computedSpread (points.map fun p => p.1)) < leastSpread := by
  unfold fit? computedSpread
  rw [List.length_map, List.map_map]
  by_cases hfew : points.length < 2
  · rw [if_pos hfew]
    exact iff_of_true rfl (.inl hfew)
  · rw [if_neg hfew, or_iff_right hfew]
    dsimp only
    split
    · next hnarrow => exact iff_of_true rfl hnarrow
    · next hwide => exact iff_of_false (Option.some_ne_none _) hwide

theorem abs_sum_map_sub_le {α : Type} {l : List α} {f g : α → ℝ} {d : ℝ}
    (hclose : ∀ a ∈ l, |f a - g a| ≤ d) : |(l.map f).sum - (l.map g).sum| ≤ l.length * d := by
  induction l with
  | nil => simp
  | cons a rest ih =>
      obtain ⟨hfirst, hrest⟩ := List.forall_mem_cons.mp hclose
      rw [List.map_cons, List.map_cons, List.sum_cons, List.sum_cons, add_sub_add_comm,
        List.length_cons]
      push_cast
      linarith [abs_add_le (f a - g a) ((rest.map f).sum - (rest.map g).sum), ih hrest]

theorem abs_sum_map_le {α : Type} {l : List α} {f : α → ℝ} {m : ℝ} (hsize : ∀ a ∈ l, |f a| ≤ m) :
    |(l.map f).sum| ≤ l.length * m := by
  have hbound := abs_sum_map_sub_le (f := f) (g := fun _ => 0) (fun a ha => by
    rw [sub_zero]
    exact hsize a ha)
  rwa [List.map_const', List.sum_replicate, smul_zero, sub_zero] at hbound

section Errors

variable {xs : List Float} {R : ℝ} (hmany : 2 ≤ xs.length) (hcount : xs.length ≤ 2 ^ 50)
  (hlow : 2 ^ (-511 : ℤ) ≤ R) (hbound : ∀ x ∈ xs, |real x| ≤ R)
include hmany hcount hlow hbound

omit hmany hcount hlow in
theorem sq_real_le {x : Float} (hx : x ∈ xs) : real x ^ 2 ≤ R ^ 2 := by
  rw [← sq_abs]
  exact pow_le_pow_left₀ (abs_nonneg _) (hbound x hx) 2

omit hmany hcount hlow in
theorem abs_sum_sq_le : |(xs.map fun x => real x ^ 2).sum| ≤ xs.length * R ^ 2 := by
  refine abs_sum_map_le fun x hx => ?_
  rw [abs_sq]
  exact sq_real_le hbound hx

omit hmany hcount hlow in
theorem abs_exactSpread_le : |exactSpread (xs.map real)| ≤ xs.length ^ 2 * R ^ 2 := by
  rw [abs_of_nonneg (exactSpread_nonneg _), exactSpread_map]
  calc
    xs.length * (xs.map fun x => real x ^ 2).sum - (xs.map real).sum ^ 2 ≤
        xs.length * (xs.map fun x => real x ^ 2).sum := sub_le_self _ (sq_nonneg _)
    _ ≤ xs.length * (xs.length * R ^ 2) := by
      gcongr
      exact (le_abs_self _).trans (abs_sum_sq_le hbound)
    _ = xs.length ^ 2 * R ^ 2 := by ring

omit hmany hcount hbound in
theorem least_le_sq : (2 : ℝ) ^ (-1022 : ℤ) ≤ R ^ 2 := by
  calc
    (2 : ℝ) ^ (-1022 : ℤ) = (2 ^ (-511 : ℤ)) ^ 2 := by
      rw [← zpow_natCast, ← zpow_mul]
      norm_num
    _ ≤ R ^ 2 := by gcongr

omit hbound in
/-- All products have the same scale, and the errors are small parts of it. -/
theorem scale_bounds : (2 : ℝ) ^ (-1022 : ℤ) ≤ xs.length ^ 2 * R ^ 2 ∧
    xs.length ^ 2 * R ^ 2 / 2 ^ 53 ≤ xs.length ^ 3 * R ^ 2 / 2 ^ 53 / 2 ∧
    xs.length ^ 3 * R ^ 2 / 2 ^ 53 ≤ xs.length ^ 2 * R ^ 2 / 8 := by
  have htwo : (2 : ℝ) ≤ xs.length := by exact_mod_cast hmany
  have hlength : (xs.length : ℝ) ≤ 2 ^ 50 := by exact_mod_cast hcount
  have hscale : 0 ≤ xs.length ^ 2 * R ^ 2 := by positivity
  refine ⟨?_, ?_, ?_⟩
  · refine (least_le_sq hlow).trans (le_mul_of_one_le_left (sq_nonneg R) ?_)
    exact one_le_pow₀ (by linarith)
  · have hgrown := mul_le_mul_of_nonneg_left htwo hscale
    linarith
  · have hgrown := mul_le_mul_of_nonneg_left hlength hscale
    linarith

theorem abs_sum_squares_sub_le (hsum : (sum (xs.map fun x => x * x)).isFinite = true) :
    |real (sum (xs.map fun x => x * x)) - (xs.map fun x => real x ^ 2).sum| ≤
      7 / 4 * (xs.length ^ 2 * R ^ 2 / 2 ^ 53) := by
  have htwo : (2 : ℝ) ≤ xs.length := by exact_mod_cast hmany
  have hsquare : ∀ x ∈ xs, |real (x * x) - real x ^ 2| ≤ R ^ 2 / 2 ^ 53 := by
    intro x hx
    have hproduct : (x * x).isFinite = true :=
      (isFinite_of_foldl_add hsum).2 _ (List.mem_map_of_mem hx)
    have hfinite := (isFinite_of_mul hproduct).1
    have hsize : |real x * real x| ≤ R ^ 2 := by
      rw [← sq, abs_sq]
      exact sq_real_le hbound hx
    have herror := (rounds_mul hfinite hfinite).abs_real_sub_le hproduct (r := real x ^ 2) (d := 0)
      (by rw [← sq, sub_self, abs_zero]) hsize (least_le_sq hlow)
    rwa [zero_add] at herror
  have hsize : ∀ s ∈ xs.map fun x => x * x, |real s| ≤ 17 / 16 * R ^ 2 := by
    refine List.forall_mem_map.mpr fun x hx => ?_
    have hexact := sq_real_le hbound hx
    have herror := abs_le.mp (hsquare x hx)
    refine abs_le.mpr ⟨?_, ?_⟩
    · linarith [sq_nonneg (real x), sq_nonneg R]
    · linarith [sq_nonneg R]
  have hrunning := abs_sum_sub_le hsize (by rw [List.length_map]; omega) hsum
  rw [List.length_map, List.map_map] at hrunning
  have hrounded := abs_sum_map_sub_le hsquare
  -- The squares are rounded once each, which is half as much as their sum at most.
  have hscaled : xs.length * R ^ 2 ≤ xs.length ^ 2 * R ^ 2 / 2 := by
    have hgrown := mul_le_mul_of_nonneg_right htwo (by positivity : 0 ≤ xs.length * R ^ 2)
    linarith
  calc
    |real (sum (xs.map fun x => x * x)) - (xs.map fun x => real x ^ 2).sum| ≤
        |real (sum (xs.map fun x => x * x)) - (xs.map fun x => real (x * x)).sum| +
          |(xs.map fun x => real (x * x)).sum - (xs.map fun x => real x ^ 2).sum| :=
      abs_sub_le _ _ _
    _ ≤ xs.length ^ 2 * (17 / 16 * R ^ 2) / 2 ^ 53 + xs.length * (R ^ 2 / 2 ^ 53) :=
      add_le_add hrunning hrounded
    _ ≤ 7 / 4 * (xs.length ^ 2 * R ^ 2 / 2 ^ 53) := by
      have hnonneg : 0 ≤ xs.length ^ 2 * R ^ 2 / 2 ^ 53 := by positivity
      linarith

theorem abs_scaled_squares_sub_le
    (hproduct : (Float.ofNat xs.length * sum (xs.map fun x => x * x)).isFinite = true) :
    |real (Float.ofNat xs.length * sum (xs.map fun x => x * x)) -
      xs.length * (xs.map fun x => real x ^ 2).sum| ≤
        11 / 4 * (xs.length ^ 3 * R ^ 2 / 2 ^ 53) := by
  obtain ⟨hsize, hsum⟩ := isFinite_of_mul hproduct
  have hreal := (Exact.ofNat (n := xs.length) (by omega)).real_eq
  have hsquares := abs_sum_squares_sub_le hmany hcount hlow hbound hsum
  have htotal := abs_sum_sq_le hbound
  have hrounds := rounds_mul hsize hsum
  rw [hreal] at hrounds
  obtain ⟨hleast, hdouble, hsmall⟩ := scale_bounds hmany hcount hlow
  generalize (xs.map fun x => real x ^ 2).sum = total at hsquares htotal ⊢
  generalize real (sum (xs.map fun x => x * x)) = found at hsquares hrounds
  have hscaled : |xs.length * found - xs.length * total| ≤
      7 / 4 * (xs.length ^ 3 * R ^ 2 / 2 ^ 53) := by
    rw [← mul_sub, abs_mul, Nat.abs_cast]
    calc
      xs.length * |found - total| ≤ xs.length * (7 / 4 * (xs.length ^ 2 * R ^ 2 / 2 ^ 53)) := by
        gcongr
      _ = 7 / 4 * (xs.length ^ 3 * R ^ 2 / 2 ^ 53) := by ring
  have hlarge : |xs.length * total| ≤ xs.length ^ 2 * R ^ 2 := by
    rw [abs_mul, Nat.abs_cast]
    calc
      xs.length * |total| ≤ xs.length * (xs.length * R ^ 2) := by gcongr
      _ = xs.length ^ 2 * R ^ 2 := by ring
  have hwithin : |xs.length * found| ≤ 2 * (xs.length ^ 2 * R ^ 2) := by
    linarith [abs_sub_abs_le_abs_sub (xs.length * found) (xs.length * total)]
  have hnonneg := (zpow_two_pos (-1022)).le.trans hleast
  have herror := hrounds.abs_real_sub_le hproduct hscaled hwithin (by linarith)
  linarith

theorem abs_squared_sum_sub_le (hproduct : (sum xs * sum xs).isFinite = true) :
    |real (sum xs * sum xs) - (xs.map real).sum ^ 2| ≤
      25 / 8 * (xs.length ^ 3 * R ^ 2 / 2 ^ 53) := by
  obtain ⟨hsum, -⟩ := isFinite_of_mul hproduct
  have hrunning := abs_sum_sub_le hbound (by omega) hsum
  have htotal : |(xs.map real).sum| ≤ xs.length * R := abs_sum_map_le hbound
  have hrounds := rounds_mul hsum hsum
  obtain ⟨hleast, hdouble, hsmall⟩ := scale_bounds hmany hcount hlow
  generalize (xs.map real).sum = total at hrunning htotal ⊢
  generalize real (sum xs) = found at hrunning hrounds
  have hR : 0 ≤ R := (zpow_two_pos _).le.trans hlow
  have hlength : (xs.length : ℝ) ≤ 2 ^ 50 := by exact_mod_cast hcount
  have hboth : |found + total| ≤ 17 / 8 * (xs.length * R) := by
    have hpart := mul_le_mul_of_nonneg_right hlength (by positivity : 0 ≤ xs.length * R)
    calc
      |found + total| = |(found - total) + 2 * total| := by ring_nf
      _ ≤ |found - total| + 2 * |total| := by
        refine (abs_add_le _ _).trans_eq ?_
        rw [abs_mul, abs_two]
      _ ≤ 17 / 8 * (xs.length * R) := by linarith
  have hscaled : |found * found - total ^ 2| ≤ 17 / 8 * (xs.length ^ 3 * R ^ 2 / 2 ^ 53) := by
    rw [← sq, sq_sub_sq, abs_mul]
    calc
      |found + total| * |found - total| ≤
          17 / 8 * (xs.length * R) * (xs.length ^ 2 * R / 2 ^ 53) := by gcongr
      _ = 17 / 8 * (xs.length ^ 3 * R ^ 2 / 2 ^ 53) := by ring
  have hlarge : |total ^ 2| ≤ xs.length ^ 2 * R ^ 2 := by
    rw [abs_pow, ← mul_pow]
    exact pow_le_pow_left₀ (abs_nonneg _) htotal 2
  have hwithin : |found * found| ≤ 2 * (xs.length ^ 2 * R ^ 2) := by
    linarith [abs_sub_abs_le_abs_sub (found * found) (total ^ 2)]
  have hnonneg := (zpow_two_pos (-1022)).le.trans hleast
  have herror := hrounds.abs_real_sub_le hproduct hscaled hwithin (by linarith)
  linarith

/-- The error of the computed spread grows with the cube of the number of values. -/
theorem abs_computedSpread_sub_le (hspread : (computedSpread xs).isFinite = true) :
    |real (computedSpread xs) - exactSpread (xs.map real)| ≤ xs.length ^ 3 * R ^ 2 / 2 ^ 50 := by
  obtain ⟨hfirst, hsecond⟩ := isFinite_of_sub hspread
  have hfirstError := abs_scaled_squares_sub_le hmany hcount hlow hbound hfirst
  have hsecondError := abs_squared_sum_sub_le hmany hcount hlow hbound hsecond
  have hrounds := rounds_sub hfirst hsecond
  obtain ⟨hleast, hdouble, hsmall⟩ := scale_bounds hmany hcount hlow
  have hsize := abs_exactSpread_le hbound
  rw [exactSpread_map] at hsize ⊢
  generalize real (Float.ofNat xs.length * sum (xs.map fun x => x * x)) = first at *
  generalize real (sum xs * sum xs) = second at *
  generalize xs.length * (xs.map fun x => real x ^ 2).sum = squares at *
  generalize (xs.map real).sum ^ 2 = square at *
  have hscaled : |first - second - (squares - square)| ≤
      47 / 8 * (xs.length ^ 3 * R ^ 2 / 2 ^ 53) := by
    rw [sub_sub_sub_comm]
    linarith [abs_sub (first - squares) (second - square)]
  have hwithin : |first - second| ≤ 2 * (xs.length ^ 2 * R ^ 2) := by
    linarith [abs_sub_abs_le_abs_sub (first - second) (squares - square)]
  have hnonneg := (zpow_two_pos (-1022)).le.trans hleast
  have herror := hrounds.abs_real_sub_le hspread hscaled hwithin (by linarith)
  rw [computedSpread]
  linarith

end Errors

theorem isFinite_computedSpread {xs : List Float} (hcount : xs.length ≤ 2 ^ 50)
    (hfinite : ∀ x ∈ xs, x.isFinite = true) (hbound : ∀ x ∈ xs, |real x| ≤ 2 ^ 460) :
    (computedSpread xs).isFinite = true := by
  have hx : ∀ x ∈ xs, Bounded x 460 := fun x hx => ⟨hfinite x hx, hbound x hx⟩
  have hsquare : ∀ s ∈ xs.map fun x => x * x, Bounded s 920 :=
    List.forall_mem_map.mpr fun x hmem => (hx x hmem).mul (hx x hmem) (by norm_num)
  have hsum := bounded_sum hx hcount (by norm_num) (by norm_num)
  have hsquares := bounded_sum hsquare (by rwa [List.length_map]) (by norm_num) (by norm_num)
  have hscaled := (Bounded.ofNat hcount (by norm_num)).mul hsquares (by norm_num)
  exact (hscaled.sub (hsum.mul hsum (by norm_num)) (by norm_num)).isFinite

/-! ## Multiples of a power of two -/

section Multiples

theorem sum_map_multiples {α : Type} (l : List α) (f : α → ℤ) (r : ℝ) :
    (l.map fun a => (f a : ℝ) * r).sum = ((l.map f).sum : ℤ) * r := by
  rw [List.sum_map_mul_right, Int.cast_list_sum, List.map_map]
  rfl

theorem real_of_multiple {x : Float} {r : ℝ} {k e : ℤ} (hx : Rounds x r)
    (hfinite : x.isFinite = true) (hr : r = k * 2 ^ e) (hk : |k| ≤ 2 ^ 53) (he : -1074 ≤ e) :
    real x = k * 2 ^ e := by
  rw [hx.real_of_isFinite hfinite, hr, nearest_of_isDouble (isDouble_mul_zpow hk he)]

/-- Sums of small multiples are exact. -/
theorem sum_of_multiples {α : Type} {l : List α} {v : α → Float} {f : α → ℤ} {e : ℤ}
    (hv : ∀ a ∈ l, real (v a) = f a * 2 ^ e) (hsmall : (l.map fun a => |f a|).sum ≤ 2 ^ 53)
    (he : -1074 ≤ e) (hsum : (sum (l.map v)).isFinite = true) :
    real (sum (l.map v)) = (l.map f).sum * 2 ^ e := by
  have hscaled : ∀ part : List α, part ⊆ l →
      ((part.map v).map real).sum = ((part.map f).sum : ℤ) * 2 ^ e := by
    intro part hpart
    rw [← sum_map_multiples, List.map_map]
    exact congrArg List.sum (List.map_congr_left fun a ha => hv a (hpart ha))
  have hpartial : ∀ k, |((l.take k).map f).sum| ≤ 2 ^ 53 := by
    intro k
    calc
      |((l.take k).map f).sum| ≤ (((l.take k).map f).map abs).sum :=
        List.le_sum_of_subadditive abs abs_zero.le abs_add_le _
      _ = ((l.take k).map fun a => |f a|).sum := by rw [List.map_map]; rfl
      _ ≤ (l.map fun a => |f a|).sum :=
        ((List.take_sublist k l).map _).sum_le_sum
          (List.forall_mem_map.mpr fun a _ => abs_nonneg (f a))
      _ ≤ 2 ^ 53 := hsmall
  rw [sum_eq ?_ hsum, hscaled l (List.Subset.refl l)]
  intro k _
  rw [← List.map_take, ← List.map_take, hscaled _ (List.take_subset k l)]
  exact isDouble_mul_zpow (hpartial k) he

variable {xs : List Float} {f : Float → ℤ} {g : ℤ} (hg : -537 ≤ g)
  (hxs : ∀ x ∈ xs, real x = f x * 2 ^ g)
  (hsmall : xs.length * (xs.map fun x => f x ^ 2).sum ≤ 2 ^ 53)
include hxs

theorem real_sq_of_multiples {x : Float} (hx : x ∈ xs) :
    real x ^ 2 = (f x ^ 2 : ℤ) * 2 ^ (2 * g) := by
  rw [hxs x hx, mul_pow, ← zpow_natCast (2 ^ g), ← zpow_mul, mul_comm g]
  push_cast
  rfl

theorem exactSpread_of_multiples : exactSpread (xs.map real) =
    (xs.length * (xs.map fun x => f x ^ 2).sum - (xs.map f).sum ^ 2 : ℤ) * 2 ^ (2 * g) := by
  rw [exactSpread_map, List.map_congr_left fun x hx => real_sq_of_multiples hxs hx,
    List.map_congr_left hxs, sum_map_multiples, sum_map_multiples, mul_pow,
    ← zpow_natCast (2 ^ g), ← zpow_mul, mul_comm g]
  push_cast
  ring

include hg hsmall

/-- No step of the computation is rounded. -/
theorem real_computedSpread (hne : xs ≠ []) (hcount : xs.length ≤ 2 ^ 50)
    (hspread : (computedSpread xs).isFinite = true) :
    real (computedSpread xs) = exactSpread (xs.map real) := by
  obtain ⟨hproduct, hsquared⟩ := isFinite_of_sub hspread
  obtain ⟨hsize, hsquares⟩ := isFinite_of_mul hproduct
  obtain ⟨hsum, -⟩ := isFinite_of_mul hsquared
  have hpos : (1 : ℤ) ≤ xs.length := by exact_mod_cast List.length_pos_iff.mpr hne
  have hterms : ∀ t ∈ xs.map fun x => f x ^ 2, 0 ≤ t :=
    List.forall_mem_map.mpr fun x _ => sq_nonneg (f x)
  have htotal : (xs.map fun x => f x ^ 2).sum ≤ 2 ^ 53 :=
    (le_mul_of_one_le_left (List.sum_nonneg hterms) hpos).trans hsmall
  have hterm : ∀ x ∈ xs, |f x ^ 2| ≤ 2 ^ 53 := by
    intro x hx
    rw [abs_of_nonneg (sq_nonneg _)]
    exact (List.single_le_sum hterms _ (List.mem_map_of_mem hx)).trans htotal
  have hsumReal : real (sum xs) = (xs.map f).sum * 2 ^ g := by
    -- Integers are at most their squares, and so the sum of squares bounds all running sums.
    have hmagnitudes : (xs.map fun x => |f x|).sum ≤ (xs.map fun x => f x ^ 2).sum :=
      List.sum_le_sum fun x _ => (Int.le_self_sq |f x|).trans_eq (sq_abs _)
    have hreal := sum_of_multiples (v := id) hxs (hmagnitudes.trans htotal) (by omega)
      (by rwa [List.map_id])
    rwa [List.map_id] at hreal
  have hsquaresReal : real (sum (xs.map fun x => x * x)) =
      (xs.map fun x => f x ^ 2).sum * 2 ^ (2 * g) := by
    refine sum_of_multiples (fun x hx => ?_) ?_ (by omega) hsquares
    · have hsquare := (isFinite_of_foldl_add hsquares).2 _ (List.mem_map_of_mem hx)
      have hfinite := (isFinite_of_mul hsquare).1
      refine real_of_multiple (rounds_mul hfinite hfinite) hsquare ?_ (hterm x hx) (by omega)
      rw [← sq, real_sq_of_multiples hxs hx]
    · simp only [abs_sq]
      exact htotal
  have hspreadExact := exactSpread_of_multiples hxs
  have hnonneg := exactSpread_nonneg (xs.map real)
  rw [hspreadExact] at hnonneg ⊢
  generalize (xs.map fun x => f x ^ 2).sum = squares at *
  generalize (xs.map f).sum = total at *
  have hrest : 0 ≤ xs.length * squares - total ^ 2 := by
    exact_mod_cast nonneg_of_mul_nonneg_left hnonneg (zpow_two_pos _)
  have hsquare := sq_nonneg total
  have hfirst : real (Float.ofNat xs.length * sum (xs.map fun x => x * x)) =
      (xs.length * squares : ℤ) * 2 ^ (2 * g) := by
    refine real_of_multiple (rounds_mul hsize hsquares) hproduct ?_ ?_ (by omega)
    · rw [(Exact.ofNat (hcount.trans (by norm_num))).real_eq, hsquaresReal]
      push_cast
      ring
    · exact abs_le.mpr (by omega)
  have hsecond : real (sum xs * sum xs) = (total ^ 2 : ℤ) * 2 ^ (2 * g) := by
    refine real_of_multiple (rounds_mul hsum hsum) hsquared ?_ ?_ (by omega)
    · rw [hsumReal, two_mul g, zpow_two_add]
      push_cast
      ring
    · exact abs_le.mpr (by omega)
  refine real_of_multiple (rounds_sub hproduct hsquared) hspread ?_ (abs_le.mpr (by omega))
    (by omega)
  rw [hfirst, hsecond]
  push_cast
  ring

end Multiples

/-- The values are multiples of a power of two, and so small that their products are as well. -/
structure OnGrid (xs : List Float) (g : ℤ) : Prop where
  least : -537 ≤ g
  multiples : ∀ x ∈ xs, ∃ k : ℤ, real x = k * 2 ^ g
  within : ∀ x ∈ xs, |real x| ≤ 2 ^ 460
  small : xs.length * (xs.map fun x => real x ^ 2).sum ≤ 2 ^ (53 + 2 * g)

def AllEqual (xs : List Float) : Prop :=
  ∀ x ∈ xs, ∀ y ∈ xs, real x = real y

theorem allEqual_of_length_lt {xs : List Float} (hfew : xs.length < 2) : AllEqual xs := by
  match xs with
  | [] => exact fun x hx => absurd hx List.not_mem_nil
  | [x] =>
      intro y hy z hz
      rw [List.mem_singleton.mp hy, List.mem_singleton.mp hz]
  | _ :: _ :: _ => exact absurd hfew (by simp)

theorem exactSpread_map_eq_zero_iff {xs : List Float} :
    exactSpread (xs.map real) = 0 ↔ AllEqual xs := by
  rw [exactSpread_eq_zero_iff, List.forall_mem_map]
  simp only [List.forall_mem_map]
  rfl

/-- On a grid of at least `2 ^ -26` only a spread of zero is below the threshold. -/
theorem OnGrid.spread {xs : List Float} {g : ℤ} (hgrid : OnGrid xs g) (hne : xs ≠ [])
    (hcount : xs.length ≤ 2 ^ 50) (hfinite : ∀ x ∈ xs, x.isFinite = true) :
    (computedSpread xs).isFinite = true ∧
      real (computedSpread xs) = exactSpread (xs.map real) ∧
      (-26 ≤ g → (exactSpread (xs.map real) < 2 ^ (-52 : ℤ) ↔ AllEqual xs)) := by
  have hmultiples := hgrid.multiples
  choose! f hf using hmultiples
  have hsmall : xs.length * (xs.map fun x => f x ^ 2).sum ≤ 2 ^ 53 := by
    have hscaled := hgrid.small
    rw [List.map_congr_left fun x hx => real_sq_of_multiples hf hx, sum_map_multiples,
      zpow_two_add, ← mul_assoc] at hscaled
    exact_mod_cast le_of_mul_le_mul_right hscaled (zpow_two_pos _)
  have hspread := isFinite_computedSpread hcount hfinite hgrid.within
  refine ⟨hspread, real_computedSpread hgrid.least hf hsmall hne hcount hspread, fun hg => ?_⟩
  have hnonneg := exactSpread_nonneg (xs.map real)
  have hunit : (2 : ℝ) ^ (-52 : ℤ) ≤ 2 ^ (2 * g) := zpow_two_le (by omega)
  rw [← exactSpread_map_eq_zero_iff]
  rw [exactSpread_of_multiples hf] at hnonneg ⊢
  generalize (xs.length * (xs.map fun x => f x ^ 2).sum - (xs.map f).sum ^ 2 : ℤ) = k at hnonneg ⊢
  constructor
  · intro hnarrow
    have hlow : 0 ≤ k := by exact_mod_cast nonneg_of_mul_nonneg_left hnonneg (zpow_two_pos _)
    have hhigh : k < 1 := by
      exact_mod_cast (mul_lt_iff_lt_one_left (zpow_two_pos _)).mp (hnarrow.trans_le hunit)
    rw [show k = 0 by omega, Int.cast_zero, zero_mul]
  · intro hzero
    rw [hzero]
    exact zpow_two_pos _

/-! ## Fits -/

/-- The first coordinates that have a second one. -/
def commonPrefix (xs ys : List Float) : List Float :=
  xs.take ys.length

theorem map_fst_zip (xs ys : List Float) : (xs.zip ys).map (fun p => p.1) = commonPrefix xs ys := by
  unfold commonPrefix
  induction xs generalizing ys with
  | nil => rw [List.take_nil]; rfl
  | cons x rest ih =>
      cases ys with
      | nil => rfl
      | cons y others => exact congrArg (x :: ·) (ih others)

theorem fit?_zip_eq_none_iff (xs ys : List Float) :
    fit? (xs.zip ys) = none ↔ (commonPrefix xs ys).length < 2 ∨
      Float.abs (computedSpread (commonPrefix xs ys)) < leastSpread := by
  rw [fit?_eq_none_iff, map_fst_zip, ← map_fst_zip, List.length_map]

theorem abs_lt_leastSpread_iff {x : Float} (hx : x.isFinite = true) :
    Float.abs x < leastSpread ↔ |real x| < 2 ^ (-52 : ℤ) := by
  rw [real_lt_real_iff (by rwa [isFinite_abs]) rfl, real_abs, real_leastSpread]

section Thresholds

variable {xs : List Float} {R : ℝ} (hmany : 2 ≤ xs.length) (hcount : xs.length ≤ 2 ^ 50)
  (hlow : 2 ^ (-511 : ℤ) ≤ R) (hbound : ∀ x ∈ xs, |real x| ≤ R)
include hmany hcount hlow hbound

/-- A spread that overflows is not below the threshold either. -/
theorem not_lt_leastSpread (hwide : 2 ^ (-52 : ℤ) + xs.length ^ 3 * R ^ 2 / 2 ^ 50 ≤
    exactSpread (xs.map real)) : ¬Float.abs (computedSpread xs) < leastSpread := by
  intro hnarrow
  have hspread : (computedSpread xs).isFinite = true :=
    isFinite_of_abs_le (y := leastSpread) rfl (le_of_lt' hnarrow)
  obtain ⟨hbelow, habove⟩ :=
    abs_le.mp (abs_computedSpread_sub_le hmany hcount hlow hbound hspread)
  rw [abs_lt_leastSpread_iff hspread] at hnarrow
  have hleast := (abs_lt.mp hnarrow).2
  generalize (2 : ℝ) ^ (-52 : ℤ) = least at hwide hleast
  linarith

theorem lt_leastSpread (hfinite : ∀ x ∈ xs, x.isFinite = true)
    (hnarrow : exactSpread (xs.map real) + xs.length ^ 3 * R ^ 2 / 2 ^ 50 < 2 ^ (-52 : ℤ)) :
    Float.abs (computedSpread xs) < leastSpread := by
  have hnonneg := exactSpread_nonneg (xs.map real)
  -- The bound is small if the error is, and then nothing overflows.
  have hR : |R| ≤ 1 := by
    have hlength : (1 : ℝ) ≤ xs.length ^ 3 :=
      one_le_pow₀ (by exact_mod_cast (by omega : 1 ≤ xs.length))
    have hsquare : R ^ 2 ≤ xs.length ^ 3 * R ^ 2 := le_mul_of_one_le_left (sq_nonneg R) hlength
    rw [abs_le_one_iff_mul_self_le_one, ← sq]
    norm_num at hnarrow
    linarith
  have hspread := isFinite_computedSpread hcount hfinite fun x hx =>
    (hbound x hx).trans (((le_abs_self R).trans hR).trans (one_le_pow₀ one_le_two))
  obtain ⟨hbelow, habove⟩ :=
    abs_le.mp (abs_computedSpread_sub_le hmany hcount hlow hbound hspread)
  rw [abs_lt_leastSpread_iff hspread]
  generalize (2 : ℝ) ^ (-52 : ℤ) = least at hnarrow ⊢
  exact abs_lt.mpr ⟨by linarith, by linarith⟩

end Thresholds

/-- Fewer than two points have no line. Of more, those have one whose exact spread exceeds `2 ^ -52`
by the error of its computation, and those have none that fall short of it by this error. On a grid
the exact spread is compared itself, and if the grid is not finer than `2 ^ -26` only points that are
all above one another have no line. -/
theorem fit?_by_spread {xs ys : List Float} (hcount : (commonPrefix xs ys).length ≤ 2 ^ 50)
    (hfinite : ∀ x ∈ commonPrefix xs ys, x.isFinite = true) :
    ((commonPrefix xs ys).length < 2 → fit? (xs.zip ys) = none) ∧
      (exactSpread ((commonPrefix xs ys).map real) = 0 ↔ AllEqual (commonPrefix xs ys)) ∧
      (∀ R : ℝ, 2 ^ (-511 : ℤ) ≤ R → (∀ x ∈ commonPrefix xs ys, |real x| ≤ R) →
        (2 ^ (-52 : ℤ) + (commonPrefix xs ys).length ^ 3 * R ^ 2 / 2 ^ 50 ≤
            exactSpread ((commonPrefix xs ys).map real) → (fit? (xs.zip ys)).isSome = true) ∧
          (exactSpread ((commonPrefix xs ys).map real) +
              (commonPrefix xs ys).length ^ 3 * R ^ 2 / 2 ^ 50 < 2 ^ (-52 : ℤ) →
            fit? (xs.zip ys) = none)) ∧
      ∀ g : ℤ, OnGrid (commonPrefix xs ys) g →
        (fit? (xs.zip ys) = none ↔ (commonPrefix xs ys).length < 2 ∨
          exactSpread ((commonPrefix xs ys).map real) < 2 ^ (-52 : ℤ)) ∧
        (-26 ≤ g → (fit? (xs.zip ys) = none ↔
          (commonPrefix xs ys).length < 2 ∨ AllEqual (commonPrefix xs ys))) := by
  have hnone := fit?_zip_eq_none_iff xs ys
  generalize commonPrefix xs ys = data at *
  refine ⟨fun hfew => hnone.mpr (.inl hfew), exactSpread_map_eq_zero_iff,
    fun R hlow hbound => ⟨fun hwide => ?_, fun hnarrow => ?_⟩, fun g hgrid => ?_⟩
  · have hmany : 2 ≤ data.length := by
      by_contra hfew
      rw [exactSpread_map_eq_zero_iff.mpr (allEqual_of_length_lt (not_le.mp hfew))] at hwide
      have hpositive : (0 : ℝ) < 2 ^ (-52 : ℤ) := zpow_two_pos _
      have herror : 0 ≤ data.length ^ 3 * R ^ 2 / 2 ^ 50 := by positivity
      linarith
    rw [← Option.ne_none_iff_isSome, ne_eq, hnone, not_or, not_lt]
    exact ⟨hmany, not_lt_leastSpread hmany hcount hlow hbound hwide⟩
  · rw [hnone, or_iff_not_imp_left, not_lt]
    exact fun hmany => lt_leastSpread hmany hcount hlow hbound hfinite hnarrow
  · have hiff : fit? (xs.zip ys) = none ↔ data.length < 2 ∨
        exactSpread (data.map real) < 2 ^ (-52 : ℤ) := by
      rw [hnone]
      refine or_congr_right' fun hfew => ?_
      have hne : data ≠ [] := by
        rintro rfl
        exact hfew two_pos
      obtain ⟨hspread, hreal, -⟩ := hgrid.spread hne hcount hfinite
      rw [abs_lt_leastSpread_iff hspread, hreal, abs_of_nonneg (exactSpread_nonneg _)]
    refine ⟨hiff, fun hg => hiff.trans (or_congr_right' fun hfew => ?_)⟩
    have hne : data ≠ [] := by
      rintro rfl
      exact hfew two_pos
    exact (hgrid.spread hne hcount hfinite).2.2 hg

theorem fit?_by_spread_whole :
    (commonPrefix [1, 2, 3] [3, 5, 7, 9]).length ≤ 2 ^ 50 ∧
      (∀ x ∈ commonPrefix [1, 2, 3] [3, 5, 7, 9], x.isFinite = true) ∧
      OnGrid (commonPrefix [1, 2, 3] [3, 5, 7, 9]) 0 ∧
      ¬AllEqual (commonPrefix [1, 2, 3] [3, 5, 7, 9]) ∧
      fit? ([1, 2, 3].zip [3, 5, 7, 9]) ≠ none := by
  have hreal : ∀ n ≤ 3, real (Float.ofNat n) = n := fun n hn => (exact_ofNat (by omega)).2
  have hdata : commonPrefix [1, 2, 3] [3, 5, 7, 9] = [1, 2, 3].map Float.ofNat := rfl
  have hcount : (commonPrefix [1, 2, 3] [3, 5, 7, 9]).length ≤ 2 ^ 50 := by decide
  have hfinite : ∀ x ∈ commonPrefix [1, 2, 3] [3, 5, 7, 9], x.isFinite = true := by
    decide +kernel
  have hvalue : ∀ x ∈ commonPrefix [1, 2, 3] [3, 5, 7, 9], ∃ n ≤ 3, real x = (n : ℕ) := by
    rw [hdata, List.forall_mem_map]
    intro n hn
    have hsmall : n ≤ 3 := by revert n; decide
    exact ⟨n, hsmall, hreal n hsmall⟩
  have hgrid : OnGrid (commonPrefix [1, 2, 3] [3, 5, 7, 9]) 0 := by
    refine ⟨by norm_num, fun x hx => ?_, fun x hx => ?_, ?_⟩
    · obtain ⟨n, -, hn⟩ := hvalue x hx
      exact ⟨n, by rw [hn, zpow_zero, mul_one]; rfl⟩
    · obtain ⟨n, hsmall, hn⟩ := hvalue x hx
      rw [hn, Nat.abs_cast]
      calc
        (n : ℝ) ≤ (2 ^ 2 : ℕ) := Nat.cast_le.mpr (hsmall.trans (by norm_num))
        _ = 2 ^ 2 := by norm_num
        _ ≤ 2 ^ 460 := pow_le_pow_right₀ one_le_two (by norm_num)
    · rw [hdata, List.map_map]
      simp only [List.map_cons, List.map_nil, Function.comp_apply]
      rw [hreal 1 (by norm_num), hreal 2 (by norm_num), hreal 3 (by norm_num)]
      norm_num
  have happart : ¬AllEqual (commonPrefix [1, 2, 3] [3, 5, 7, 9]) := by
    intro hequal
    have hsame := hequal (Float.ofNat 1) (by rw [hdata]; simp) (Float.ofNat 2) (by rw [hdata]; simp)
    rw [hreal 1 (by norm_num), hreal 2 (by norm_num)] at hsame
    norm_num at hsame
  obtain ⟨-, -, -, hfit⟩ := fit?_by_spread hcount hfinite
  refine ⟨hcount, hfinite, hgrid, happart, ?_⟩
  rw [ne_eq, (hfit 0 hgrid).2 (by norm_num), not_or]
  exact ⟨by decide, happart⟩

/-- The threshold lets a column of points pass whose computed spread is not zero, and stops points
that are a billionth apart. -/
theorem fit?_against_threshold :
    (∀ x ∈ [0.3, 0.3, 0.3], x = (0.3 : Float)) ∧
      (fit? ([0.3, 0.3, 0.3].zip [0, 1, 2])).isSome = true ∧
      (0 : Float) < 1e-9 ∧ fit? ([0, 1e-9].zip [0, 1]) = none :=
  ⟨by simp, by decide +kernel, by decide +kernel, by
    rw [fit?_zip_eq_none_iff]
    exact .inr (by decide +kernel)⟩

end Statistics

end ChartCompiler
