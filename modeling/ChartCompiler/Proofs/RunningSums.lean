import ChartCompiler.Proofs.Double.Sums
import ChartCompiler.Statistics.Moments

/-!
# Running sums

A sum runs from left to right and rounds after each value. It is off from the exact sum by an error
that grows with the square of its length, and it is exact if all exact running sums are doubles.
-/

namespace ChartCompiler

open Double

namespace Double

/-- The double is finite and stands for the number. -/
structure Exact (x : Float) (r : ℝ) : Prop where
  isFinite : x.isFinite = true
  real_eq : real x = r

theorem isDouble_abs {r : ℝ} (hr : IsDouble r) : IsDouble |r| := by
  rcases abs_choice r with habs | habs
  · rwa [habs]
  · rw [habs]
    exact hr.neg

namespace Exact

variable {x y : Float} {r s : ℝ}

theorem isDouble (hx : Exact x r) : IsDouble r := by
  rw [← hx.real_eq]
  exact isDouble_real hx.isFinite

theorem abs_lt (hx : Exact x r) : |r| < limit := by
  rw [← hx.real_eq]
  exact abs_real_lt hx.isFinite

theorem of_rounds (hx : Rounds x r) (hr : IsDouble r) (hlimit : |r| < limit) : Exact x r :=
  ⟨(hx.exact hr hlimit).1, (hx.exact hr hlimit).2⟩

theorem zero_of_rounds (hx : Rounds x 0) : Exact x 0 :=
  of_rounds hx isDouble_zero (by rw [abs_zero]; exact limit_pos)

theorem ofNat {n : ℕ} (hn : n ≤ 2 ^ 53) : Exact (Float.ofNat n) n :=
  ⟨(exact_ofNat hn).1, (exact_ofNat hn).2⟩

end Exact

end Double

namespace Statistics

/-- Sums start at a zero. -/
theorem exact_start : Exact (-0.0) 0 := by
  refine ⟨rfl, ?_⟩
  rw [real_neg]
  exact (congrArg _ real_zero).trans neg_zero

/-- A finite sum has finite running sums and finite values. -/
theorem isFinite_of_foldl_add {values : List Float} {acc : Float}
    (hsum : (values.foldl (· + ·) acc).isFinite = true) :
    acc.isFinite = true ∧ ∀ x ∈ values, x.isFinite = true := by
  induction values generalizing acc with
  | nil => exact ⟨hsum, List.forall_mem_nil _⟩
  | cons v rest ih =>
      obtain ⟨hnext, hrest⟩ := ih hsum
      obtain ⟨hacc, hv⟩ := isFinite_of_add hnext
      exact ⟨hacc, List.forall_mem_cons.mpr ⟨hv, hrest⟩⟩

section Errors

variable {values : List Float} {m : ℝ} (hvalues : ∀ x ∈ values, |real x| ≤ m)
include hvalues

/-- After `k` values of at most `m` the exact sum is at most `k m`, and the running sum is off by
`k²` roundings of `m`. -/
theorem abs_foldl_add_sub_le (acc : Float) (k : ℕ) (exact : ℝ) (hexact : |exact| ≤ k * m)
    (hacc : |real acc - exact| ≤ k ^ 2 * m / 2 ^ 53) (hcount : k + values.length ≤ 2 ^ 53)
    (hsum : (values.foldl (· + ·) acc).isFinite = true) :
    |real (values.foldl (· + ·) acc) - (exact + (values.map real).sum)| ≤
      (k + values.length : ℕ) ^ 2 * m / 2 ^ 53 := by
  induction values generalizing acc k exact with
  | nil => rwa [List.map_nil, List.sum_nil, add_zero]
  | cons v rest ih =>
      rw [List.length_cons] at hcount ⊢
      rw [List.foldl_cons] at hsum ⊢
      have hv := hvalues v List.mem_cons_self
      have hm : 0 ≤ m := (abs_nonneg _).trans hv
      have hnext : (acc + v).isFinite = true := (isFinite_of_foldl_add hsum).1
      obtain ⟨haccFinite, hvFinite⟩ := isFinite_of_add hnext
      have hreal := (rounds_add haccFinite hvFinite).real_of_isFinite hnext
      have hround := abs_nearest_add_sub_le (isDouble_real haccFinite) (isDouble_real hvFinite)
      have htotal : |exact + real v| ≤ (k + 1 : ℕ) * m := by
        push_cast
        linarith [abs_add_le exact (real v)]
      have hsize : |real acc + real v| ≤ (k + 1) * m + k ^ 2 * m / 2 ^ 53 := by
        calc
          |real acc + real v| = |(real acc - exact) + (exact + real v)| := by ring_nf
          _ ≤ |real acc - exact| + |exact + real v| := abs_add_le _ _
          _ ≤ (k + 1) * m + k ^ 2 * m / 2 ^ 53 := by
            push_cast at htotal
            linarith
      have hk : (k : ℝ) ≤ 2 ^ 53 := by exact_mod_cast (by omega : k ≤ 2 ^ 53)
      have hstep : |real (acc + v) - (exact + real v)| ≤ (k + 1 : ℕ) ^ 2 * m / 2 ^ 53 := by
        rw [hreal]
        push_cast
        calc
          |nearest (real acc + real v) - (exact + real v)| ≤
              |nearest (real acc + real v) - (real acc + real v)| +
                |real acc + real v - (exact + real v)| := abs_sub_le _ _ _
          _ = |nearest (real acc + real v) - (real acc + real v)| + |real acc - exact| := by
            rw [add_sub_add_right_eq_sub]
          _ ≤ ((k + 1) * m + k ^ 2 * m / 2 ^ 53) / 2 ^ 53 + k ^ 2 * m / 2 ^ 53 := by
            linarith
          _ ≤ (k + 1) ^ 2 * m / 2 ^ 53 := by
            have hsquare : (k : ℝ) ^ 2 / 2 ^ 53 ≤ k := by
              rw [div_le_iff₀ (by positivity), sq]
              exact mul_le_mul_of_nonneg_left hk (Nat.cast_nonneg k)
            have hscaled := mul_le_mul_of_nonneg_right hsquare hm
            rw [← add_div]
            gcongr
            linarith
      rw [show k + (rest.length + 1) = k + 1 + rest.length by omega] at hcount ⊢
      rw [List.map_cons, List.sum_cons, ← add_assoc]
      exact ih (fun x hx => hvalues x (List.mem_cons_of_mem v hx)) _ _ _ htotal hstep hcount hsum

theorem abs_sum_sub_le (hcount : values.length ≤ 2 ^ 53) (hsum : (sum values).isFinite = true) :
    |real (sum values) - (values.map real).sum| ≤ values.length ^ 2 * m / 2 ^ 53 := by
  have hbound := abs_foldl_add_sub_le hvalues (-0.0) 0 0 (by norm_num)
    (by rw [exact_start.real_eq]; norm_num) (by omega) hsum
  rwa [Nat.zero_add, zero_add] at hbound

end Errors

/-- Without rounding a running sum is the exact one. -/
theorem foldl_add_eq {values : List Float} (acc : Float)
    (hexact : ∀ k ≤ values.length, IsDouble (real acc + ((values.map real).take k).sum))
    (hsum : (values.foldl (· + ·) acc).isFinite = true) :
    real (values.foldl (· + ·) acc) = real acc + (values.map real).sum := by
  induction values generalizing acc with
  | nil => rw [List.map_nil, List.sum_nil, add_zero]; rfl
  | cons v rest ih =>
      rw [List.foldl_cons] at hsum ⊢
      have hnext : (acc + v).isFinite = true := (isFinite_of_foldl_add hsum).1
      obtain ⟨haccFinite, hvFinite⟩ := isFinite_of_add hnext
      have hstep : real (acc + v) = real acc + real v := by
        have hfirst := hexact 1 (Nat.succ_pos _)
        rw [List.map_cons, List.take_succ_cons, List.take_zero, List.sum_singleton] at hfirst
        rw [(rounds_add haccFinite hvFinite).real_of_isFinite hnext, nearest_of_isDouble hfirst]
      have hrest : ∀ k ≤ rest.length,
          IsDouble (real (acc + v) + ((rest.map real).take k).sum) := by
        intro k hk
        have hlonger := hexact (k + 1) (Nat.succ_le_succ hk)
        rwa [List.map_cons, List.take_succ_cons, List.sum_cons, ← add_assoc, ← hstep] at hlonger
      rw [ih _ hrest hsum, hstep, List.map_cons, List.sum_cons, add_assoc]

theorem sum_eq {values : List Float}
    (hexact : ∀ k ≤ values.length, IsDouble ((values.map real).take k).sum)
    (hsum : (sum values).isFinite = true) : real (sum values) = (values.map real).sum := by
  have htotal := foldl_add_eq (-0.0) (fun k hk => by
    rw [exact_start.real_eq, zero_add]
    exact hexact k hk) hsum
  rwa [exact_start.real_eq, zero_add] at htotal

end Statistics

end ChartCompiler
