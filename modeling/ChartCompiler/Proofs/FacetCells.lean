import ChartCompiler.Proofs.Indices
import ChartCompiler.Proofs.SmallMultiples
import Mathlib.Algebra.Order.Floor.Div

/-!
# Cells of small multiples

The cells fill a grid row by row. The rows come from a division rounded up, so there are as few
of them as can hold all cells, and quotient and remainder of an index are the place of its cell.
If no number of columns is asked for, it is the root of the number of cells, which is rounded
twice: to a double and up to a whole number. Up to `2 ^ 52` cells the first rounding never reaches
the whole number below, so the columns are the fewest whose square has room. `cells_fill_grid`
puts this together.
-/

namespace ChartCompiler

open Double

/-! ## Roots of counts -/

/-- The doubles from `2 ^ 25` to `2 ^ 26` lie `2 ^ -27` apart, those below them closer. -/
theorem isDouble_behind {k : ℕ} (hk : k < 2 ^ 26) : IsDouble (k + 1 / 2 ^ 27) := by
  have hdouble : IsDouble (((k * 2 ^ 27 + 1 : ℕ) : ℤ) * 2 ^ (-27 : ℤ)) :=
    isDouble_mul_zpow (by rw [Nat.abs_cast]; exact_mod_cast (by omega)) (by norm_num)
  have hbehind : (((k * 2 ^ 27 + 1 : ℕ) : ℤ) : ℝ) * 2 ^ (-27 : ℤ) = k + 1 / 2 ^ 27 := by
    push_cast
    norm_num
    ring
  rwa [hbehind] at hdouble

section Root

variable {n k : ℕ} (hlow : k * k < n) (hhigh : n ≤ (k + 1) * (k + 1))
include hlow hhigh

/-- The rounded root of a number between two squares lies between their sides, and never on the
lower one. -/
theorem real_sqrt_between (hk : k < 2 ^ 26) :
    (Float.sqrt (Float.ofNat n)).isFinite = true ∧
      (k : ℝ) < real (Float.sqrt (Float.ofNat n)) ∧
      real (Float.sqrt (Float.ofNat n)) ≤ (k + 1 : ℕ) := by
  obtain ⟨hcount, hreal⟩ := exact_ofNat (n := n) (by nlinarith)
  have hroot := rounds_sqrt hcount (by rw [hreal]; positivity)
  rw [hreal] at hroot
  -- The exact root is past the lower side by more than the double behind it, which rounding
  -- cannot cross.
  have hbelow : (k : ℝ) + 1 / 2 ^ 27 ≤ Real.sqrt n := by
    have hnext : (k : ℝ) * k + 1 ≤ n := by exact_mod_cast hlow
    have hside : (k : ℝ) + 1 ≤ 2 ^ 26 := by exact_mod_cast hk
    apply Real.le_sqrt_of_sq_le
    norm_num at hside ⊢
    linarith
  have habove : Real.sqrt n ≤ (k + 1 : ℕ) := by
    refine Real.sqrt_le_iff.mpr ⟨Nat.cast_nonneg _, ?_⟩
    rw [sq]
    exact_mod_cast hhigh
  obtain ⟨hfinite, hstart, hend⟩ := hroot.between (isDouble_behind hk) (isDouble_natCast (by omega))
    (by linarith [limit_pos, k.cast_nonneg (α := ℝ)])
    ((le_abs_self _).trans_lt (natCast_lt_limit (by omega))) hbelow habove
  exact ⟨hfinite, by linarith, hend⟩

theorem ceilNat_sqrt (hk : k < 2 ^ 26) : ceilNat (Float.sqrt (Float.ofNat n)) = k + 1 := by
  obtain ⟨hfinite, hstart, hend⟩ := real_sqrt_between hlow hhigh hk
  rw [ceilNat_eq_ceil hfinite (hend.trans (by exact_mod_cast (by omega)))]
  exact (Nat.ceil_eq_iff (Nat.succ_ne_zero k)).mpr ⟨hstart, hend⟩

/-- The side of the least square that has room. -/
theorem isLeast_side : IsLeast {c | n ≤ c * c} (k + 1) := by
  refine ⟨hhigh, fun c hc => ?_⟩
  by_contra hnot
  have hside : c ≤ k := by omega
  exact (hlow.trans_le hc).not_ge (Nat.mul_self_le_mul_self hside)

end Root

namespace FacetLayout

/-- Where no number of columns is asked for, there are as few as make a square with room. -/
theorem isLeast_columnCount {n : ℕ} (hpos : 0 < n) (hn : n ≤ 2 ^ 52) {wanted : Option ℕ}
    (habsent : ∀ c ∈ wanted, c = 0) : IsLeast {c | n ≤ c * c} (columnCount n wanted) := by
  have hroot : columnCount n wanted = ceilNat (Float.sqrt (Float.ofNat n)) := by
    cases wanted with
    | none => rfl
    | some c =>
        obtain rfl := habsent c rfl
        rfl
  have hlow : Nat.sqrt (n - 1) * Nat.sqrt (n - 1) < n := by
    have hle := Nat.sqrt_le (n - 1)
    omega
  have hhigh : n ≤ (Nat.sqrt (n - 1) + 1) * (Nat.sqrt (n - 1) + 1) := by
    have hlt := Nat.lt_succ_sqrt (n - 1)
    exact Nat.le_of_pred_lt hlt
  rw [hroot, ceilNat_sqrt hlow hhigh (Nat.sqrt_lt.mpr (by omega))]
  exact isLeast_side hlow hhigh

/-- The bound is the last one: one cell more, and the columns have no room. -/
example : ¬2 ^ 52 + 1 ≤ columnCount (2 ^ 52 + 1) none * columnCount (2 ^ 52 + 1) none := by
  decide +kernel

end FacetLayout

/-! ## Places -/

namespace FacetCell

/-- The cell stands where counting along the rows of the grid arrives at `i`. -/
structure IsPlaced (cell : FacetCell) (layout : FacetLayout) (i : ℕ) : Prop where
  index_eq : cell.index = i
  row_lt : cell.row < layout.rows
  col_lt : cell.col < layout.cols
  count_eq : cell.row * layout.cols + cell.col = i

namespace IsPlaced

variable {cell other : FacetCell} {layout : FacetLayout} {i j : ℕ}

/-- The count says what row and column are. -/
theorem place_eq (hcell : cell.IsPlaced layout i) {r c : ℕ} (hc : c < layout.cols)
    (hcount : r * layout.cols + c = i) : cell.row = r ∧ cell.col = c := by
  have hcols : 0 < layout.cols := Nat.zero_lt_of_lt hc
  obtain ⟨hrow, hcol⟩ := (Nat.div_mod_unique hcols).mpr
    ⟨by rw [mul_comm, add_comm, hcell.count_eq], hcell.col_lt⟩
  obtain ⟨hrow', hcol'⟩ := (Nat.div_mod_unique hcols).mpr
    ⟨by rw [mul_comm, add_comm, hcount], hc⟩
  exact ⟨hrow.symm.trans hrow', hcol.symm.trans hcol'⟩

theorem index_inj (hcell : cell.IsPlaced layout i) (hother : other.IsPlaced layout j)
    (hplace : (cell.row, cell.col) = (other.row, other.col)) : i = j := by
  obtain ⟨hrow, hcol⟩ := Prod.mk.inj hplace
  rw [← hcell.count_eq, ← hother.count_eq, hrow, hcol]

end IsPlaced

end FacetCell

namespace FacetLayout

/-- The cells fill the grid row by row, `n` of them, and it has no row more than they need. -/
structure FillsRows (layout : FacetLayout) (n : ℕ) : Prop where
  room : n ≤ layout.rows * layout.cols
  tight : (layout.rows - 1) * layout.cols < n
  length_eq : layout.items.length = n
  placed : ∀ i (hi : i < layout.items.length), layout.items[i].IsPlaced layout i

namespace FillsRows

variable {layout : FacetLayout} {n : ℕ} (hfills : layout.FillsRows n)
include hfills

/-- Every place that counting reaches before `n` is taken. -/
theorem exists_mem_place {r c : ℕ} (hc : c < layout.cols) (hcount : r * layout.cols + c < n) :
    ∃ cell ∈ layout.items, cell.row = r ∧ cell.col = c := by
  rw [← hfills.length_eq] at hcount
  exact ⟨_, List.getElem_mem hcount, (hfills.placed _ hcount).place_eq hc rfl⟩

/-- Every row has a cell, the first one if no other. -/
theorem exists_mem_row {r : ℕ} (hr : r < layout.rows) : ∃ cell ∈ layout.items, cell.row = r := by
  have hstart : r * layout.cols + 0 < n :=
    (Nat.mul_le_mul_right _ (Nat.le_sub_one_of_lt hr)).trans_lt hfills.tight
  have hcols : 0 < layout.cols :=
    Nat.pos_of_mul_pos_left ((Nat.zero_lt_of_lt hstart).trans_le hfills.room)
  obtain ⟨cell, hcell, hrow, -⟩ := hfills.exists_mem_place hcols hstart
  exact ⟨cell, hcell, hrow⟩

theorem pairwise_place : layout.items.Pairwise fun a b => (a.row, a.col) ≠ (b.row, b.col) := by
  rw [List.pairwise_iff_getElem]
  intro i j hi hj hij hplace
  exact hij.ne ((hfills.placed i hi).index_inj (hfills.placed j hj) hplace)

end FillsRows

variable {n : ℕ}

/-- There are as few rows as can hold the cells. -/
theorem rows_le_iff (hpos : 0 < n) (wanted : Option ℕ) (r : ℕ) :
    (of n wanted).rows ≤ r ↔ n ≤ r * (of n wanted).cols := by
  unfold of
  rw [if_neg hpos.ne', mul_comm]
  exact ceilDiv_le_iff_le_mul (columnCount_pos hpos wanted)

theorem cols_eq (hpos : 0 < n) (wanted : Option ℕ) : (of n wanted).cols = columnCount n wanted := by
  unfold of
  rw [if_neg hpos.ne']

theorem cols_pos (hpos : 0 < n) (wanted : Option ℕ) : 0 < (of n wanted).cols := by
  rw [cols_eq hpos]
  exact columnCount_pos hpos wanted

/-- The rows of the cells are among the rows of the grid. -/
theorem div_cols_lt_rows (wanted : Option ℕ) {i : ℕ} (hi : i < n) :
    i / (of n wanted).cols < (of n wanted).rows := by
  have hpos : 0 < n := Nat.zero_lt_of_lt hi
  rw [Nat.div_lt_iff_lt_mul (cols_pos hpos wanted)]
  exact hi.trans_le ((rows_le_iff hpos wanted _).mp le_rfl)

theorem place_getElem_items (wanted : Option ℕ) (i : ℕ) (hi : i < (of n wanted).items.length) :
    (of n wanted).items[i].row = i / (of n wanted).cols ∧
      (of n wanted).items[i].col = i % (of n wanted).cols := by
  have hn : n ≠ 0 := by
    rw [length_items] at hi
    omega
  simp [of, hn]

/-- Every number of cells fills its grid. -/
theorem fillsRows_of (hpos : 0 < n) (wanted : Option ℕ) : (of n wanted).FillsRows n where
  room := (rows_le_iff hpos wanted _).mp le_rfl
  tight := by
    have hrows : 0 < (of n wanted).rows := Nat.zero_lt_of_lt (div_cols_lt_rows wanted hpos)
    rw [← not_le, ← rows_le_iff hpos]
    omega
  length_eq := length_items n wanted
  placed i hi := by
    obtain ⟨hrow, hcol⟩ := place_getElem_items wanted i hi
    rw [length_items] at hi
    refine ⟨index_getElem_items n wanted i _, ?_, ?_, ?_⟩
    · rw [hrow]
      exact div_cols_lt_rows wanted hi
    · rw [hcol]
      exact Nat.mod_lt i (cols_pos hpos wanted)
    · rw [hrow, hcol]
      exact Nat.div_add_mod' i _

/-- A grid of fewer than `2 ^ 52` cells has the columns asked for, or else as few as make a square
with room. It has as few rows as can hold the cells, so that none of them is empty. The cells
stand in it row by row, each in a place of its own. -/
theorem cells_fill_grid (hpos : 1 ≤ n) (hn : n < 2 ^ 52) (wanted : Option ℕ) :
    (∀ c ∈ wanted, 0 < c → (of n wanted).cols = c) ∧
      ((∀ c ∈ wanted, c = 0) → IsLeast {c | n ≤ c * c} (of n wanted).cols) ∧
      (of n wanted).FillsRows n ∧
      (∀ r < (of n wanted).rows, ∃ cell ∈ (of n wanted).items, cell.row = r) ∧
      (of n wanted).items.Pairwise fun a b => (a.row, a.col) ≠ (b.row, b.col) := by
  have hfills := fillsRows_of hpos wanted
  refine ⟨?_, ?_, hfills, fun r => hfills.exists_mem_row, hfills.pairwise_place⟩
  · rintro (_ | c) hwanted hasked
    · exact absurd hasked (lt_irrefl 0)
    · rw [cols_eq hpos, Option.mem_def.mp hwanted]
      rfl
  · intro habsent
    rw [cols_eq hpos]
    exact isLeast_columnCount hpos hn.le habsent

/-- A week in three columns; and one cell more than a square of side `2 ^ 26 - 1`, which takes
another column but no other row. -/
theorem cells_fill_grid_past_square :
    (1 ≤ 7 ∧ 7 < 2 ^ 52 ∧ 3 ∈ some 3 ∧ 0 < 3 ∧
      (of 7 (some 3)).cols = 3 ∧ (of 7 (some 3)).rows = 3) ∧
    1 ≤ 4503599493152770 ∧ 4503599493152770 < 2 ^ 52 ∧ (∀ c ∈ some 0, c = 0) ∧
      (of 4503599493152770 (some 0)).cols = 2 ^ 26 ∧
      (of 4503599493152770 (some 0)).rows = 2 ^ 26 - 1 := by
  constructor
  · have hpos : 1 ≤ 7 := by norm_num
    have hn : 7 < 2 ^ 52 := by norm_num
    have hasked : 3 ∈ some 3 := rfl
    obtain ⟨hcolumns, -, ⟨hroom, htight, -, -⟩, -⟩ := cells_fill_grid hpos hn (some 3)
    have hcols := hcolumns 3 hasked (by norm_num)
    rw [hcols] at hroom htight
    exact ⟨hpos, hn, hasked, by norm_num, hcols, by omega⟩
  · have hpos : 1 ≤ 4503599493152770 := by norm_num
    have hn : 4503599493152770 < 2 ^ 52 := by norm_num
    have habsent : ∀ c ∈ some 0, c = 0 := by
      rintro _ ⟨⟩
      rfl
    obtain ⟨-, hleast, ⟨hroom, htight, -, -⟩, -⟩ := cells_fill_grid hpos hn (some 0)
    have hcols : (of 4503599493152770 (some 0)).cols = 2 ^ 26 :=
      (hleast habsent).unique (isLeast_side (k := 2 ^ 26 - 1) (by norm_num) (by norm_num))
    rw [hcols] at hroom htight
    exact ⟨hpos, hn, habsent, hcols, by omega⟩

end FacetLayout

end ChartCompiler
