import ChartCompiler.Proofs.Double.Bounds
import ChartCompiler.Proofs.FacetCells
import ChartCompiler.Proofs.Percentages

/-!
# Boxes of small multiples

Small multiples divide the chart into cells of one size, and each plot gets a box inside
its cell, whose place and size are written as percentages. Padding and the room for titles
do not shrink with the cells. `boxes_usable` says which boxes have a size and lie inside
their cells, and that no two boxes overlap.
-/

namespace ChartCompiler

open Double

namespace FacetCell

/-! ## Cells along one axis -/

/-- The room for a title, if titles are shown. -/
def titleRoom (showTitle : Bool) : Float :=
  if showTitle then titleSpace else 0

/-- The length of each of some cells that fill an axis. -/
def step (count : ℕ) : Float :=
  100 / Float.ofNat count

/-- Where one of them starts. -/
def place (count index : ℕ) : Float :=
  Float.ofNat index * step count

theorem near_padding : Near padding (2 : ℕ) 0 :=
  Near.ofNat (n := 2) (by norm_num)

theorem near_borders : Near (2 * padding) (4 : ℕ) 0 := by
  have htwo : real padding = 2 := (exact_ofNat (n := 2) (by norm_num)).2
  have hproduct : real 2 * real padding = (4 : ℕ) := by
    rw [show real 2 = real padding from rfl, htwo]
    norm_num
  have hrounds := rounds_mul (x := 2) near_padding.isFinite near_padding.isFinite
  rw [hproduct] at hrounds
  obtain ⟨hfinite, hreal⟩ := hrounds.exact (isDouble_natCast (n := 4) (by norm_num))
    (natCast_lt_limit (by omega))
  exact ⟨hfinite, by rw [hreal, sub_self, abs_zero]⟩

theorem near_titleRoom (showTitle : Bool) :
    Near (titleRoom showTitle) (if showTitle then 4 else 0 : ℕ) 0 := by
  cases showTitle with
  | true => exact Near.ofNat (n := 4) (by norm_num)
  | false => exact Near.ofNat (n := 0) (by norm_num)

/-- Many cells are short. -/
theorem step_le {count : ℕ} (hword : count ≤ 2 ^ 64) (least bound : ℕ) (hleast : 0 < least)
    (hcount : least ≤ count) (hsmall : least ≤ 2 ^ 53) (hbound : bound ≤ 2 ^ 53)
    (hcover : 100 ≤ bound * least) :
    (step count).isFinite = true ∧ 0 ≤ real (step count) ∧ real (step count) ≤ bound := by
  obtain ⟨hfinite, hlow, -⟩ := (rounds_ofNat count).between (isDouble_natCast hsmall)
    (isDouble_pow 64) (by linarith [limit_pos, least.cast_nonneg (α := ℝ)])
    (pow_lt_limit (by norm_num)) (by exact_mod_cast hcount) (by exact_mod_cast hword)
  obtain ⟨hundred, hreal⟩ := exact_ofNat (n := 100) (by norm_num)
  have hleast' : (0 : ℝ) < least := by exact_mod_cast hleast
  have hcover' : (100 : ℝ) ≤ bound * least := by exact_mod_cast hcover
  have hpositive : 0 < real (Float.ofNat count) := hleast'.trans_le hlow
  refine (rounds_div hundred hfinite hpositive.ne').between isDouble_zero
    (isDouble_natCast hbound) (by linarith [limit_pos])
    ((le_abs_self _).trans_lt (natCast_lt_limit (by omega))) ?_ ?_
  · rw [hreal]
    positivity
  · rw [hreal, div_le_iff₀ hpositive]
    push_cast
    exact hcover'.trans (mul_le_mul_of_nonneg_left hlow bound.cast_nonneg)

section Step

variable {count : ℕ} (hpos : 0 < count)
include hpos

theorem rounds_step (hcount : count ≤ 100) : Rounds (step count) (100 / count) := by
  obtain ⟨hfinite, hreal⟩ := exact_ofNat (n := count) (by omega)
  obtain ⟨hundred, hreal'⟩ := exact_ofNat (n := 100) (by norm_num)
  have hone : (1 : ℝ) ≤ count := by exact_mod_cast hpos
  have hrounds := rounds_div hundred hfinite (by rw [hreal]; positivity)
  rw [hreal, hreal', Nat.cast_ofNat] at hrounds
  exact hrounds

/-- What is left of a cell is at least a part of the whole. -/
theorem rest_le (hcount : count ≤ 50) {used : ℕ} (hroom : used * count < 100) :
    (1 / 50 : ℝ) ≤ 100 / count - used := by
  obtain ⟨hone, hfifty⟩ : (1 : ℝ) ≤ count ∧ (count : ℝ) ≤ 50 := by
    exact_mod_cast And.intro hpos hcount
  have hleft : (used * count + 1 : ℝ) ≤ 100 := by exact_mod_cast hroom
  rw [le_sub_iff_add_le, le_div_iff₀ (by positivity)]
  linarith

theorem near_step (hcount : count ≤ 50) : Near (step count) (100 / count) slack := by
  have hone : (1 : ℝ) ≤ count := by exact_mod_cast hpos
  apply Near.of_rounds (rounds_step hpos (by omega))
  rw [abs_of_nonneg (by positivity), div_lt_iff₀ (by positivity)]
  linarith

theorem near_place (hcount : count ≤ 50) {index : ℕ} (hindex : index < count) :
    Near (place count index) (index * (100 / count)) (50 * slack) := by
  have hone : (1 : ℝ) ≤ count := by exact_mod_cast hpos
  have hlast : (index : ℝ) + 1 ≤ count := by exact_mod_cast hindex
  have hcount' : (count : ℝ) ≤ 50 := by exact_mod_cast hcount
  have hslack := slack_pos
  have hplace : index * (100 / count : ℝ) ≤ 100 := by
    rw [mul_div_assoc', div_le_iff₀ (by positivity)]
    linarith
  have herror : index * slack + slack ≤ 50 * slack := by
    nlinarith
  refine (Near.ofNat_mul (by omega) (near_step hpos hcount) ?_).mono herror
  rw [abs_of_nonneg (by positivity)]
  linarith [slack_le]

/-- Cells of a whole number of percents are not rounded. -/
theorem exact_place {margin : ℕ} (hwhole : margin * count = 100) {index : ℕ}
    (hindex : index < count) :
    real (step count) = margin ∧ real (place count index) = index * margin := by
  have hmargin : margin ≤ 100 := Nat.le_of_dvd (by norm_num) ⟨count, hwhole.symm⟩
  have hcount : count ≤ 100 := Nat.le_of_dvd (by norm_num) ⟨margin, by rw [mul_comm, hwhole]⟩
  have hquotient : (100 / count : ℝ) = margin := by
    rw [div_eq_iff (by positivity)]
    exact_mod_cast hwhole.symm
  have hrounds := rounds_step hpos (by omega)
  rw [hquotient] at hrounds
  obtain ⟨hfinite, hstep⟩ :=
    hrounds.exact (isDouble_natCast (by omega)) (natCast_lt_limit (by omega))
  obtain ⟨hindexFinite, hindexReal⟩ := exact_ofNat (n := index) (by omega)
  have hproduct := rounds_mul hindexFinite hfinite
  rw [hindexReal, hstep, ← Nat.cast_mul] at hproduct
  have hlarge : index * margin ≤ 100 * 100 := Nat.mul_le_mul (by omega) hmargin
  obtain ⟨-, hplace⟩ :=
    hproduct.exact (isDouble_natCast (by omega)) (natCast_lt_limit (by omega))
  exact ⟨hstep, by rw [place, hplace, Nat.cast_mul]⟩

end Step

/-! ## A box along one axis -/

/-- What is left of a cell along an axis once its start is moved and its size cut, both by
whole percents and in a number of steps. -/
structure Cut (count index moved lost steps : ℕ) (start size : Float) : Prop where
  start_bounded : Bounded start (71 + steps)
  size_bounded : Bounded size (71 + steps)
  start_near : count ≤ 50 →
    Near start (index * (100 / count) + moved) ((50 + steps) * slack)
  size_near : count ≤ 50 → Near size (100 / count - lost) ((50 + steps) * slack)
  size_le : ∀ rest : ℕ, lost + rest ≤ 100 → 100 ≤ (lost + rest) * count → real size ≤ rest

/-- The whole cell. -/
theorem cut_cell {count index : ℕ} (hindex : index < count) (hword : count ≤ 2 ^ 64) :
    Cut count index 0 0 0 (place count index) (step count) := by
  have hpos : 0 < count := Nat.zero_lt_of_lt hindex
  have hstep : Bounded (step count) 7 := by
    obtain ⟨hfinite, hlow, hhigh⟩ := step_le hword 1 100 one_pos hpos (by norm_num)
      (by norm_num) (by norm_num)
    refine ⟨hfinite, ?_⟩
    rw [abs_of_nonneg hlow]
    norm_num at hhigh ⊢
    linarith
  refine ⟨?_, hstep.mono (by norm_num), fun hcount => ?_, fun hcount => ?_, ?_⟩
  · exact (Bounded.ofNat (a := 64) (by omega) (by norm_num)).mul hstep (by norm_num)
  · simpa using near_place hpos hcount hindex
  · simpa using (near_step hpos hcount).mono (e := 50 * slack) (by linarith [slack_pos])
  · intro rest hrest hcover
    rw [zero_add] at hcover
    have hsome : 0 < rest := by
      by_contra hnone
      rw [Nat.eq_zero_of_not_pos hnone] at hcover
      omega
    refine (step_le hword (min count 100) rest (by omega) (by omega) (by omega) (by omega)
      ?_).2.2
    rcases min_choice count 100 with hmin | hmin
    · rwa [hmin]
    · rw [hmin]
      omega

/-- One step of moving the start and cutting the size. -/
theorem Cut.inset {count index moved lost steps : ℕ} {start size : Float}
    (hcut : Cut count index moved lost steps start size) (hindex : index < count)
    {more less : Float} {m n : ℕ} (hmore : Near more m 0) (hless : Near less n 0)
    (hmoved : moved + m ≤ 10) (hlost : lost + n ≤ 10) (hsteps : steps ≤ 10) :
    Cut count index (moved + m) (lost + n) (steps + 1) (start + more) (size - less) := by
  have hpos : 0 < count := Nat.zero_lt_of_lt hindex
  have hone : (1 : ℝ) ≤ count := by exact_mod_cast hpos
  have hlast : (index : ℝ) + 1 ≤ count := by exact_mod_cast hindex
  have hslack := slack_pos
  have herror : (50 + steps) * slack + 0 < 1 := by
    have hfew : (steps : ℝ) ≤ 10 := by exact_mod_cast hsteps
    have hslack' := slack_le
    nlinarith
  have hwhole : (100 / count : ℝ) ≤ 100 := by
    rw [div_le_iff₀ (by positivity)]
    linarith
  have hsum : (50 + steps) * slack + 0 + slack = (50 + (steps + 1 : ℕ)) * slack := by
    push_cast
    ring
  have hmore' : Bounded more (71 + steps) := (hmore.bounded (a := 4) (by omega)).mono (by omega)
  have hless' : Bounded less (71 + steps) := (hless.bounded (a := 4) (by omega)).mono (by omega)
  refine ⟨hcut.start_bounded.add hmore' (by omega), hcut.size_bounded.sub hless' (by omega),
    fun hcount => ?_, fun hcount => ?_, fun rest hrest hcover => ?_⟩
  · have hplace : index * (100 / count : ℝ) ≤ 100 := by
      rw [mul_div_assoc', div_le_iff₀ (by positivity)]
      linarith
    have hmargin : (moved + m : ℝ) ≤ 10 := by exact_mod_cast hmoved
    have hstart := (hcut.start_near hcount).add hmore (by
      rw [abs_of_nonneg (by positivity)]
      linarith)
    rw [hsum, add_assoc, ← Nat.cast_add] at hstart
    exact hstart
  · have hpositive : (0 : ℝ) < 100 / count := by positivity
    have hcuts : (lost + n : ℝ) ≤ 10 := by exact_mod_cast hlost
    have hsize := (hcut.size_near hcount).sub hless (by
      have hsmall : |100 / (count : ℝ) - lost - n| ≤ 100 := by
        rw [abs_le]
        constructor <;> linarith [lost.cast_nonneg (α := ℝ), n.cast_nonneg (α := ℝ)]
      linarith)
    rw [hsum, sub_sub, ← Nat.cast_add] at hsize
    exact hsize
  · have hlimit := hcut.size_le (n + rest) (by omega) (by rw [← add_assoc]; exact hcover)
    apply hcut.size_bounded.sub_le hless' (by omega) (by omega)
    rw [hless.real_eq]
    push_cast at hlimit
    linarith

theorem error_le {steps : ℕ} (hsteps : steps ≤ 10) : (50 + steps) * slack ≤ 1 / 10 ^ 10 := by
  have hfew : (steps : ℝ) ≤ 10 := by exact_mod_cast hsteps
  nlinarith [slack_le, slack_pos]

namespace Cut

section Margins

variable {count index margin steps : ℕ} {start size : Float}
  (hcut : Cut count index margin (margin + 2) steps start size)
  (hmargin : margin ≤ 8) (hsteps : steps ≤ 10)
include hcut

theorem shown_start (hcount : count ≤ 50) (hsteps : steps ≤ 10) :
    |(shownPercent start : ℝ) - (index * (100 / count) + margin)| ≤ 1 / 200 + 1 / 10 ^ 10 := by
  calc
    |(shownPercent start : ℝ) - (index * (100 / count) + margin)| ≤
        |(shownPercent start : ℝ) - real start| + |real start - (index * (100 / count) + margin)| :=
      abs_sub_le _ _ _
    _ ≤ 1 / 200 + 1 / 10 ^ 10 := add_le_add (abs_shownPercent_sub_le start)
      ((hcut.start_near hcount).within.trans (error_le hsteps))

include hmargin in
theorem shown_size_of_le (hfull : 100 ≤ (margin + 2) * count) :
    shownPercent (greater size 0) = 0 := by
  have hnone := hcut.size_le 0 (by omega) hfull
  have hreal := (real_greater_zero hcut.size_bounded.isFinite).2
  rw [Nat.cast_zero] at hnone
  rw [max_eq_right hnone] at hreal
  exact_mod_cast shownPercent_eq (n := 0) (by rw [hreal]; norm_num)

include hsteps

/-- Where there is room, the box ends two percent before its cell. -/
theorem shown_size_of_lt (hpos : 0 < count) (hroom : (margin + 2) * count < 100) :
    (1 / 50 : ℝ) ≤ 100 / count - (margin + 2) ∧
      |(shownPercent (greater size 0) : ℝ) - (100 / count - (margin + 2))| ≤
        1 / 200 + 1 / 10 ^ 10 := by
  have hcount : count ≤ 50 := by nlinarith
  have hrest := rest_le hpos hcount hroom
  have hsize := (hcut.size_near hcount).mono (error_le hsteps)
  push_cast at hrest hsize
  obtain ⟨hlow, -⟩ := abs_le.mp hsize.within
  have hreal := (real_greater_zero hsize.isFinite).2
  rw [max_eq_left (by linarith)] at hreal
  have hshown := abs_shownPercent_sub_le (greater size 0)
  rw [hreal] at hshown
  exact ⟨hrest, (abs_sub_le _ _ _).trans (add_le_add hshown hsize.within)⟩

include hmargin

/-- The box has a size exactly if there is room. -/
theorem size_pos_iff (hpos : 0 < count) :
    0 < shownPercent (greater size 0) ↔ (margin + 2) * count < 100 := by
  constructor
  · intro hsize
    by_contra hfull
    rw [hcut.shown_size_of_le hmargin (not_lt.mp hfull)] at hsize
    exact lt_irrefl _ hsize
  · intro hroom
    obtain ⟨hrest, hshown⟩ := hcut.shown_size_of_lt hsteps hpos hroom
    obtain ⟨hlow, -⟩ := abs_le.mp hshown
    exact_mod_cast (by linarith : (0 : ℝ) < shownPercent (greater size 0))

theorem size_nonneg (hpos : 0 < count) : 0 ≤ shownPercent (greater size 0) := by
  rcases lt_or_ge ((margin + 2) * count) 100 with hroom | hfull
  · exact ((hcut.size_pos_iff hmargin hsteps hpos).mpr hroom).le
  · exact (hcut.shown_size_of_le hmargin hfull).ge

/-- The box lies inside its cell as long as the margin does. -/
theorem inside (hindex : index < count) (htwo : 2 ≤ margin) (hfits : margin * count ≤ 100) :
    real (place count index) ≤ shownPercent start ∧
      (shownPercent start : ℝ) + shownPercent (greater size 0) ≤
        real (place count index) + real (step count) := by
  have hpos : 0 < count := Nat.zero_lt_of_lt hindex
  have hcount : count ≤ 50 := by nlinarith
  have hslack := slack_le
  obtain ⟨hlow, hhigh⟩ := abs_le.mp (near_place hpos hcount hindex).within
  obtain ⟨hstep, -⟩ := abs_le.mp (near_step hpos hcount).within
  obtain ⟨hshown, hshown'⟩ := abs_le.mp (hcut.shown_start hcount hsteps)
  have hmargin' : (2 : ℝ) ≤ margin := by exact_mod_cast htwo
  refine ⟨by linarith, ?_⟩
  rcases lt_or_ge ((margin + 2) * count) 100 with hroom | hfull
  · obtain ⟨-, hsize⟩ := hcut.shown_size_of_lt hsteps hpos hroom
    obtain ⟨-, hsize'⟩ := abs_le.mp hsize
    linarith
  rw [hcut.shown_size_of_le hmargin hfull, Rat.cast_zero, add_zero]
  rcases hfits.lt_or_eq with hless | hwhole
  · have hrest := rest_le hpos hcount hless
    linarith
  · -- The margin fills the cell: only exact numbers leave the start inside.
    obtain ⟨hstep', hplace⟩ := exact_place hpos hwhole hindex
    have hquotient : (100 / count : ℝ) = margin := by
      rw [div_eq_iff (by positivity)]
      exact_mod_cast hwhole.symm
    have hwithin := (hcut.start_near hcount).within.trans (error_le hsteps)
    rw [hquotient] at hwithin
    have hclose : |real start - (index * margin + margin : ℕ)| < 1 / 200 := by
      push_cast
      linarith
    rw [shownPercent_eq hclose, hstep', hplace]
    push_cast
    exact le_rfl

end Margins

section Pairs

variable {count margin steps j k : ℕ} {start other size : Float}
  (hfirst : Cut count j margin (margin + 2) steps start size)
  (hsecond : Cut count k margin (margin + 2) steps other size)
  (hmargin : margin ≤ 8) (hsteps : steps ≤ 10) (hpos : 0 < count)
include hfirst hsecond hmargin hsteps hpos

theorem apart_of_lt (hjk : j < k) :
    shownPercent start + shownPercent (greater size 0) ≤ shownPercent other ∨
      shownPercent other + shownPercent (greater size 0) ≤ shownPercent start := by
  rcases lt_or_ge ((margin + 2) * count) 100 with hroom | hfull
  · left
    have hcount : count ≤ 50 := by nlinarith
    have hnext : (j : ℝ) + 1 ≤ k := by exact_mod_cast hjk
    have hplaces : j * (100 / count : ℝ) + 100 / count ≤ k * (100 / count) := by
      rw [← add_one_mul]
      exact mul_le_mul_of_nonneg_right hnext (by positivity)
    obtain ⟨-, hsize⟩ := hfirst.shown_size_of_lt hsteps hpos hroom
    obtain ⟨-, hsize'⟩ := abs_le.mp hsize
    obtain ⟨-, hstart⟩ := abs_le.mp (hfirst.shown_start hcount hsteps)
    obtain ⟨hother, -⟩ := abs_le.mp (hsecond.shown_start hcount hsteps)
    exact_mod_cast (by linarith :
      (shownPercent start : ℝ) + shownPercent (greater size 0) ≤ shownPercent other)
  · rw [hfirst.shown_size_of_le hmargin hfull, add_zero, add_zero]
    exact le_total _ _

/-- Boxes in different cells of one axis keep apart. -/
theorem apart (hjk : j ≠ k) :
    shownPercent start + shownPercent (greater size 0) ≤ shownPercent other ∨
      shownPercent other + shownPercent (greater size 0) ≤ shownPercent start := by
  rcases hjk.lt_or_gt with hlt | hgt
  · exact apart_of_lt hfirst hsecond hmargin hsteps hpos hlt
  · exact (apart_of_lt hsecond hfirst hmargin hsteps hpos hgt).symm

end Pairs

end Cut

def titlePercents (showTitle : Bool) : ℕ :=
  if showTitle then 4 else 0

theorem cut_column {count index : ℕ} (hindex : index < count) (hword : count ≤ 2 ^ 64) :
    Cut count index 2 4 1 (place count index + padding) (step count - 2 * padding) :=
  (cut_cell hindex hword).inset hindex near_padding near_borders (by norm_num) (by norm_num)
    (by norm_num)

theorem cut_row {count index : ℕ} (hindex : index < count) (hword : count ≤ 2 ^ 64)
    (showTitle : Bool) :
    Cut count index (2 + titlePercents showTitle) (2 + titlePercents showTitle + 2) 2
      (place count index + padding + titleRoom showTitle)
      (step count - 2 * padding - titleRoom showTitle) := by
  have hcut := cut_column hindex hword
  cases showTitle with
  | true =>
      exact hcut.inset hindex (near_titleRoom true) (near_titleRoom true) (by norm_num)
        (by norm_num) (by norm_num)
  | false =>
      exact hcut.inset hindex (near_titleRoom false) (near_titleRoom false) (by norm_num)
        (by norm_num) (by norm_num)

end FacetCell

/-! ## Boxes -/

structure Box where
  left : ℚ
  top : ℚ
  width : ℚ
  height : ℚ
  deriving DecidableEq

def Grid.box? (grid : Grid) : Option Box :=
  match percent? grid.left, percent? grid.top, percent? grid.width, percent? grid.height with
  | some left, some top, some width, some height => some ⟨left, top, width, height⟩
  | _, _, _, _ => none

namespace Box

/-- The box lies between the left and the right end of the cell. -/
def InColumn (box : Box) (cell : FacetCell) : Prop :=
  real cell.left ≤ box.left ∧ (box.left : ℝ) + box.width ≤ real cell.left + real cell.width

/-- The box lies between the upper and the lower end of the cell. -/
def InRow (box : Box) (cell : FacetCell) : Prop :=
  real cell.top ≤ box.top ∧ (box.top : ℝ) + box.height ≤ real cell.top + real cell.height

/-- One of the boxes ends before the other one starts, along one of the axes. -/
def Apart (box other : Box) : Prop :=
  box.left + box.width ≤ other.left ∨ other.left + other.width ≤ box.left ∨
    box.top + box.height ≤ other.top ∨ other.top + other.height ≤ box.top

end Box

namespace FacetLayout

theorem columnCount_le_word (n : ℕ) {wanted : Option ℕ} (hwanted : ∀ c ∈ wanted, c < 2 ^ 64) :
    columnCount n wanted ≤ 2 ^ 64 := by
  unfold columnCount
  split
  · next c => exact (hwanted (c + 1) rfl).le
  · have hceil := ceilNat_le_succ (Float.sqrt (Float.ofNat n))
    have hfloor := floorNat_lt (Float.sqrt (Float.ofNat n))
    omega

variable {n : ℕ} {wanted : Option ℕ}

theorem counts (hpos : 0 < n) (hn : n < 2 ^ 64) (hwanted : ∀ c ∈ wanted, c < 2 ^ 64) :
    0 < (of n wanted).cols ∧ (of n wanted).cols ≤ 2 ^ 64 ∧ (of n wanted).rows ≤ 2 ^ 64 ∧
      ∀ index < n, index / (of n wanted).cols < (of n wanted).rows := by
  have hcols : 0 < (of n wanted).cols := cols_pos hpos wanted
  refine ⟨hcols, ?_, ?_, fun index hindex => ?_⟩
  · rw [cols_eq hpos]
    exact columnCount_le_word n hwanted
  · have hrows : (of n wanted).rows ≤ n :=
      (rows_le_iff hpos wanted n).mpr (Nat.le_mul_of_pos_right n hcols)
    omega
  · exact div_cols_lt_rows wanted hindex

/-- A cell's place and size. -/
theorem mem_items {cell : FacetCell} (hcell : cell ∈ (of n wanted).items) :
    cell.index < n ∧
      cell.left = FacetCell.place (of n wanted).cols (cell.index % (of n wanted).cols) ∧
      cell.top = FacetCell.place (of n wanted).rows (cell.index / (of n wanted).cols) ∧
      cell.width = FacetCell.step (of n wanted).cols ∧
      cell.height = FacetCell.step (of n wanted).rows := by
  unfold of at hcell ⊢
  by_cases hzero : n = 0
  · rw [if_pos hzero] at hcell
    exact nomatch hcell
  · rw [if_neg hzero] at hcell ⊢
    obtain ⟨index, hindex, rfl⟩ := List.mem_map.mp hcell
    exact ⟨List.mem_range.mp hindex, rfl, rfl, rfl, rfl⟩

section Boxes

variable (hn : n < 2 ^ 64) (hwanted : ∀ c ∈ wanted, c < 2 ^ 64) (showTitle : Bool)
  {cell : FacetCell} (hcell : cell ∈ (of n wanted).items)
include hn hwanted hcell

/-- How a box is cut out of its cell. -/
theorem cuts_of_mem_items :
    FacetCell.Cut (of n wanted).cols (cell.index % (of n wanted).cols) 2 4 1
        (cell.left + FacetCell.padding) (cell.width - 2 * FacetCell.padding) ∧
      FacetCell.Cut (of n wanted).rows (cell.index / (of n wanted).cols)
        (2 + FacetCell.titlePercents showTitle) (2 + FacetCell.titlePercents showTitle + 2) 2
        (cell.top + FacetCell.padding + FacetCell.titleRoom showTitle)
        (cell.height - 2 * FacetCell.padding - FacetCell.titleRoom showTitle) := by
  obtain ⟨hindex, hleft, htop, hwidth, hheight⟩ := mem_items hcell
  obtain ⟨hcols, hcolumns, hrows, hrow⟩ := counts (Nat.zero_lt_of_lt hindex) hn hwanted
  rw [hleft, htop, hwidth, hheight]
  exact ⟨FacetCell.cut_column (Nat.mod_lt _ hcols) hcolumns,
    FacetCell.cut_row (hrow cell.index hindex) hrows showTitle⟩

/-- The box that the texts write. -/
theorem box?_of_mem_items :
    (cell.grid showTitle).box? = some {
      left := shownPercent (cell.left + FacetCell.padding)
      top := shownPercent (cell.top + FacetCell.padding + FacetCell.titleRoom showTitle)
      width := shownPercent (greater (cell.width - 2 * FacetCell.padding) 0)
      height := shownPercent (greater
        (cell.height - 2 * FacetCell.padding - FacetCell.titleRoom showTitle) 0) } := by
  obtain ⟨hcolumn, hrow⟩ := cuts_of_mem_items hn hwanted showTitle hcell
  have hleft := percent?_percentText hcolumn.start_bounded.isFinite
  have htop := percent?_percentText hrow.start_bounded.isFinite
  have hwidth := percent?_percentText
    (real_greater_zero hcolumn.size_bounded.isFinite).1
  have hheight := percent?_percentText
    (real_greater_zero hrow.size_bounded.isFinite).1
  unfold Grid.box?
  rw [show percent? (cell.grid showTitle).left = _ from hleft,
    show percent? (cell.grid showTitle).top = _ from htop,
    show percent? (cell.grid showTitle).width = _ from hwidth,
    show percent? (cell.grid showTitle).height = _ from hheight]

/-- Two boxes lie apart by their columns, or by their rows if the column is the same. -/
theorem apart_of_index_ne {other : FacetCell} (hother : other ∈ (of n wanted).items)
    (hne : other.index ≠ cell.index) {box otherBox : Box}
    (hbox : (cell.grid showTitle).box? = some box)
    (hotherBox : (other.grid showTitle).box? = some otherBox) : box.Apart otherBox := by
  obtain ⟨hindex, -, -, hwidth, hheight⟩ := mem_items hcell
  obtain ⟨-, -, -, hwidth', hheight'⟩ := mem_items hother
  obtain ⟨hcols, -, -, hrowOf⟩ := counts (Nat.zero_lt_of_lt hindex) hn hwanted
  have hrows : 0 < (of n wanted).rows := Nat.zero_lt_of_lt (hrowOf cell.index hindex)
  have hmargin : 2 + FacetCell.titlePercents showTitle ≤ 8 := by
    cases showTitle <;> decide
  obtain ⟨hcolumn, hrow⟩ := cuts_of_mem_items hn hwanted showTitle hcell
  obtain ⟨hcolumn', hrow'⟩ := cuts_of_mem_items hn hwanted showTitle hother
  -- All cells have the same size.
  rw [hwidth', ← hwidth] at hcolumn'
  rw [hheight', ← hheight] at hrow'
  rw [box?_of_mem_items hn hwanted showTitle hcell] at hbox
  rw [box?_of_mem_items hn hwanted showTitle hother, hwidth', ← hwidth, hheight',
    ← hheight] at hotherBox
  cases hbox
  cases hotherBox
  by_cases hsame : cell.index % (of n wanted).cols = other.index % (of n wanted).cols
  · have hrowNe : cell.index / (of n wanted).cols ≠ other.index / (of n wanted).cols := by
      intro hrowSame
      apply hne
      rw [← Nat.div_add_mod other.index (of n wanted).cols, ← hrowSame, ← hsame,
        Nat.div_add_mod]
    rcases hrow.apart hrow' hmargin (by norm_num) hrows hrowNe with habove | hbelow
    · exact .inr (.inr (.inl habove))
    · exact .inr (.inr (.inr hbelow))
  · rcases hcolumn.apart hcolumn' (by norm_num) (by norm_num) hcols hsame with hbefore | hafter
    · exact .inl hbefore
    · exact .inr (.inl hafter)

end Boxes

/-- For every number of plots: the box of a cell has a width as long as there are at most 24
columns, and a height as long as there are at most 24 rows, or 12 with titles; otherwise
they are zero. It lies inside its cell as long as there are at most 50 columns and rows, or
16 rows with titles. It never overlaps the box of another cell. -/
theorem boxes_usable (hn : n < 2 ^ 64) (hwanted : ∀ c ∈ wanted, c < 2 ^ 64)
    (showTitle : Bool) :
    ∀ cell ∈ (of n wanted).items, ∃ box, (cell.grid showTitle).box? = some box ∧
      0 ≤ box.width ∧ (0 < box.width ↔ (of n wanted).cols ≤ 24) ∧
      0 ≤ box.height ∧ (0 < box.height ↔ (of n wanted).rows ≤ if showTitle then 12 else 24) ∧
      ((of n wanted).cols ≤ 50 → box.InColumn cell) ∧
      ((of n wanted).rows ≤ (if showTitle then 16 else 50) → box.InRow cell) ∧
      ∀ other ∈ (of n wanted).items, other.index ≠ cell.index →
        ∃ otherBox, (other.grid showTitle).box? = some otherBox ∧ box.Apart otherBox := by
  intro cell hcell
  obtain ⟨hindex, hleft, htop, hwidth, hheight⟩ := mem_items hcell
  obtain ⟨hcols, hcolumns, hrows, hrowOf⟩ := counts (Nat.zero_lt_of_lt hindex) hn hwanted
  obtain ⟨hcolumn, hrow⟩ := cuts_of_mem_items hn hwanted showTitle hcell
  have hcolumnIndex := Nat.mod_lt cell.index hcols
  have hrowIndex := hrowOf cell.index hindex
  have hrowsPos : 0 < (of n wanted).rows := Nat.zero_lt_of_lt hrowIndex
  have hmargin : 2 + FacetCell.titlePercents showTitle ≤ 8 := by
    cases showTitle <;> decide
  refine ⟨_, box?_of_mem_items hn hwanted showTitle hcell,
    hcolumn.size_nonneg (by norm_num) (by norm_num) hcols, ?_,
    hrow.size_nonneg hmargin (by norm_num) hrowsPos, ?_, ?_, ?_, ?_⟩
  · rw [hcolumn.size_pos_iff (by norm_num) (by norm_num) hcols]
    omega
  · rw [hrow.size_pos_iff hmargin (by norm_num) hrowsPos]
    cases showTitle with
    | true =>
        change 8 * _ < 100 ↔ _ ≤ 12
        omega
    | false =>
        change 4 * _ < 100 ↔ _ ≤ 24
        omega
  · intro hfew
    have hinside := hcolumn.inside (by norm_num) (by norm_num) hcolumnIndex le_rfl (by omega)
    rw [← hleft, ← hwidth] at hinside
    exact hinside
  · intro hfew
    have hfits : (2 + FacetCell.titlePercents showTitle) * (of n wanted).rows ≤ 100 := by
      cases showTitle with
      | true =>
          change _ ≤ 16 at hfew
          change 6 * _ ≤ 100
          omega
      | false =>
          change _ ≤ 50 at hfew
          change 2 * _ ≤ 100
          omega
    have hinside := hrow.inside hmargin (by norm_num) hrowIndex (by omega) hfits
    rw [← htop, ← hheight] at hinside
    exact hinside
  · intro other hother hne
    have hother' := box?_of_mem_items hn hwanted showTitle hother
    exact ⟨_, hother', apart_of_index_ne hn hwanted showTitle hcell hother hne
      (box?_of_mem_items hn hwanted showTitle hcell) hother'⟩

/-- A week in three columns. -/
theorem boxes_usable_week :
    7 < 2 ^ 64 ∧ (∀ c ∈ some 3, c < 2 ^ 64) ∧
      ∀ cell ∈ (of 7 (some 3)).items, ∃ box, (cell.grid true).box? = some box ∧
        0 < box.width ∧ 0 < box.height ∧ box.InColumn cell ∧ box.InRow cell ∧
        ∀ other ∈ (of 7 (some 3)).items, other.index ≠ cell.index →
          ∃ otherBox, (other.grid true).box? = some otherBox ∧ box.Apart otherBox := by
  have hcount : 7 < 2 ^ 64 := by norm_num
  have hwanted : ∀ c ∈ some 3, c < 2 ^ 64 := by
    rintro _ ⟨⟩
    norm_num
  refine ⟨hcount, hwanted, fun cell hcell => ?_⟩
  have hcols : (of 7 (some 3)).cols = 3 := rfl
  have hrows : (of 7 (some 3)).rows = 3 := rfl
  obtain ⟨box, hbox, -, hwidth, -, hheight, hcolumn, hrow, hapart⟩ :=
    boxes_usable hcount hwanted true cell hcell
  rw [hcols] at hwidth hcolumn
  rw [hrows] at hheight hrow
  exact ⟨box, hbox, hwidth.mpr (by norm_num), hheight.mpr (by decide), hcolumn (by norm_num),
    hrow (by decide), hapart⟩

/-- Thirteen titled plots below each other have no height, and seventeen do not even start
inside their cells. -/
theorem boxes_collapse :
    (∃ cell ∈ (of 13 (some 1)).items, ∃ box, (cell.grid true).box? = some box ∧
      ¬ 0 < box.height) ∧
    ∃ cell ∈ (of 17 (some 1)).items, ∃ box, (cell.grid true).box? = some box ∧
      ¬ box.InRow cell := by
  constructor
  · obtain ⟨cell, hcell, hbox⟩ : ∃ cell ∈ (of 13 (some 1)).items,
        (cell.grid true).box? = some ⟨2, 6, 96, 0⟩ := by
      decide +kernel
    exact ⟨cell, hcell, _, hbox, lt_irrefl _⟩
  · obtain ⟨cell, hcell, hfirst, hbox⟩ : ∃ cell ∈ (of 17 (some 1)).items,
        cell.index = 0 ∧ (cell.grid true).box? = some ⟨2, 6, 96, 0⟩ := by
      decide +kernel
    refine ⟨cell, hcell, _, hbox, fun hrow => ?_⟩
    obtain ⟨-, -, htop, -, hheight⟩ := mem_items hcell
    have hcount : 0 < 17 := by norm_num
    have hfew : 17 ≤ 50 := by norm_num
    have hplace := (FacetCell.near_place hcount hfew hcount).within
    have hstep := (FacetCell.near_step hcount hfew).within
    have hcols : (of 17 (some 1)).cols = 1 := rfl
    have hrows : (of 17 (some 1)).rows = 17 := rfl
    have hends := hrow.2
    rw [htop, hheight, hfirst, hcols, hrows, Nat.zero_div] at hends
    have hslack := slack_le
    rw [abs_le] at hplace hstep
    norm_num at hends hplace hstep
    linarith

end FacetLayout

end ChartCompiler
