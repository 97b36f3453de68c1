import ChartCompiler.Proofs.Composition
import ChartCompiler.Proofs.Orientation
import ChartCompiler.Proofs.SeriesNames

/-!
# Names in the legend

A legend is shown where a colour or a secondary axis tells series apart, and it lists the names
of the series. Labels of one field are never repeated, so series can share a name in two ways
only: two fields may have one display name, and a group may be labelled as the fitted line is.
-/

namespace ChartCompiler

open Series (naming)

theorem Table.mem_distinctLabels_iff (rows : Table) (field label : String) :
    label ∈ rows.distinctLabels field ↔ ∃ row ∈ rows, row.label? field = some label := by
  rw [distinctLabels_eq_firstSeen]
  exact mem_firstSeen_iff _ rows label

/-- The names of groups are apart, and the name of a fitted line is apart from them unless a row
has it for its label. -/
theorem SeriesRequest.nodup_names_iff {request : SeriesRequest} {group : FieldDef}
    (hgroup : request.group = some group) (rows : Table) :
    (request.groupNames rows ++ request.trendNames rows).Nodup ↔
      (request.HasFit rows → ∀ row ∈ rows, row.label? group.field ≠ some "Linear fit") := by
  have hlabels : (request.groupNames rows).Nodup := by
    rw [groupNames, hgroup]
    exact rows.nodup_distinctLabels group.field
  by_cases hfit : request.HasFit rows
  · have hnames : request.groupNames rows = rows.distinctLabels group.field := by
      rw [groupNames, hgroup]
    rw [trendNames, if_pos hfit, ← List.concat_eq_append, List.nodup_concat, hnames,
      Table.mem_distinctLabels_iff]
    constructor
    · rintro ⟨hfree, -⟩ - row hrow hlabel
      exact hfree ⟨row, hrow, hlabel⟩
    · intro hfree
      refine ⟨?_, hnames ▸ hlabels⟩
      rintro ⟨row, hrow, hlabel⟩
      exact hfree hfit row hrow hlabel
  · rw [trendNames, if_neg hfit, List.append_nil]
    exact ⟨fun _ hother => absurd hother hfit, fun _ => hlabels⟩

namespace ChartSpec

theorem map_name_eq (config : RenderConfig) :
    config.series.map Series.name = (config.series.map naming).map Prod.fst := by
  rw [List.map_map]
  rfl

/-! ## Colours -/

section Colors

variable {spec : ChartSpec} (hactive : spec.resolution.isActive .colorGroup = true)
include hactive

/-- A colour that stays is alone, but for sideways bars. -/
theorem isActive_of_colorGroup :
    spec.resolution.isActive .errorBar = false ∧ spec.resolution.isActive .facet = false ∧
      spec.resolution.isActive .dualAxis = false := by
  simp only [isActive_resolution] at hactive ⊢
  unfold Feature.stays at hactive ⊢
  cases herror : spec.asks .errorBar <;> cases hfacet : spec.asks .facet <;>
    cases hhorizontal : spec.asks .horizontal <;> simp_all

theorem exists_color : ∃ color, spec.encoding.color = some color := by
  rw [isActive_resolution] at hactive
  have hasked := Feature.asked_of_stays hactive
  exact Option.isSome_iff_exists.mp (Bool.and_eq_true_iff.mp hasked).1

/-- The groups of a colour are drawn as means or as points. -/
theorem showsMeans_or_scatter_of_colorGroup :
    spec.chartType.showsMeans = true ∨ spec.chartType = .scatter := by
  rw [isActive_resolution] at hactive
  obtain ⟨-, hsupports⟩ := Bool.and_eq_true_iff.mp (Feature.asked_of_stays hactive)
  cases hchart : spec.chartType with
  | scatter => exact .inr rfl
  | histogram | boxplot | violin =>
      rw [hchart] at hsupports
      cases hsupports
  | _ => exact .inl rfl

theorem map_name_colorGroup (rows : Table) :
    (spec.config rows).series.map Series.name =
      spec.splitRequest.groupNames rows ++ spec.splitRequest.trendNames rows := by
  obtain ⟨herror, hfacet, hdual⟩ := isActive_of_colorGroup hactive
  rw [map_name_eq, Series.isIntrinsic_naming.map_single herror hfacet hdual,
    SeriesRequest.map_naming_build (showsMeans_or_scatter_of_colorGroup hactive), List.map_map]
  exact List.map_id _

end Colors

/-! ## Legends -/

/-- Series in the legend go by names of their own: the fields on two axes are not called alike,
and no group is called like the line that is fitted. -/
structure NamesApart (spec : ChartSpec) (rows : Table) : Prop where
  axes : spec.resolution.isActive .dualAxis = true →
    ∀ y2 ∈ spec.encoding.y2, y2.displayName ≠ spec.encoding.y.displayName
  groups : spec.resolution.isActive .colorGroup = true → spec.splitRequest.HasFit rows →
    ∀ color ∈ spec.encoding.color, ∀ row ∈ rows, row.label? color.field ≠ some "Linear fit"

theorem nodup_names_dualAxis_iff {spec : ChartSpec}
    (hactive : spec.resolution.isActive .dualAxis = true) (rows : Table) :
    ((spec.config rows).series.map Series.name).Nodup ↔ spec.NamesApart rows := by
  obtain ⟨y2, hy2⟩ := exists_y2 hactive
  have hcolor := isActive_of_dualAxis hactive .colorGroup
  have hnames : (spec.config rows).series.map Series.name =
      [spec.encoding.y.displayName, y2.displayName] := by
    rw [map_name_eq, map_naming_dualAxis hactive hy2]
    rfl
  rw [hnames, List.nodup_cons, List.mem_singleton]
  constructor
  · rintro ⟨hne, -⟩
    refine ⟨fun _ other hother => ?_, fun hgroups => ?_⟩
    · rw [hy2, Option.mem_some] at hother
      exact hother ▸ Ne.symm hne
    · rw [hcolor] at hgroups
      cases hgroups
  · intro hapart
    exact ⟨Ne.symm (hapart.axes hactive y2 hy2), List.nodup_singleton _⟩

theorem nodup_names_colorGroup_iff {spec : ChartSpec}
    (hactive : spec.resolution.isActive .colorGroup = true) (rows : Table) :
    ((spec.config rows).series.map Series.name).Nodup ↔ spec.NamesApart rows := by
  obtain ⟨color, hcolor⟩ := exists_color hactive
  obtain ⟨-, -, hdual⟩ := isActive_of_colorGroup hactive
  have hgroup : spec.splitRequest.group = some color := by
    rw [splitRequest, hactive, if_pos rfl, hcolor]
  rw [map_name_colorGroup hactive, SeriesRequest.nodup_names_iff hgroup]
  constructor
  · intro hfree
    refine ⟨fun haxes => ?_, fun _ hfit other hother => ?_⟩
    · rw [hdual] at haxes
      cases haxes
    · rw [hcolor, Option.mem_some] at hother
      exact hother ▸ hfree hfit
  · intro hapart hfit
    exact hapart.groups hactive hfit color hcolor

/-- A legend that is shown lists the names of the series, and a colour or a secondary axis stays. -/
theorem legend_of_visible {spec : ChartSpec} {rows : Table}
    (hvisible : (spec.config rows).legend.visible = true) :
    (spec.config rows).legend.data = some ((spec.config rows).series.map Series.name) ∧
      (spec.resolution.isActive .colorGroup = true ∨
        spec.resolution.isActive .dualAxis = true) := by
  have hnames : (spec.config rows).series.map Series.name =
      (spec.figure spec.resolution spec.style.theme.palette rows).series.map Series.name := by
    have hname : Series.IsIntrinsic Series.name := ⟨fun _ => rfl, fun _ _ => rfl, fun _ _ => rfl⟩
    rw [config_eq, hname.map_present]
  rw [hnames]
  rw [config_eq, legend_present] at hvisible ⊢
  dsimp only at hvisible ⊢
  unfold Legend.of at hvisible ⊢
  split_ifs at hvisible ⊢ with hshown
  exact ⟨rfl, Bool.or_eq_true_iff.mp (Bool.and_eq_true_iff.mp hshown).2⟩

/-- For every valid specification and every table, a legend that is shown lists the names of the
series in their order. Two of these names are the same exactly where the fields on two axes are
called alike, or a group is called like the line that is fitted to its points. -/
theorem compile_legend_names {spec : ChartSpec} (hvalid : spec.violations = []) (rows : Table) :
    ∃ config, compile spec rows = .ok config ∧
      (config.legend.visible = true →
        config.legend.data = some (config.series.map Series.name) ∧
          ((config.series.map Series.name).Nodup ↔ spec.NamesApart rows)) := by
  refine ⟨spec.config rows, compile_eq_ok hvalid rows, ?_⟩
  intro hvisible
  obtain ⟨hdata, hcolor | hdual⟩ := legend_of_visible hvisible
  · exact ⟨hdata, nodup_names_colorGroup_iff hcolor rows⟩
  · exact ⟨hdata, nodup_names_dualAxis_iff hdual rows⟩

/-- The paired chart shows a legend, and its two fields are not called alike. -/
theorem compile_legend_names_paired :
    paired.violations = [] ∧ ∃ config, compile paired .sales = .ok config ∧
      config.legend.visible = true ∧
      config.legend.data = some (config.series.map Series.name) ∧
      (config.series.map Series.name).Nodup := by
  have hvalid : paired.violations = [] :=
    violations_without [.errorBar, .facet, .horizontal] violations_crowded
  have hvisible : (paired.config .sales).legend.visible = true := by decide +kernel
  have hapart : paired.NamesApart .sales := by
    refine ⟨fun _ y2 hy2 => ?_, fun hgroups => ?_⟩
    · rw [← Option.mem_some.mp hy2]
      decide
    · exact absurd hgroups (by decide +kernel)
  obtain ⟨config, hconfig, hlegend⟩ := compile_legend_names hvalid .sales
  obtain rfl : paired.config .sales = config :=
    Except.ok.inj ((compile_eq_ok hvalid .sales).symm.trans hconfig)
  obtain ⟨hdata, hnodup⟩ := hlegend hvisible
  exact ⟨hvalid, _, hconfig, hvisible, hdata, hnodup.mpr hapart⟩

/-- The paired chart with one title for sales and profits. -/
def alike : ChartSpec :=
  { paired with encoding := { paired.encoding with
      y2 := some ⟨"profit", .quantitative, some "Sales"⟩ } }

/-- Its legend has one name twice. -/
theorem legend_repeats_name :
    alike.violations = [] ∧ ∃ config, compile alike .sales = .ok config ∧
      config.legend.visible = true ∧ config.legend.data = some ["Sales", "Sales"] ∧
      config.series.map Series.name = ["Sales", "Sales"] := by
  have hvalid : alike.violations = [] := by decide +kernel
  have hvisible : (alike.config .sales).legend.visible = true := by decide +kernel
  have hactive : alike.resolution.isActive .dualAxis = true := by decide +kernel
  have hnames : (alike.config .sales).series.map Series.name = ["Sales", "Sales"] := by
    rw [map_name_eq, map_naming_dualAxis hactive rfl]
    rfl
  obtain ⟨hdata, -⟩ := legend_of_visible hvisible
  exact ⟨hvalid, _, compile_eq_ok hvalid .sales, hvisible, hnames ▸ hdata, hnames⟩

end ChartSpec

end ChartCompiler
