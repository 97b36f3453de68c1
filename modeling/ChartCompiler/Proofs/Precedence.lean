import ChartCompiler.Proofs.FirstSeen
import Mathlib.Data.List.Nodup

/-!
# Settled features

A rule only takes features away, and what it takes away never comes back. So
each rule holds from the moment it was applied, and the features that stay at
the end satisfy every rule of the table at once. Resolving such features again
changes nothing.

For the standard rules `stays` says of each feature directly when it stays.
-/

namespace ChartCompiler

namespace Resolution

/-- No winner of a rule stands beside a feature that has to give way to it. -/
def Settled (rules : List Rule) (active : List Feature) : Prop :=
  ∀ rule ∈ rules, rule.winner ∈ active →
    ∀ loser ∈ rule.suppresses, loser ∉ active

/-! ## One suppression, one rule, one table -/

theorem active_suppress (winner : Feature) (r : Resolution) (loser : Feature) :
    (suppress winner r loser).active = r.active.erase loser := by
  unfold suppress
  split
  · rfl
  · next habsent => exact (List.erase_of_not_mem habsent).symm

theorem active_foldl_suppress (winner : Feature) (r : Resolution)
    (losers : List Feature) :
    (losers.foldl (suppress winner) r).active = r.active.diff losers := by
  induction losers generalizing r with
  | nil => exact (List.diff_nil _).symm
  | cons loser rest ih =>
      rw [List.foldl_cons, ih, active_suppress, List.diff_cons]

theorem active_apply (r : Resolution) (rule : Rule) :
    (r.apply rule).active =
      if rule.winner ∈ r.active then r.active.diff rule.suppresses
      else r.active := by
  unfold apply
  split
  · exact active_foldl_suppress rule.winner r rule.suppresses
  · rfl

theorem active_apply_sublist (r : Resolution) (rule : Rule) :
    (r.apply rule).active.Sublist r.active := by
  rw [active_apply]
  split
  · exact List.diff_sublist _ _
  · exact List.Sublist.refl _

theorem active_foldl_apply_sublist (rules : List Rule) (r : Resolution) :
    (rules.foldl apply r).active.Sublist r.active := by
  induction rules generalizing r with
  | nil => exact List.Sublist.refl _
  | cons rule rest ih =>
      exact (ih (r.apply rule)).trans (active_apply_sublist r rule)

/-- Right after a rule was applied, its losers do not stand beside its winner. -/
theorem notMem_active_apply {r : Resolution} (hnodup : r.active.Nodup)
    {rule : Rule} (hwinner : rule.winner ∈ (r.apply rule).active)
    {loser : Feature} (hloser : loser ∈ rule.suppresses) :
    loser ∉ (r.apply rule).active := by
  have hfires : rule.winner ∈ r.active :=
    (active_apply_sublist r rule).subset hwinner
  rw [active_apply, if_pos hfires]
  intro hstays
  exact (hnodup.mem_sdiff_iff.mp hstays).2 hloser

theorem foldl_suppress_eq_self {winner : Feature} {r : Resolution}
    {losers : List Feature} (habsent : ∀ loser ∈ losers, loser ∉ r.active) :
    losers.foldl (suppress winner) r = r := by
  induction losers with
  | nil => rfl
  | cons loser rest ih =>
      rw [List.foldl_cons, suppress, if_neg (habsent loser List.mem_cons_self)]
      exact ih fun other hother =>
        habsent other (List.mem_cons_of_mem loser hother)

/-- A rule that holds already takes nothing away. -/
theorem apply_eq_self {r : Resolution} {rule : Rule}
    (hholds : rule.winner ∈ r.active → ∀ loser ∈ rule.suppresses, loser ∉ r.active) :
    r.apply rule = r := by
  unfold apply
  split
  · next hwinner => exact foldl_suppress_eq_self (hholds hwinner)
  · rfl

/-- What one rule leaves behind is kept by all later ones, so at the end every
rule of the table holds. -/
theorem settled_foldl_apply (rules : List Rule) {r : Resolution}
    (hnodup : r.active.Nodup) : Settled rules (rules.foldl apply r).active := by
  induction rules generalizing r with
  | nil => exact fun rule hrule => absurd hrule List.not_mem_nil
  | cons first rest ih =>
      have hkept := active_foldl_apply_sublist rest (r.apply first)
      intro rule hrule hwinner loser hloser
      rcases List.mem_cons.mp hrule with rfl | hlater
      · exact fun hstays => notMem_active_apply hnodup (hkept.subset hwinner)
          hloser (hkept.subset hstays)
      · exact ih (hnodup.sublist (active_apply_sublist r first)) rule hlater
          hwinner loser hloser

theorem foldl_apply_eq_self {rules : List Rule} {r : Resolution}
    (hsettled : Settled rules r.active) : rules.foldl apply r = r := by
  induction rules with
  | nil => rfl
  | cons rule rest ih =>
      rw [List.foldl_cons, apply_eq_self (hsettled rule List.mem_cons_self)]
      exact ih fun other hother =>
        hsettled other (List.mem_cons_of_mem rule hother)

/-! ## Whole resolutions -/

theorem nodup_distinct (requested : List Feature) : (distinct requested).Nodup := by
  rw [distinct_eq_firstSeen]
  exact nodup_firstSeen some requested

theorem active_resolve_sublist (rules : List Rule) (requested : List Feature) :
    (resolve rules requested).active.Sublist (distinct requested) :=
  active_foldl_apply_sublist rules _

theorem nodup_active_resolve (rules : List Rule) (requested : List Feature) :
    (resolve rules requested).active.Nodup :=
  (nodup_distinct requested).sublist (active_resolve_sublist rules requested)

theorem settled_resolve (rules : List Rule) (requested : List Feature) :
    Settled rules (resolve rules requested).active :=
  settled_foldl_apply rules (nodup_distinct requested)

/-- Settled features all stay, and nothing gives way. -/
theorem resolve_of_settled {rules : List Rule} {features : List Feature}
    (hnodup : features.Nodup) (hsettled : Settled rules features) :
    resolve rules features = ⟨features, []⟩ := by
  have hdistinct : distinct features = features := by
    rw [distinct_eq_firstSeen]
    exact firstSeen_some_of_nodup hnodup
  unfold resolve
  rw [hdistinct]
  exact foldl_apply_eq_self hsettled

/-- What stays, asked for on its own, stays as it is. -/
theorem resolve_active_resolve (rules : List Rule) (requested : List Feature) :
    resolve rules (resolve rules requested).active =
      ⟨(resolve rules requested).active, []⟩ :=
  resolve_of_settled (nodup_active_resolve rules requested)
    (settled_resolve rules requested)

theorem isActive_eq_true_iff (r : Resolution) (feature : Feature) :
    r.isActive feature = true ↔ feature ∈ r.active := by
  rw [isActive, decide_eq_true_iff]

end Resolution

/-! ## The standard rules -/

namespace Feature

theorem mem_all (f : Feature) : f ∈ all := by
  cases f <;> decide

/-- Of the features that are asked for, those that stay by the standard rules.
A secondary axis that gave way to sideways bars does not push out a colour. -/
def stays (asked : Feature → Bool) : Feature → Bool
  | errorBar => asked errorBar
  | facet => asked facet && !asked errorBar
  | dualAxis =>
      asked dualAxis && !(asked errorBar || asked facet || asked horizontal)
  | colorGroup =>
      asked colorGroup && !(asked errorBar || asked facet) &&
        !(asked dualAxis && !asked horizontal)
  | horizontal => asked horizontal && !asked errorBar

theorem asked_of_stays {asked : Feature → Bool} {f : Feature}
    (hstays : stays asked f = true) : asked f = true := by
  cases f with
  | errorBar => exact hstays
  | facet => exact (Bool.and_eq_true_iff.mp hstays).1
  | dualAxis => exact (Bool.and_eq_true_iff.mp hstays).1
  | colorGroup => exact (Bool.and_eq_true_iff.mp (Bool.and_eq_true_iff.mp hstays).1).1
  | horizontal => exact (Bool.and_eq_true_iff.mp hstays).1

/-- A choice of features, one bit for each. -/
def choice (e f d c h : Bool) : Feature → Bool
  | errorBar => e
  | facet => f
  | dualAxis => d
  | colorGroup => c
  | horizontal => h

theorem eq_choice (asked : Feature → Bool) :
    asked = choice (asked errorBar) (asked facet) (asked dualAxis)
      (asked colorGroup) (asked horizontal) := by
  funext f
  cases f <;> rfl

theorem active_resolve_choice : ∀ e f d c h : Bool,
    (Resolution.resolve Rule.standard (all.filter (choice e f d c h))).active =
      all.filter (stays (choice e f d c h)) := by
  decide

theorem active_resolve_standard (asked : Feature → Bool) :
    (Resolution.resolve Rule.standard (all.filter asked)).active =
      all.filter (stays asked) := by
  rw [eq_choice asked]
  exact active_resolve_choice _ _ _ _ _

end Feature

namespace ChartSpec

/-- The specification asks for the feature, and its chart type can do it. -/
def asks (spec : ChartSpec) (f : Feature) : Bool :=
  spec.requests f && spec.chartType.capabilities.supports f

theorem isActive_resolution (spec : ChartSpec) (f : Feature) :
    spec.resolution.isActive f = Feature.stays spec.asks f := by
  have hactive : spec.resolution.active = Feature.all.filter (Feature.stays spec.asks) :=
    Feature.active_resolve_standard spec.asks
  rw [Resolution.isActive, hactive]
  cases f <;> simp [Feature.all]

/-- What is not asked for does not stay. -/
theorem isActive_eq_false_of_asks {spec : ChartSpec} {f : Feature}
    (hasks : spec.asks f = false) : spec.resolution.isActive f = false := by
  rw [isActive_resolution, Bool.eq_false_iff]
  intro hstays
  rw [Feature.asked_of_stays hstays] at hasks
  cases hasks

/-- What the chart type cannot do does not stay. -/
theorem isActive_eq_false_of_supports {spec : ChartSpec} {f : Feature}
    (hsupports : spec.chartType.capabilities.supports f = false) :
    spec.resolution.isActive f = false := by
  apply isActive_eq_false_of_asks
  rw [asks, hsupports, Bool.and_false]

end ChartSpec

end ChartCompiler
