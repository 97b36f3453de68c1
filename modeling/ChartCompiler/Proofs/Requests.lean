import ChartCompiler.Proofs.Precedence
import Mathlib.Data.List.Dedup

/-!
# What becomes of each request

Under any table of rules every requested feature either stays or gives way, and
that once. A rule only moves features from those that are active to those that
gave way: `apply_moves` says all that it can do. `Accounts` is the invariant
that follows, from the request on and through any number of rules.

A rule asks of the active features only which they are. So requests that name the
same features in another order, or more than once, come out `Alike`.
-/

namespace ChartCompiler

open scoped List

namespace Resolution

/-! ## One rule -/

/-- Suppressions move features from the active ones behind their winner. -/
theorem foldl_suppress_moves (winner : Feature) (losers : List Feature)
    (r : Resolution) :
    ∃ lost, (∀ loser ∈ lost, loser ∈ losers) ∧
      (losers.foldl (suppress winner) r).suppressed =
        r.suppressed ++ lost.map (Prod.mk winner) ∧
      ((losers.foldl (suppress winner) r).active ++ lost).Perm r.active := by
  induction losers generalizing r with
  | nil => exact ⟨[], by simp, by simp, by simp⟩
  | cons loser rest ih =>
      rw [List.foldl_cons]
      by_cases hactive : loser ∈ r.active
      · obtain ⟨lost, hlost, hsuppressed, hperm⟩ :=
          ih ⟨r.active.erase loser, r.suppressed ++ [(winner, loser)]⟩
        rw [suppress, if_pos hactive]
        refine ⟨loser :: lost, ?_, ?_, ?_⟩
        · intro other hother
          rcases List.mem_cons.mp hother with rfl | hlater
          · exact List.mem_cons_self
          · exact List.mem_cons_of_mem loser (hlost other hlater)
        · rw [hsuppressed, List.append_assoc]
          rfl
        · exact List.perm_middle.trans
            ((hperm.cons loser).trans (List.perm_cons_erase hactive).symm)
      · obtain ⟨lost, hlost, hmoved⟩ := ih r
        rw [suppress, if_neg hactive]
        exact ⟨lost, fun other hother =>
          List.mem_cons_of_mem loser (hlost other hother), hmoved⟩

/-- All that a rule does: if its winner is active, some of its losers leave the
active features and are listed behind the winner. -/
theorem apply_moves (r : Resolution) (rule : Rule) :
    ∃ lost, (∀ loser ∈ lost, rule.winner ∈ r.active ∧ loser ∈ rule.suppresses) ∧
      (r.apply rule).suppressed =
        r.suppressed ++ lost.map (Prod.mk rule.winner) ∧
      ((r.apply rule).active ++ lost).Perm r.active := by
  unfold apply
  split
  · next hwinner =>
      obtain ⟨lost, hlost, hmoved⟩ :=
        foldl_suppress_moves rule.winner rule.suppresses r
      exact ⟨lost, fun loser hloser => ⟨hwinner, hlost loser hloser⟩, hmoved⟩
  · exact ⟨[], by simp, by simp, by simp⟩

/-! ## Any number of rules -/

/-- Every request is accounted for: it is active or gave way, each exactly once,
and what gave way did so to a requested winner of a rule that says so. -/
structure Accounts (rules : List Rule) (requested : List Feature)
    (r : Resolution) : Prop where
  nodup : r.active.Nodup
  order : r.active.Pairwise fun f g => requested.idxOf f < requested.idxOf g
  each : (r.active ++ r.suppressed.map Prod.snd).Perm requested.dedup
  warranted : ∀ winner loser, (winner, loser) ∈ r.suppressed →
    winner ∈ requested ∧ ∃ rule ∈ rules, rule.winner = winner ∧ loser ∈ rule.suppresses
  /-- Without rules against their own winners, no loser wins later on. -/
  lostForGood : (∀ rule ∈ rules, rule.winner ∉ rule.suppresses) →
    r.suppressed.Pairwise fun earlier later => later.1 ≠ earlier.2

variable {rules : List Rule} {requested : List Feature}

/-- Before the first rule every requested feature is active. -/
theorem accounts_distinct (rules : List Rule) (requested : List Feature) :
    Accounts rules requested ⟨distinct requested, []⟩ := by
  have hnodup := nodup_distinct requested
  refine ⟨hnodup, ?_, ?_, by simp, fun _ => List.Pairwise.nil⟩
  · rw [distinct_eq_firstSeen]
    exact pairwise_idxOf_firstSeen requested
  · rw [List.map_nil, List.append_nil]
    refine (List.perm_ext_iff_of_nodup hnodup (List.nodup_dedup requested)).mpr ?_
    intro f
    rw [distinct_eq_firstSeen, mem_firstSeen_some_iff, List.mem_dedup]

namespace Accounts

variable {r : Resolution} (haccounts : r.Accounts rules requested)
include haccounts

theorem requested_of_active {f : Feature} (hactive : f ∈ r.active) : f ∈ requested :=
  List.mem_dedup.mp (haccounts.each.subset (List.mem_append_left _ hactive))

/-- Nothing that gave way is active. -/
theorem ne_of_active_of_suppressed {f : Feature} (hactive : f ∈ r.active)
    {pair : Feature × Feature} (hpair : pair ∈ r.suppressed) : f ≠ pair.2 := by
  have hnodup := haccounts.each.nodup_iff.mpr (List.nodup_dedup requested)
  obtain ⟨-, -, hapart⟩ := List.nodup_append.mp hnodup
  exact hapart f hactive pair.2 (List.mem_map_of_mem hpair)

/-- A rule moves requests, so none is lost and none is doubled. -/
theorem each_apply (rule : Rule) :
    ((r.apply rule).active ++ (r.apply rule).suppressed.map Prod.snd).Perm
      requested.dedup := by
  obtain ⟨lost, -, hsuppressed, hperm⟩ := apply_moves r rule
  have hlosers : (r.apply rule).suppressed.map Prod.snd =
      r.suppressed.map Prod.snd ++ lost := by
    rw [hsuppressed, List.map_append, List.map_map]
    exact congrArg _ (List.map_id lost)
  rw [hlosers]
  calc (r.apply rule).active ++ (r.suppressed.map Prod.snd ++ lost)
    _ ~ (r.apply rule).active ++ (lost ++ r.suppressed.map Prod.snd) :=
        List.perm_append_comm.append_left _
    _ = ((r.apply rule).active ++ lost) ++ r.suppressed.map Prod.snd :=
        (List.append_assoc _ _ _).symm
    _ ~ r.active ++ r.suppressed.map Prod.snd := hperm.append_right _
    _ ~ requested.dedup := haccounts.each

theorem warranted_apply {rule : Rule} (hrule : rule ∈ rules) (winner loser : Feature)
    (hpair : (winner, loser) ∈ (r.apply rule).suppressed) :
    winner ∈ requested ∧
      ∃ rule ∈ rules, rule.winner = winner ∧ loser ∈ rule.suppresses := by
  obtain ⟨lost, hlost, hsuppressed, -⟩ := apply_moves r rule
  rw [hsuppressed] at hpair
  rcases List.mem_append.mp hpair with hearlier | hnew
  · exact haccounts.warranted winner loser hearlier
  · obtain ⟨other, hother, heq⟩ := List.mem_map.mp hnew
    obtain ⟨rfl, rfl⟩ := Prod.mk.inj heq
    obtain ⟨hwinner, hloser⟩ := hlost other hother
    exact ⟨haccounts.requested_of_active hwinner, rule, hrule, rfl, hloser⟩

/-- What a rule adds has its active winner in front, which is none of the losers so
far, and none of its own. -/
theorem lostForGood_apply {rule : Rule} (hrule : rule ∈ rules)
    (hothers : ∀ rule ∈ rules, rule.winner ∉ rule.suppresses) :
    (r.apply rule).suppressed.Pairwise fun earlier later => later.1 ≠ earlier.2 := by
  obtain ⟨lost, hlost, hsuppressed, -⟩ := apply_moves r rule
  rw [hsuppressed]
  refine List.pairwise_append.mpr ⟨haccounts.lostForGood hothers, ?_, ?_⟩
  · refine List.pairwise_map.mpr (List.pairwise_of_forall_mem_list ?_)
    intro earlier hearlier later _ (hsame : rule.winner = earlier)
    obtain ⟨-, hloser⟩ := hlost earlier hearlier
    rw [← hsame] at hloser
    exact hothers rule hrule hloser
  · intro pair hpair later hlater
    obtain ⟨other, hother, rfl⟩ := List.mem_map.mp hlater
    obtain ⟨hwinner, -⟩ := hlost other hother
    exact haccounts.ne_of_active_of_suppressed hwinner hpair

/-- Every rule of the table keeps the account. -/
theorem apply {rule : Rule} (hrule : rule ∈ rules) :
    (r.apply rule).Accounts rules requested := by
  have hsublist := active_apply_sublist r rule
  exact ⟨haccounts.nodup.sublist hsublist, haccounts.order.sublist hsublist,
    haccounts.each_apply rule, haccounts.warranted_apply hrule,
    haccounts.lostForGood_apply hrule⟩

/-- So do any number of rules of the table. -/
theorem foldl_apply {steps : List Rule} (hsteps : ∀ rule ∈ steps, rule ∈ rules) :
    (steps.foldl Resolution.apply r).Accounts rules requested := by
  induction steps generalizing r with
  | nil => exact haccounts
  | cons rule rest ih =>
      exact ih (haccounts.apply (hsteps rule List.mem_cons_self)) fun other hother =>
        hsteps other (List.mem_cons_of_mem rule hother)

end Accounts

/-- Under every table of rules every list of requests is accounted for, and at the
end no winner of a rule stands beside one of its losers. -/
theorem resolve_accounts (rules : List Rule) (requested : List Feature) :
    (resolve rules requested).Accounts rules requested ∧
      Settled rules (resolve rules requested).active :=
  ⟨(accounts_distinct rules requested).foldl_apply fun _ hrule => hrule,
    settled_resolve rules requested⟩

/-- Of rules that exclude each other the first one applies. -/
example :
    resolve [⟨.facet, [.dualAxis]⟩, ⟨.dualAxis, [.facet]⟩] [.dualAxis, .facet, .dualAxis] =
      ⟨[.facet], [(.facet, .dualAxis)]⟩ := by decide

/-! ## Requests in another order -/

/-- The same features are active, in any order, and the same ones gave way one after
another. -/
structure Alike (r other : Resolution) : Prop where
  active : r.active.Perm other.active
  suppressed : r.suppressed = other.suppressed

namespace Alike

variable {r other : Resolution}

/-- A suppression finds its loser on both sides or on neither. -/
theorem suppress (halike : r.Alike other) (winner loser : Feature) :
    (Resolution.suppress winner r loser).Alike
      (Resolution.suppress winner other loser) := by
  have hsame : loser ∈ r.active ↔ loser ∈ other.active := halike.active.mem_iff
  unfold Resolution.suppress
  by_cases hactive : loser ∈ r.active
  · rw [if_pos hactive, if_pos (hsame.mp hactive)]
    exact ⟨halike.active.erase loser,
      congrArg (· ++ [(winner, loser)]) halike.suppressed⟩
  · rw [if_neg hactive, if_neg fun hother => hactive (hsame.mpr hother)]
    exact halike

theorem foldl_suppress (halike : r.Alike other) (winner : Feature)
    (losers : List Feature) :
    (losers.foldl (Resolution.suppress winner) r).Alike
      (losers.foldl (Resolution.suppress winner) other) := by
  induction losers generalizing r other with
  | nil => exact halike
  | cons loser rest ih => exact ih (halike.suppress winner loser)

/-- A rule applies on both sides or on neither. -/
theorem apply (halike : r.Alike other) (rule : Rule) :
    (r.apply rule).Alike (other.apply rule) := by
  have hsame : rule.winner ∈ r.active ↔ rule.winner ∈ other.active :=
    halike.active.mem_iff
  unfold Resolution.apply
  by_cases hwinner : rule.winner ∈ r.active
  · rw [if_pos hwinner, if_pos (hsame.mp hwinner)]
    exact halike.foldl_suppress rule.winner rule.suppresses
  · rw [if_neg hwinner, if_neg fun hother => hwinner (hsame.mpr hother)]
    exact halike

theorem foldl_apply (halike : r.Alike other) (rules : List Rule) :
    (rules.foldl Resolution.apply r).Alike (rules.foldl Resolution.apply other) := by
  induction rules generalizing r other with
  | nil => exact halike
  | cons rule rest ih => exact ih (halike.apply rule)

end Alike

/-- Without repetitions, requests of the same features are the same up to order. -/
theorem distinct_perm {requested other : List Feature}
    (hsame : ∀ f, f ∈ other ↔ f ∈ requested) :
    (distinct other).Perm (distinct requested) := by
  refine (List.perm_ext_iff_of_nodup (nodup_distinct other)
    (nodup_distinct requested)).mpr ?_
  intro f
  rw [distinct_eq_firstSeen, distinct_eq_firstSeen, mem_firstSeen_some_iff,
    mem_firstSeen_some_iff]
  exact hsame f

/-- Under every table of rules, what stays of a request stays when it is asked for on
its own, and nothing gives way then. A request of the same features in any order, each
any number of times, has the same suppressions in the same order, and the same
features stay. -/
theorem resolve_idempotent_unordered (rules : List Rule) {requested other : List Feature}
    (hsame : ∀ f, f ∈ other ↔ f ∈ requested) :
    resolve rules (resolve rules requested).active =
        ⟨(resolve rules requested).active, []⟩ ∧
      (resolve rules other).suppressed = (resolve rules requested).suppressed ∧
      (resolve rules other).active.Perm (resolve rules requested).active := by
  have hstart : Alike ⟨distinct other, []⟩ ⟨distinct requested, []⟩ :=
    ⟨distinct_perm hsame, rfl⟩
  have halike : (resolve rules other).Alike (resolve rules requested) :=
    hstart.foldl_apply rules
  exact ⟨resolve_active_resolve rules requested, halike.suppressed, halike.active⟩

/-- The first rule suppresses its own winner, and the second one is never applied. -/
theorem resolve_idempotent_unordered_self :
    let rules : List Rule := [⟨.facet, [.facet, .horizontal]⟩, ⟨.horizontal, [.dualAxis]⟩]
    let requested : List Feature := [.horizontal, .colorGroup, .dualAxis, .facet]
    let other : List Feature := [.facet, .dualAxis, .facet, .colorGroup, .horizontal]
    (∀ f, f ∈ other ↔ f ∈ requested) ∧
      resolve rules [.colorGroup, .dualAxis] = ⟨[.colorGroup, .dualAxis], []⟩ ∧
      (resolve rules other).suppressed = [(.facet, .facet), (.facet, .horizontal)] ∧
      (resolve rules other).active.Perm [.colorGroup, .dualAxis] := by
  intro rules requested other
  have hsame : ∀ f, f ∈ other ↔ f ∈ requested := by
    intro f
    cases f <;> decide
  obtain ⟨hagain, hsuppressed, hactive⟩ := resolve_idempotent_unordered rules hsame
  exact ⟨hsame, hagain, hsuppressed, hactive⟩

end Resolution

end ChartCompiler
