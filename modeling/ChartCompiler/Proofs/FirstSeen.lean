import ChartCompiler.Feature.Precedence
import ChartCompiler.Table.Grouping
import Mathlib.Data.List.Induction
import Mathlib.Data.List.Nodup
import Mathlib.Data.List.Perm.Subperm

/-!
# Keys in the order in which they are first seen

Labels, groups and requested features are all collected in one pass that keeps
a key only where it stands first. `firstSeen` is that pass for any key; it
lists every key once and misses none.
-/

namespace ChartCompiler

variable {α κ : Type} [BEq κ] [LawfulBEq κ]

/-- The keys of the items that have one, each where it is first seen. -/
def firstSeen (key : α → Option κ) (items : List α) : List κ :=
  items.foldl (fun seen item =>
    match key item with
    | none => seen
    | some k => if k ∈ seen then seen else seen ++ [k]) []

theorem distinctLabels_eq_firstSeen (rows : Table) (field : String) :
    rows.distinctLabels field = firstSeen (·.label? field) rows := by
  unfold Table.distinctLabels firstSeen
  congr 1
  funext seen row
  dsimp only
  cases row.label? field <;> rfl

theorem distinct_eq_firstSeen (features : List Feature) :
    Resolution.distinct features = firstSeen some features := rfl

theorem firstSeen_append_singleton (key : α → Option κ) (items : List α)
    (item : α) :
    firstSeen key (items ++ [item]) =
      match key item with
      | none => firstSeen key items
      | some k =>
          if k ∈ firstSeen key items then firstSeen key items
          else firstSeen key items ++ [k] := by
  unfold firstSeen
  rw [List.foldl_append, List.foldl_cons, List.foldl_nil]

theorem mem_firstSeen_iff (key : α → Option κ) (items : List α) (k : κ) :
    k ∈ firstSeen key items ↔ ∃ item ∈ items, key item = some k := by
  induction items using List.reverseRecOn with
  | nil => simp [firstSeen]
  | append_singleton items item ih =>
      rw [firstSeen_append_singleton]
      cases hkey : key item with
      | none => simp [ih, or_and_right, exists_or, hkey]
      | some found =>
          by_cases hseen : found ∈ firstSeen key items
          · have hearlier := ih
            simp only [hseen, ↓reduceIte, ih, List.mem_append,
              List.mem_singleton, or_and_right, exists_or, exists_eq_left, hkey,
              Option.some.injEq]
            constructor
            · exact Or.inl
            · rintro (hold | rfl)
              · exact hold
              · exact hearlier.mp hseen
          · simp [hseen, ih, or_and_right, exists_or, hkey, eq_comm]

theorem nodup_firstSeen (key : α → Option κ) (items : List α) :
    (firstSeen key items).Nodup := by
  induction items using List.reverseRecOn with
  | nil => exact List.nodup_nil
  | append_singleton items item ih =>
      rw [firstSeen_append_singleton]
      cases key item with
      | none => exact ih
      | some k =>
          by_cases hseen : k ∈ firstSeen key items
          · simpa only [hseen, ↓reduceIte] using ih
          · simp only [hseen, ↓reduceIte]
            exact List.nodup_append.mpr
              ⟨ih, List.nodup_singleton k, by
                intro a ha b hb
                rw [List.mem_singleton.mp hb]
                exact fun heq => hseen (heq ▸ ha)⟩

theorem mem_firstSeen_some_iff (items : List κ) (k : κ) :
    k ∈ firstSeen some items ↔ k ∈ items := by
  rw [mem_firstSeen_iff]
  simp only [Option.some.injEq, exists_eq_right]

theorem length_firstSeen_some_le (items : List κ) : (firstSeen some items).length ≤ items.length :=
  ((nodup_firstSeen some items).subperm fun k => (mem_firstSeen_some_iff items k).mp).length_le

/-- The keys of the items, each once and in the order of the items that show them first. -/
structure ListsFirstSeen (key : α → Option κ) (items : List α) (keys : List κ) : Prop where
  nodup : keys.Nodup
  mem_iff : ∀ k, k ∈ keys ↔ ∃ item ∈ items, key item = some k
  ordered : keys.Pairwise fun a b =>
    items.findIdx (fun item => key item == some a) <
      items.findIdx (fun item => key item == some b)

/-- Keys stand in the order of the first items that have them. -/
theorem pairwise_findIdx_firstSeen (key : α → Option κ) (items : List α) :
    (firstSeen key items).Pairwise fun a b =>
      items.findIdx (fun item => key item == some a) <
        items.findIdx (fun item => key item == some b) := by
  induction items using List.reverseRecOn with
  | nil => exact List.Pairwise.nil
  | append_singleton items item ih =>
      have hfound : ∀ a ∈ firstSeen key items,
          items.findIdx (fun item => key item == some a) < items.length := by
        intro a ha
        obtain ⟨found, hmem, hkey⟩ := (mem_firstSeen_iff key items a).mp ha
        exact List.findIdx_lt_length_of_exists ⟨found, hmem, beq_iff_eq.mpr hkey⟩
      have hplace : ∀ a ∈ firstSeen key items,
          (items ++ [item]).findIdx (fun item => key item == some a) =
            items.findIdx (fun item => key item == some a) := fun a ha => by
        rw [List.findIdx_append, if_pos (hfound a ha)]
      have hearlier : (firstSeen key items).Pairwise fun a b =>
          (items ++ [item]).findIdx (fun item => key item == some a) <
            (items ++ [item]).findIdx (fun item => key item == some b) := by
        refine ih.imp_of_mem ?_
        intro a b ha hb hlt
        rwa [hplace a ha, hplace b hb]
      rw [firstSeen_append_singleton]
      cases hkey : key item with
      | none => exact hearlier
      | some k =>
          by_cases hseen : k ∈ firstSeen key items
          · simpa only [hseen, ↓reduceIte] using hearlier
          · simp only [hseen, ↓reduceIte]
            refine List.pairwise_append.mpr ⟨hearlier, List.pairwise_singleton _ _, ?_⟩
            intro a ha b hb
            have hfresh : ∀ other ∈ items, (key other == some k) = false := by
              intro other hother
              refine beq_eq_false_iff_ne.mpr fun heq => hseen ?_
              exact (mem_firstSeen_iff key items k).mpr ⟨other, hother, heq⟩
            rw [List.mem_singleton.mp hb, hplace a ha, List.findIdx_append,
              List.findIdx_eq_length.mpr hfresh, if_neg (Nat.lt_irrefl _)]
            exact Nat.lt_of_lt_of_le (hfound a ha) (Nat.le_add_left _ _)

theorem listsFirstSeen_firstSeen (key : α → Option κ) (items : List α) :
    ListsFirstSeen key items (firstSeen key items) :=
  ⟨nodup_firstSeen key items, mem_firstSeen_iff key items, pairwise_findIdx_firstSeen key items⟩

/-- Distinct items stand in the order of their first places. -/
theorem pairwise_idxOf_firstSeen (items : List κ) :
    (firstSeen some items).Pairwise fun a b => items.idxOf a < items.idxOf b :=
  pairwise_findIdx_firstSeen some items

/-- Items that are already distinct are kept as they are. -/
theorem firstSeen_some_of_nodup {items : List κ} (hnodup : items.Nodup) :
    firstSeen some items = items := by
  induction items using List.reverseRecOn with
  | nil => rfl
  | append_singleton items item ih =>
      obtain ⟨hitems, -, hfresh⟩ := List.nodup_append.mp hnodup
      have habsent : item ∉ items := fun hmem =>
        hfresh item hmem item (List.mem_singleton_self item) rfl
      rw [firstSeen_append_singleton, ih hitems]
      exact if_neg habsent

end ChartCompiler
