import Mathlib.Data.List.Nodup
import TableSteps.Chart.LabelTree

/-! # Paths of labels

A node of a label tree stands for a beginning of a path of labels, and its id is these labels with
slashes between them. No label is empty, so the id of a path tells whether the path is; but it tells
the path only where no label has a slash of its own. -/

namespace TableSteps.LabelTree

/-! ## Beginnings -/

section Beginnings

variable {β : Type} {xs p : List β}

/-- The beginnings of a list but for the empty one, from short to long. -/
def beginnings : List β → List (List β)
  | [] => []
  | x :: rest => [x] :: (beginnings rest).map (x :: ·)

theorem mem_beginnings_iff : p ∈ beginnings xs ↔ p ≠ [] ∧ p <+: xs := by
  induction xs generalizing p with
  | nil => simp [beginnings]
  | cons x rest ih =>
    simp only [beginnings, List.mem_cons, List.mem_map, ih]
    rw [List.prefix_cons_iff]
    constructor
    · rintro (rfl | ⟨q, ⟨-, hq⟩, rfl⟩)
      · exact ⟨List.cons_ne_nil _ _, .inr ⟨[], rfl, List.nil_prefix⟩⟩
      · exact ⟨List.cons_ne_nil _ _, .inr ⟨q, rfl, hq⟩⟩
    · rintro ⟨hne, rfl | ⟨q, rfl, hq⟩⟩
      · exact absurd rfl hne
      · by_cases hnil : q = []
        · exact .inl (by rw [hnil])
        · exact .inr ⟨q, ⟨hnil, hq⟩, rfl⟩

theorem nodup_beginnings (xs : List β) : (beginnings xs).Nodup := by
  induction xs with
  | nil => exact .nil
  | cons x rest ih =>
    refine List.nodup_cons.mpr ⟨?_, ih.map List.cons_injective⟩
    simp [mem_beginnings_iff]

/-- A beginning of a list that is not yet all of it goes on to the one that is longer by one. -/
theorem take_length_succ_eq_iff {k : List β} (hlength : p.length < xs.length) :
    (p <+: xs ∧ xs.take (p.length + 1) = k) ↔ k ≠ [] ∧ k.dropLast = p ∧ k <+: xs := by
  constructor
  · rintro ⟨hp, rfl⟩
    have htake : (xs.take (p.length + 1)).length = p.length + 1 := by
      rw [List.length_take]
      omega
    refine ⟨fun hnil => by simp [hnil] at htake, ?_, List.take_prefix _ _⟩
    rw [List.dropLast_eq_take, htake, List.take_take, Nat.min_eq_left (by omega)]
    exact (List.prefix_iff_eq_take.mp hp).symm
  · rintro ⟨hne, rfl, hk⟩
    have hsucc : k.dropLast.length + 1 = k.length := by
      have hpos := List.length_pos_iff.mpr hne
      rw [List.length_dropLast]
      omega
    refine ⟨(List.dropLast_prefix k).trans hk, ?_⟩
    rw [hsucc]
    exact (List.prefix_iff_eq_take.mp hk).symm

end Beginnings

/-! ## Ids -/

variable {labels others before : List String} {label : String}

/-- The labels with slashes between them. -/
def pathId (labels : List String) : String := "/".intercalate labels

theorem nodeLabel_ne_empty (s : String) : nodeLabel s ≠ "" := by
  unfold nodeLabel
  split
  · decide
  · rename_i h
    simpa using h

theorem pathId_eq_empty_iff (h : ∀ label ∈ labels, label ≠ "") :
    pathId labels = "" ↔ labels = [] := by
  unfold pathId
  cases labels with
  | nil => simp
  | cons label rest =>
    have hlabel := h label List.mem_cons_self
    cases rest with
    | nil => simpa using hlabel
    | cons next rest => simp [hlabel]

/-- The id of a child is the id of the path that leads to it. -/
theorem childId_pathId (h : ∀ label ∈ before, label ≠ "") :
    childId (pathId before) label = pathId (before ++ [label]) := by
  unfold childId
  by_cases hnil : before = []
  · subst hnil
    simp [pathId]
  · have hid : pathId before ≠ "" := fun heq => hnil ((pathId_eq_empty_iff h).mp heq)
    rw [if_neg (by simpa using hid), pathId, pathId,
      String.intercalate_append_of_ne_nil hnil (List.cons_ne_nil _ _), String.intercalate_singleton]

/-! ## Labels without slashes -/

/-- Where a separator first stands is told by the whole. -/
theorem eq_of_append_separator_eq {β : Type} [DecidableEq β] {sep : β} {xs ys us vs : List β}
    (hxs : sep ∉ xs) (hys : sep ∉ ys) (h : xs ++ sep :: us = ys ++ sep :: vs) :
    xs = ys ∧ us = vs := by
  have hpart {zs ws : List β} (hzs : sep ∉ zs) :
      (zs ++ sep :: ws).takeWhile (fun x => decide (x ≠ sep)) = zs := by
    rw [List.takeWhile_append_of_pos fun x hx => by
      have hne : x ≠ sep := fun heq => hzs (heq ▸ hx)
      simp [hne]]
    simp
  have hfirst : xs = ys := (hpart hxs).symm.trans ((congrArg _ h).trans (hpart hys))
  subst hfirst
  exact ⟨rfl, by simpa using h⟩

/-- Labels without slashes are told by their id. -/
theorem pathId_inj (hlabels : ∀ label ∈ labels, label ≠ "" ∧ '/' ∉ label.toList)
    (hothers : ∀ label ∈ others, label ≠ "" ∧ '/' ∉ label.toList)
    (h : pathId labels = pathId others) : labels = others := by
  induction labels generalizing others with
  | nil => exact ((pathId_eq_empty_iff fun l hl => (hothers l hl).1).mp h.symm).symm
  | cons label rest ih =>
    cases others with
    | nil => exact (pathId_eq_empty_iff fun l hl => (hlabels l hl).1).mp h
    | cons other others =>
      obtain ⟨hlabel, hrest⟩ := List.forall_mem_cons.mp hlabels
      obtain ⟨hother, hothers⟩ := List.forall_mem_cons.mp hothers
      cases rest with
      | nil =>
        cases others with
        | nil => simpa [pathId] using h
        | cons next others =>
          have heq : label = other ++ "/" ++ pathId (next :: others) := by simpa [pathId] using h
          exact absurd (by simp [heq]) hlabel.2
      | cons next rest =>
        cases others with
        | nil =>
          have heq : label ++ "/" ++ pathId (next :: rest) = other := by simpa [pathId] using h
          exact absurd (by simp [← heq]) hother.2
        | cons next' others =>
          have hlist : label.toList ++ '/' :: (pathId (next :: rest)).toList =
              other.toList ++ '/' :: (pathId (next' :: others)).toList := by
            have hids : label ++ "/" ++ pathId (next :: rest) =
                other ++ "/" ++ pathId (next' :: others) := by
              simpa only [pathId, String.intercalate_cons_cons] using h
            simpa using congrArg String.toList hids
          obtain ⟨hfirst, htail⟩ := eq_of_append_separator_eq hlabel.2 hother.2 hlist
          rw [String.toList_inj.mp hfirst, ih hrest hothers (String.toList_inj.mp htail)]

end TableSteps.LabelTree
