import TableSteps.Group

/-! # Groups of groups

Each group of a fine grouping can stand for its members in a grouping by a coarser key, one that
depends on the fine key alone. The coarse groups then come out in the same order as those of the
members, and each has the fine groups into which its members had fallen: no member is lost, and none
changes its group.

The first member of a coarse group is also the first of its fine group, which is why the orders
agree. -/

namespace TableSteps

/-- Distinct keys come in the order of their first occurrences. -/
theorem pairwise_idxOf_eraseDups {κ : Type} [DecidableEq κ] (keys : List κ) :
    keys.eraseDups.Pairwise fun a b => keys.idxOf a < keys.idxOf b := by
  obtain ⟨back, rfl⟩ : ∃ back : List κ, keys = back.reverse := ⟨keys.reverse, by simp⟩
  induction back with
  | nil => simp
  | cons key rest ih =>
    have hidx : ∀ a ∈ rest.reverse, (rest.reverse ++ [key]).idxOf a = rest.reverse.idxOf a :=
      fun a ha => by rw [List.idxOf_append, if_pos ha]
    have hbefore : rest.reverse.eraseDups.Pairwise fun a b =>
        (rest.reverse ++ [key]).idxOf a < (rest.reverse ++ [key]).idxOf b :=
      ih.imp_of_mem fun ha hb hab => by
        rw [hidx _ (List.mem_eraseDups.mp ha), hidx _ (List.mem_eraseDups.mp hb)]
        exact hab
    rw [List.reverse_cons, Group.eraseDups_concat]
    split
    · exact hbefore
    · rename_i hnew
      refine List.pairwise_append.mpr ⟨hbefore, List.pairwise_singleton _ _, fun a ha b hb => ?_⟩
      rw [List.mem_singleton.mp hb, hidx a (List.mem_eraseDups.mp ha), List.idxOf_append,
        if_neg hnew]
      have hlt := List.idxOf_lt_length_iff.mpr (List.mem_eraseDups.mp ha)
      omega

namespace Group

variable {κ κ' ρ σ : Type} [DecidableEq κ] [DecidableEq κ']

/-! ## Groups by their keys -/

theorem eraseDups_map_eraseDups (coarsen : κ → κ') (keys : List κ) :
    (keys.eraseDups.map coarsen).eraseDups = (keys.map coarsen).eraseDups := by
  obtain ⟨back, rfl⟩ : ∃ back : List κ, keys = back.reverse := ⟨keys.reverse, by simp⟩
  induction back with
  | nil => rfl
  | cons key rest ih =>
    rw [List.reverse_cons, List.map_append, List.map_singleton, eraseDups_concat, eraseDups_concat]
    by_cases hkey : key ∈ rest.reverse
    · rw [if_pos hkey, if_pos (List.mem_map_of_mem hkey), ih]
    · rw [if_neg hkey, List.map_append, List.map_singleton, eraseDups_concat, ih]
      simp only [List.mem_map, List.mem_eraseDups]

/-- What tells the elements of a list apart keeps each where it is first met. -/
theorem eraseDups_map_of_injOn {β γ : Type} [BEq β] [LawfulBEq β] [BEq γ] [LawfulBEq γ] (f : β → γ)
    (xs : List β) (hf : ∀ x ∈ xs, ∀ y ∈ xs, f x = f y → x = y) :
    (xs.map f).eraseDups = xs.eraseDups.map f := by
  match xs with
  | [] => rfl
  | x :: rest =>
    have hfilter : (rest.map f).filter (fun y => !y == f x) =
        (rest.filter fun y => !y == x).map f := by
      rw [List.filter_map]
      refine congrArg _ (List.filter_congr fun y hy => ?_)
      have hiff : (f y == f x) = (y == x) := by
        rw [Bool.eq_iff_iff, beq_iff_eq, beq_iff_eq]
        exact ⟨hf y (List.mem_cons_of_mem _ hy) x List.mem_cons_self, congrArg f⟩
      rw [Function.comp_apply, hiff]
    rw [List.map_cons, List.eraseDups_cons, List.eraseDups_cons, List.map_cons, hfilter,
      eraseDups_map_of_injOn f (rest.filter fun y => !y == x) fun y hy z hz =>
        hf y (List.mem_cons_of_mem _ (List.mem_filter.mp hy).1) z
          (List.mem_cons_of_mem _ (List.mem_filter.mp hz).1)]
termination_by xs.length
decreasing_by
  have := List.length_filter_le (fun y => !y == x) rest
  simp only [List.length_cons]
  omega

/-- A group for every key, in order of first occurrence, with the members that have the key. -/
theorem byKey_eq_map (key : ρ → κ) (members : List ρ) :
    byKey key members =
      (members.map key).eraseDups.map fun k => ⟨k, members.filter fun m => key m = k⟩ := by
  rw [← keys_byKey, List.map_map]
  refine (List.map_id (byKey key members)).symm.trans (List.map_congr_left fun g hg => ?_)
  rw [id_eq, Function.comp_apply, ← members_byKey hg]

/-- Groups of what some items stand for are the groups of the items, item by item. -/
theorem byKey_map (key : σ → κ) (f : ρ → σ) (members : List ρ) :
    byKey key (members.map f) =
      (byKey (fun m => key (f m)) members).map fun g => ⟨g.key, g.members.map f⟩ := by
  rw [byKey_eq_map key, byKey_eq_map fun m => key (f m), List.map_map, List.map_map]
  refine List.map_congr_left fun k _ => ?_
  rw [List.filter_map]
  rfl

theorem key_of_mem_members {key : ρ → κ} {members : List ρ} {g : Group κ ρ}
    (hg : g ∈ byKey key members) {m : ρ} (hm : m ∈ g.members) : key m = g.key := by
  rw [members_byKey hg] at hm
  exact of_decide_eq_true (List.mem_filter.mp hm).2

/-- No group is empty. -/
theorem exists_members_eq_cons {key : ρ → κ} {members : List ρ} {g : Group κ ρ}
    (hg : g ∈ byKey key members) : ∃ m rest, g.members = m :: rest ∧ key m = g.key := by
  have hkey : g.key ∈ (members.map key).eraseDups := by
    rw [← keys_byKey]
    exact List.mem_map_of_mem hg
  obtain ⟨m, hm, hmkey⟩ := List.mem_map.mp (List.mem_eraseDups.mp hkey)
  have hmem : m ∈ g.members := by
    rw [members_byKey hg]
    exact List.mem_filter.mpr ⟨hm, decide_eq_true hmkey⟩
  obtain ⟨first, rest, hrest⟩ := List.exists_cons_of_ne_nil (List.ne_nil_of_mem hmem)
  exact ⟨first, rest, hrest, key_of_mem_members hg (hrest ▸ List.mem_cons_self)⟩

/-! ## No member is lost -/

theorem flatMap_place_perm (key : κ) (member : ρ) (groups : List (Group κ ρ)) :
    ((place key member groups).flatMap members).Perm (groups.flatMap members ++ [member]) := by
  induction groups with
  | nil => simp [place]
  | cons g rest ih =>
    by_cases h : g.key = key
    · simp only [place, h, if_true, List.flatMap_cons, List.append_assoc]
      exact (List.perm_append_comm).append_left _
    · simp only [place, h, if_false, List.flatMap_cons, List.append_assoc]
      exact ih.append_left _

/-- The groups together have the members that were grouped. -/
theorem flatMap_byKey_perm (key : ρ → κ) (members : List ρ) :
    ((byKey key members).flatMap Group.members).Perm members := by
  obtain ⟨back, rfl⟩ : ∃ back : List ρ, members = back.reverse := ⟨members.reverse, by simp⟩
  induction back with
  | nil => simp
  | cons m rest ih =>
    rw [List.reverse_cons, byKey_concat]
    exact (flatMap_place_perm _ _ _).trans (ih.append_right [m])

omit [DecidableEq κ] in
/-- A test that members of one group pass alike picks whole groups. -/
theorem filter_flatMap_members {p : ρ → Bool} {q : Group κ ρ → Bool} {groups : List (Group κ ρ)}
    (h : ∀ g ∈ groups, ∀ m ∈ g.members, p m = q g) :
    (groups.flatMap members).filter p = (groups.filter q).flatMap members := by
  induction groups with
  | nil => rfl
  | cons g rest ih =>
    rw [List.flatMap_cons, List.filter_append, ih fun g hg => h g (List.mem_cons_of_mem _ hg)]
    have hg := h g List.mem_cons_self
    cases hq : q g with
    | true =>
      rw [List.filter_cons_of_pos hq, List.flatMap_cons, List.filter_eq_self.mpr]
      exact fun m hm => (hg m hm).trans hq
    | false =>
      rw [List.filter_cons_of_neg (by simp [hq]), List.filter_eq_nil_iff.mpr, List.nil_append]
      exact fun m hm => by simp [hg m hm, hq]

omit [DecidableEq κ'] in
/-- Keys that are distinct and cover all members share out the members among them. -/
theorem flatMap_filter_perm (key : ρ → κ) {keys : List κ} (hkeys : keys.Nodup) :
    ∀ {members : List ρ}, (∀ m ∈ members, key m ∈ keys) →
      (keys.flatMap fun k => members.filter fun m => key m = k).Perm members := by
  induction keys with
  | nil =>
    intro members hcover
    have hnone : members = [] := List.eq_nil_iff_forall_not_mem.mpr fun m hm =>
      List.not_mem_nil (hcover m hm)
    rw [hnone]
    exact .nil
  | cons k rest ih =>
    intro members hcover
    obtain ⟨hk, hrest⟩ := List.nodup_cons.mp hkeys
    have hothers : ∀ k' ∈ rest, (members.filter fun m => key m = k') =
        (members.filter fun m => !decide (key m = k)).filter fun m => key m = k' := by
      intro k' hk'
      rw [List.filter_filter]
      refine List.filter_congr fun m _ => ?_
      have hne : k' ≠ k := fun h => hk (h ▸ hk')
      by_cases hm : key m = k'
      · simp [hm, hne]
      · simp [hm]
    have hcovered : ∀ m ∈ members.filter fun m => !decide (key m = k), key m ∈ rest := by
      intro m hm
      obtain ⟨hm, hne⟩ := List.mem_filter.mp hm
      exact (List.mem_cons.mp (hcover m hm)).resolve_left (by simpa using hne)
    rw [List.flatMap_cons, List.flatMap_def, List.map_congr_left hothers, ← List.flatMap_def]
    exact ((ih hrest hcovered).append_left _).trans (List.filter_append_perm _ _)

/-- The fine groups under a coarse key together have the members under it. -/
theorem flatMap_filter_byKey_perm (key : ρ → κ) (coarsen : κ → κ') (members : List ρ) (k : κ') :
    (((byKey key members).filter fun g => coarsen g.key = k).flatMap Group.members).Perm
      (members.filter fun m => coarsen (key m) = k) := by
  rw [← filter_flatMap_members (p := fun m => coarsen (key m) = k)]
  · exact (flatMap_byKey_perm key members).filter _
  · intro g hg m hm
    rw [key_of_mem_members hg hm]

/-! ## Grouping the groups -/

/-- Rows made of the fine groups fall into the groups of the members, if the key of such a row is
the coarse key of its group. -/
theorem byKey_map_byKey {key : ρ → κ} {coarsen : κ → κ'} {members : List ρ} {row : Group κ ρ → σ}
    {rowKey : σ → κ'} (h : ∀ g ∈ byKey key members, rowKey (row g) = coarsen g.key) :
    byKey rowKey ((byKey key members).map row) =
      (byKey (fun m => coarsen (key m)) members).map fun g =>
        ⟨g.key, ((byKey key members).filter fun fine => coarsen fine.key = g.key).map row⟩ := by
  have hkeys : ((byKey key members).map row).map rowKey =
      (members.map key).eraseDups.map coarsen := by
    rw [← keys_byKey, List.map_map, List.map_map]
    exact List.map_congr_left h
  rw [byKey_eq_map rowKey, hkeys, eraseDups_map_eraseDups, List.map_map,
    byKey_eq_map fun m => coarsen (key m), List.map_map]
  refine List.map_congr_left fun k _ => ?_
  rw [Function.comp_apply, List.filter_map]
  congr 2
  refine List.filter_congr fun g hg => ?_
  rw [Function.comp_apply, h g hg]

end Group
end TableSteps
