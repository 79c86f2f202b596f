/-! # Groups by a key

The members of a list fall into groups by a key, in one pass. A group stands where its first member
stands in the list, and its members keep their order. Members with one key need not be neighbours.

`keys_byKey` and `members_byKey` say this of the groups as they come out. -/

namespace TableSteps

structure Group (κ ρ : Type) where
  key : κ
  members : List ρ

namespace Group

variable {κ ρ : Type} [DecidableEq κ]

/-- Puts a member into the group of its key, or behind all groups into a new one. -/
def place (key : κ) (member : ρ) : List (Group κ ρ) → List (Group κ ρ)
  | [] => [⟨key, [member]⟩]
  | g :: rest =>
    if g.key = key then { g with members := g.members ++ [member] } :: rest
    else g :: place key member rest

/-- The groups of some members by their keys. -/
def byKey (key : ρ → κ) (members : List ρ) : List (Group κ ρ) :=
  members.foldl (fun groups m => place (key m) m groups) []

@[simp] theorem byKey_nil (key : ρ → κ) : byKey key [] = [] := rfl

theorem byKey_concat (key : ρ → κ) (members : List ρ) (m : ρ) :
    byKey key (members ++ [m]) = place (key m) m (byKey key members) := by
  simp [byKey]

/-! ## What groups hold -/

theorem keys_place (key : κ) (member : ρ) (groups : List (Group κ ρ)) :
    (place key member groups).map Group.key =
      if key ∈ groups.map Group.key then groups.map Group.key
      else groups.map Group.key ++ [key] := by
  induction groups with
  | nil => simp [place]
  | cons g rest ih =>
    by_cases h : g.key = key
    · simp [place, h]
    · have h' : ¬ key = g.key := fun e => h e.symm
      simp only [place, h, if_false, List.map_cons, ih, List.mem_cons, h', false_or,
        List.cons_append]
      split <;> rfl

theorem eraseDups_concat (xs : List κ) (x : κ) :
    (xs ++ [x]).eraseDups = if x ∈ xs then xs.eraseDups else xs.eraseDups ++ [x] := by
  rw [List.eraseDups_append]
  by_cases h : x ∈ xs <;> simp [List.removeAll, List.eraseDups_cons, h]

/-- The keys of the groups are the keys of the members, each where it is first met. -/
theorem keys_byKey (key : ρ → κ) (members : List ρ) :
    (byKey key members).map Group.key = (members.map key).eraseDups := by
  obtain ⟨back, rfl⟩ : ∃ back : List ρ, members = back.reverse := ⟨members.reverse, by simp⟩
  induction back with
  | nil => rfl
  | cons m rest ih =>
    rw [List.reverse_cons, byKey_concat, keys_place, ih, List.map_append, List.map_singleton,
      eraseDups_concat]
    simp only [List.mem_eraseDups]

theorem mem_place {key : κ} {member : ρ} {groups : List (Group κ ρ)}
    (hn : (groups.map Group.key).Nodup) {g : Group κ ρ} (hg : g ∈ place key member groups) :
    g ∈ groups ∧ g.key ≠ key ∨
      (∃ old ∈ groups, old.key = key ∧ g = ⟨key, old.members ++ [member]⟩) ∨
      key ∉ groups.map Group.key ∧ g = ⟨key, [member]⟩ := by
  induction groups with
  | nil => simpa [place] using hg
  | cons first rest ih =>
    obtain ⟨hfirst, hrest⟩ := List.nodup_cons.mp hn
    by_cases h : first.key = key
    · simp only [place, h, if_true, List.mem_cons] at hg
      rcases hg with rfl | hg
      · exact .inr (.inl ⟨first, List.mem_cons_self, h, rfl⟩)
      · refine .inl ⟨List.mem_cons_of_mem _ hg, fun he => hfirst ?_⟩
        rw [h, ← he]
        exact List.mem_map_of_mem hg
    · simp only [place, h, if_false, List.mem_cons] at hg
      rcases hg with rfl | hg
      · exact .inl ⟨List.mem_cons_self, h⟩
      · rcases ih hrest hg with ⟨hg, hk⟩ | ⟨old, ho, hk, rfl⟩ | ⟨hk, rfl⟩
        · exact .inl ⟨List.mem_cons_of_mem _ hg, hk⟩
        · exact .inr (.inl ⟨old, List.mem_cons_of_mem _ ho, hk, rfl⟩)
        · exact .inr (.inr ⟨by simpa [Ne.symm h] using hk, rfl⟩)

theorem nodup_keys_place (key : κ) (member : ρ) {groups : List (Group κ ρ)}
    (h : (groups.map Group.key).Nodup) : ((place key member groups).map Group.key).Nodup := by
  rw [keys_place]
  split
  · exact h
  · rename_i hk
    exact List.nodup_append.mpr ⟨h, by simp, fun a ha b hb hab =>
      hk (by rw [← List.mem_singleton.mp hb, ← hab]; exact ha)⟩

theorem nodup_keys_byKey (key : ρ → κ) (members : List ρ) :
    ((byKey key members).map Group.key).Nodup := by
  obtain ⟨back, rfl⟩ : ∃ back : List ρ, members = back.reverse := ⟨members.reverse, by simp⟩
  induction back with
  | nil => simp
  | cons m rest ih =>
    rw [List.reverse_cons, byKey_concat]
    exact nodup_keys_place _ _ ih

/-- A group has all members with its key, in their order. -/
theorem members_byKey {key : ρ → κ} {members : List ρ} {g : Group κ ρ}
    (hg : g ∈ byKey key members) : g.members = members.filter fun m => key m = g.key := by
  obtain ⟨back, rfl⟩ : ∃ back : List ρ, members = back.reverse := ⟨members.reverse, by simp⟩
  induction back generalizing g with
  | nil => simp at hg
  | cons m rest ih =>
    rw [List.reverse_cons, byKey_concat] at hg
    rw [List.reverse_cons, List.filter_append]
    rcases mem_place (nodup_keys_byKey key _) hg with ⟨hg, hk⟩ | ⟨old, ho, hk, rfl⟩ | ⟨hk, rfl⟩
    · rw [ih hg]
      simp [Ne.symm hk]
    · rw [ih ho, hk]
      simp
    · rw [keys_byKey, List.mem_eraseDups] at hk
      have hnone : rest.reverse.filter (fun x => key x = key m) = [] := by
        rw [List.filter_eq_nil_iff]
        intro x hx he
        exact hk (by rw [← of_decide_eq_true he]; exact List.mem_map_of_mem hx)
      simp [hnone]

end Group
end TableSteps
