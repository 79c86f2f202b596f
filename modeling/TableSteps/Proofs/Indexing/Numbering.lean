import TableSteps.Group
import TableSteps.Proofs.Indexing.Basic
import TableSteps.Table.WellFormed

/-! # Numbers of first occurrence

Groups, categories and nodes are found again by a map from their key to their place in a list, where
a new key gets the place behind all others. `Numbering` holds the keys in order with such a map, and
says with it that the map is right.

`changeAt` changes the item with a key where its place says it is, `groupBy` and `assign` are loops
over such a map. They come out as the change, the groups and the places that `changeKeyed`,
`Group.byKey` and `List.idxOf` give without one. -/

namespace TableSteps

/-- Keys in order of first occurrence, and a map that has the place of each. -/
structure Numbering (κ : Type) [DecidableEq κ] where
  keys : List κ
  places : List (κ × Nat)
  lookup_places : ∀ k, places.lookup k = keys.idxOf? k

namespace Numbering

variable {κ : Type} [DecidableEq κ] {n : Numbering κ} {key : κ}

theorem idxOf?_concat (keys : List κ) (key k : κ) :
    (keys ++ [key]).idxOf? k =
      (keys.idxOf? k).or (if key = k then some keys.length else none) := by
  induction keys with
  | nil => by_cases h : key = k <;> simp [List.idxOf?_cons, h]
  | cons first rest ih =>
    rw [List.cons_append, List.idxOf?_cons, List.idxOf?_cons, ih]
    by_cases h : first = k
    · simp [h]
    · by_cases hk : key = k <;> cases rest.idxOf? k <;> simp [h, hk]

def empty : Numbering κ := ⟨[], [], fun _ => rfl⟩

/-- The place of a key, if it has one. -/
def place? (n : Numbering κ) (key : κ) : Option Nat := n.places.lookup key

theorem place?_eq (n : Numbering κ) (key : κ) : n.place? key = n.keys.idxOf? key :=
  n.lookup_places key

/-- Puts a new key behind all others. -/
def insert (n : Numbering κ) (key : κ) : Numbering κ where
  keys := n.keys ++ [key]
  places := n.places ++ [(key, n.keys.length)]
  lookup_places k := by
    rw [List.lookup_append, n.lookup_places, idxOf?_concat]
    by_cases hk : key = k
    · simp [hk]
    · have hk' : (k == key) = false := beq_eq_false_iff_ne.mpr (Ne.symm hk)
      simp [hk, List.lookup_cons, hk']

theorem place?_eq_none_iff : n.place? key = none ↔ key ∉ n.keys := by
  rw [place?_eq, List.idxOf?_eq_none_iff]

end Numbering

/-! ## Lists with a key for every item -/

section Keyed

variable {κ β : Type} [DecidableEq κ] {keyOf : β → κ} {change : β → β} {new : β} {key : κ}

/-- Changes the item with a key, or puts a new one behind all others. -/
def changeKeyed (keyOf : β → κ) (change : β → β) (new : β) (key : κ) : List β → List β
  | [] => [new]
  | b :: rest =>
    if keyOf b = key then change b :: rest else b :: changeKeyed keyOf change new key rest

theorem changeKeyed_of_not_mem {items : List β} (h : key ∉ items.map keyOf) :
    changeKeyed keyOf change new key items = items ++ [new] := by
  induction items with
  | nil => rfl
  | cons b rest ih =>
    rw [List.map_cons, List.mem_cons, not_or] at h
    simp [changeKeyed, Ne.symm h.1, ih h.2]

theorem changeKeyed_of_idxOf? (change : β → β) (new : β) {items : List β} :
    ∀ {i : Nat}, (items.map keyOf).idxOf? key = some i →
      ∃ b, items[i]? = some b ∧
        changeKeyed keyOf change new key items = items.set i (change b) := by
  induction items with
  | nil => simp
  | cons first rest ih =>
    intro i h
    rw [List.map_cons, List.idxOf?_cons] at h
    by_cases hfirst : keyOf first = key
    · simp only [hfirst, BEq.rfl, if_true, Option.some.injEq] at h
      subst h
      exact ⟨first, rfl, by simp [changeKeyed, hfirst]⟩
    · rw [if_neg (by simpa using hfirst)] at h
      obtain ⟨j, hj, rfl⟩ := Option.map_eq_some_iff.mp h
      obtain ⟨b, hb, hchange⟩ := ih hj
      exact ⟨b, by simpa using hb, by simp [changeKeyed, hfirst, hchange]⟩

theorem place_eq_changeKeyed {ρ : Type} (key : κ) (member : ρ) (groups : List (Group κ ρ)) :
    Group.place key member groups =
      changeKeyed Group.key (fun g => { g with members := g.members ++ [member] })
        ⟨key, [member]⟩ key groups := by
  induction groups with
  | nil => rfl
  | cons g rest ih => rw [Group.place, changeKeyed, ih]

/-- Changes the item with a key, which is found by its place. -/
def Indexed.changeAt (change : β → β) (new : β) (key : κ) (items : List β) (n : Numbering κ) :
    Indexed (List β × Numbering κ) :=
  match n.place? key with
  | some i => do
    let b ← item items i
    let items ← setItem items i (change b)
    pure (items, n)
  | none => .ok (items ++ [new], n.insert key)

/-- A key has a place exactly when it has an item, so the place is that of its item. -/
theorem Indexed.changeAt_eq_ok (hchange : ∀ b, keyOf (change b) = keyOf b) (hnew : keyOf new = key)
    {items : List β} {n : Numbering κ} (h : items.map keyOf = n.keys) :
    ∃ n', changeAt change new key items n = .ok (changeKeyed keyOf change new key items, n') ∧
      (changeKeyed keyOf change new key items).map keyOf = n'.keys := by
  cases hp : n.place? key with
  | none =>
    have hkey : key ∉ items.map keyOf := h ▸ Numbering.place?_eq_none_iff.mp hp
    rw [changeAt, hp, changeKeyed_of_not_mem hkey]
    exact ⟨_, rfl, by rw [List.map_append, h, List.map_singleton, hnew]; rfl⟩
  | some i =>
    have hi : (items.map keyOf).idxOf? key = some i := by rw [h, ← n.place?_eq, hp]
    obtain ⟨b, hb, hitems⟩ := changeKeyed_of_idxOf? change new hi
    obtain ⟨hlt, rfl⟩ := List.getElem?_eq_some_iff.mp hb
    rw [changeAt, hp, hitems]
    simp only [item_eq_ok hb, ok_bind, setItem_of_lt hlt, pure_eq_ok]
    refine ⟨n, rfl, ?_⟩
    rw [List.map_set, hchange, ← List.map_set, List.set_getElem_self, h]

end Keyed

namespace Indexed

variable {κ ρ : Type} [DecidableEq κ]

/-! ## Groups -/

/-- Puts a member into the group of its key. -/
def enter (key : κ) (member : ρ) (groups : List (Group κ ρ)) (n : Numbering κ) :
    Indexed (List (Group κ ρ) × Numbering κ) :=
  changeAt (fun g => { g with members := g.members ++ [member] }) ⟨key, [member]⟩ key groups n

/-- The groups of some members by their keys, in one pass. -/
def groupBy (key : ρ → Indexed κ) (members : List ρ) : Indexed (List (Group κ ρ)) := do
  let (groups, _) ← members.foldlM (fun (groups, n) member => do
    let key ← key member
    enter key member groups n) ([], .empty)
  pure groups

theorem foldlM_enter_eq_ok {key : ρ → Indexed κ} {k : ρ → κ} {members : List ρ}
    (hkey : ∀ member ∈ members, key member = .ok (k member)) :
    ∀ {groups : List (Group κ ρ)} {n : Numbering κ}, groups.map Group.key = n.keys →
      ∃ n', members.foldlM (fun (groups, n) member => do
        let key ← key member
        enter key member groups n) (groups, n) =
          .ok (members.foldl (fun groups m => Group.place (k m) m groups) groups, n') := by
  induction members with
  | nil => exact fun {groups n} _ => ⟨n, rfl⟩
  | cons member rest ih =>
    intro groups n h
    have hchange : ∀ g : Group κ ρ,
        ({ g with members := g.members ++ [member] } : Group κ ρ).key = g.key := fun _ => rfl
    have hnew : (⟨k member, [member]⟩ : Group κ ρ).key = k member := rfl
    obtain ⟨n', hn', hkeys⟩ := changeAt_eq_ok hchange hnew h
    rw [← place_eq_changeKeyed] at hn' hkeys
    obtain ⟨n'', hn''⟩ := ih (fun m hm => hkey m (List.mem_cons_of_mem _ hm)) hkeys
    refine ⟨n'', ?_⟩
    rw [List.foldlM_cons]
    simp only [hkey member List.mem_cons_self, ok_bind, enter, hn']
    exact hn''

/-- The pass gives the groups of the members, and every place that it uses is that of a group. -/
theorem groupBy_eq_ok {key : ρ → Indexed κ} {k : ρ → κ} {members : List ρ}
    (hkey : ∀ member ∈ members, key member = .ok (k member)) :
    groupBy key members = .ok (Group.byKey k members) := by
  have haligned : ([] : List (Group κ ρ)).map Group.key = (Numbering.empty : Numbering κ).keys :=
    rfl
  obtain ⟨n, hn⟩ := foldlM_enter_eq_ok hkey haligned
  rw [groupBy, hn]
  rfl

/-! ## Places of labels -/

/-- One more label with its place. -/
def assignOne (state : Numbering κ × List Nat) (label : κ) : Numbering κ × List Nat :=
  match state.1.place? label with
  | some i => (state.1, state.2 ++ [i])
  | none => (state.1.insert label, state.2 ++ [state.1.keys.length])

/-- The distinct labels, and the place of each label among them. -/
def assign (labels : List κ) : Numbering κ × List Nat := labels.foldl assignOne (.empty, [])

theorem assign_concat (labels : List κ) (label : κ) :
    assign (labels ++ [label]) = assignOne (assign labels) label := by
  simp [assign]

theorem assign_eq (labels : List κ) :
    (assign labels).1.keys = labels.eraseDups ∧
      (assign labels).2 = labels.map fun label => labels.eraseDups.idxOf label := by
  obtain ⟨back, rfl⟩ : ∃ back : List κ, labels = back.reverse := ⟨labels.reverse, by simp⟩
  induction back with
  | nil => exact ⟨rfl, rfl⟩
  | cons label rest ih =>
    obtain ⟨hkeys, hplaces⟩ := ih
    rw [List.reverse_cons, assign_concat, Group.eraseDups_concat]
    cases hp : (assign rest.reverse).1.place? label with
    | some i =>
      have hi : rest.reverse.eraseDups.idxOf? label = some i := by
        rw [← hkeys, ← Numbering.place?_eq, hp]
      have hmem : label ∈ rest.reverse := List.mem_eraseDups.mp (mem_of_idxOf? hi)
      simp [assignOne, hp, hkeys, hplaces, hmem, idxOf_of_idxOf? hi]
    | none =>
      have hnot : label ∉ rest.reverse := by
        rw [← List.mem_eraseDups, ← hkeys]
        exact Numbering.place?_eq_none_iff.mp hp
      simp only [assignOne, hp, hkeys, hplaces, if_neg hnot]
      refine ⟨by rw [← hkeys]; rfl, ?_⟩
      rw [List.map_append, List.map_singleton]
      congr 1
      · refine List.map_congr_left fun other hother => ?_
        rw [List.idxOf_append, if_pos (List.mem_eraseDups.mpr hother)]
      · rw [List.idxOf_append, if_neg (mt List.mem_eraseDups.mp hnot)]
        simp

end Indexed
end TableSteps
