/-!
Values under text keys, held in the order of the keys.

Keys stand in strictly increasing order of their code points, which for text in UTF-8 is the order
of its bytes, so each key stands once and every walk over a dictionary is a walk in that order. The
main statements say what `insert` does to a look-up and that a dictionary built from a list gives
its last entry for a key.
-/

namespace TableSteps

structure Dictionary (β : Type) where
  entries : List (String × β)
  sorted : entries.Pairwise fun a b => a.1 < b.1

namespace Dictionary

variable {β γ : Type}

theorem ext {d e : Dictionary β} (h : d.entries = e.entries) : d = e := by
  cases d; cases e; cases h; rfl

def empty : Dictionary β := ⟨[], .nil⟩

instance : Inhabited (Dictionary β) := ⟨empty⟩

def keys (d : Dictionary β) : List String := d.entries.map Prod.fst

def get? (d : Dictionary β) (key : String) : Option β := d.entries.lookup key

def isEmpty (d : Dictionary β) : Bool := d.entries.isEmpty

/-- Puts the value where its key belongs, in place of what stood under that key. -/
def insertEntry (key : String) (value : β) : List (String × β) → List (String × β)
  | [] => [(key, value)]
  | (k, v) :: rest =>
    if key < k then (key, value) :: (k, v) :: rest
    else if key = k then (key, value) :: rest
    else (k, v) :: insertEntry key value rest

theorem fst_mem_insertEntry {key k : String} {value : β} {es : List (String × β)}
    (h : k ∈ (insertEntry key value es).map Prod.fst) : k = key ∨ k ∈ es.map Prod.fst := by
  induction es with
  | nil => simpa [insertEntry] using h
  | cons e rest ih =>
    simp only [insertEntry] at h
    split at h
    · simpa using h
    · split at h
      · rename_i heq
        simp only [List.map_cons, List.mem_cons] at h ⊢
        rcases h with h | h
        · exact .inl h
        · exact .inr (.inr h)
      · simp only [List.map_cons, List.mem_cons] at h ⊢
        rcases h with h | h
        · exact .inr (.inl h)
        · exact (ih h).imp_right .inr

theorem sorted_insertEntry (key : String) (value : β) {es : List (String × β)}
    (h : es.Pairwise fun a b => a.1 < b.1) :
    (insertEntry key value es).Pairwise fun a b => a.1 < b.1 := by
  induction es with
  | nil => simp [insertEntry]
  | cons e rest ih =>
    obtain ⟨k, v⟩ := e
    have hk := (List.pairwise_cons.mp h).1
    have hr := (List.pairwise_cons.mp h).2
    simp only [insertEntry]
    split
    · rename_i hlt
      refine List.pairwise_cons.mpr ⟨fun a ha => ?_, h⟩
      rcases List.mem_cons.mp ha with rfl | ha
      · exact hlt
      · exact String.lt_trans hlt (hk a ha)
    · rename_i hlt
      split
      · rename_i heq
        subst heq
        exact List.pairwise_cons.mpr ⟨hk, hr⟩
      · rename_i hne
        refine List.pairwise_cons.mpr ⟨fun a ha => ?_, ih hr⟩
        have hkey : k < key := by
          apply Classical.byContradiction
          intro hge
          exact hne (String.le_antisymm (String.not_lt.mp hge) (String.not_lt.mp hlt))
        rcases fst_mem_insertEntry (List.mem_map_of_mem ha) with h1 | h1
        · show k < a.1
          rw [h1]; exact hkey
        · obtain ⟨b, hb, hba⟩ := List.mem_map.mp h1
          show k < a.1
          rw [← hba]; exact hk b hb

def insert (d : Dictionary β) (key : String) (value : β) : Dictionary β :=
  ⟨insertEntry key value d.entries, sorted_insertEntry key value d.sorted⟩

theorem lookup_insertEntry (key : String) (value : β) (es : List (String × β)) (k : String) :
    (insertEntry key value es).lookup k = if k = key then some value else es.lookup k := by
  induction es with
  | nil => grind [insertEntry]
  | cons e rest ih => grind [insertEntry]

@[simp] theorem get?_insert (d : Dictionary β) (key : String) (value : β) (k : String) :
    (d.insert key value).get? k = if k = key then some value else d.get? k :=
  lookup_insertEntry key value d.entries k

@[simp] theorem get?_empty (k : String) : (empty : Dictionary β).get? k = none := rfl

/-- Of two entries with one key the later wins. -/
def ofList (es : List (String × β)) : Dictionary β :=
  es.foldl (fun d e => d.insert e.1 e.2) empty

theorem get?_foldl_insert (es : List (String × β)) (d : Dictionary β) (k : String) :
    (es.foldl (fun d e => d.insert e.1 e.2) d).get? k = (es.reverse.lookup k).or (d.get? k) := by
  induction es generalizing d with
  | nil => simp
  | cons e rest ih =>
    simp only [List.foldl_cons, ih, List.reverse_cons, List.lookup_append, get?_insert]
    cases h : rest.reverse.lookup k with
    | some v => simp
    | none => grind

theorem get?_ofList (es : List (String × β)) (k : String) :
    (ofList es).get? k = es.reverse.lookup k := by
  simp [ofList, get?_foldl_insert]

theorem mem_of_lookup {es : List (String × β)} {k : String} {v : β} (h : es.lookup k = some v) :
    (k, v) ∈ es := by
  obtain ⟨before, after, rfl, -⟩ := List.lookup_eq_some_iff.mp h
  exact List.mem_append_right _ List.mem_cons_self

theorem mem_of_get?_ofList {es : List (String × β)} {k : String} {v : β}
    (h : (ofList es).get? k = some v) : (k, v) ∈ es := by
  rw [get?_ofList] at h
  exact List.mem_reverse.mp (mem_of_lookup h)

theorem nodup_keys (d : Dictionary β) : d.keys.Nodup := by
  refine List.pairwise_map.mpr (d.sorted.imp fun h => ?_)
  intro he
  rw [he] at h
  exact String.lt_irrefl _ h

theorem lookup_of_mem {es : List (String × β)} (h : (es.map Prod.fst).Nodup) {k : String} {v : β}
    (hm : (k, v) ∈ es) : es.lookup k = some v := by
  induction es with
  | nil => cases hm
  | cons e rest ih =>
    obtain ⟨hfirst, hrest⟩ := List.nodup_cons.mp h
    rcases List.mem_cons.mp hm with rfl | hm
    · simp
    · have hne : (k == e.1) = false :=
        beq_eq_false_iff_ne.mpr fun he => hfirst (he ▸ List.mem_map_of_mem hm)
      rw [List.lookup_cons, hne]
      exact ih hrest hm

/-- A key that has an entry gives its value. -/
theorem get?_of_mem {d : Dictionary β} {k : String} {v : β} (h : (k, v) ∈ d.entries) :
    d.get? k = some v :=
  lookup_of_mem d.nodup_keys h

theorem get?_eq_none_iff {d : Dictionary β} {k : String} : d.get? k = none ↔ k ∉ d.keys := by
  rw [get?, List.lookup_eq_none_iff, keys, List.mem_map]
  constructor
  · rintro h ⟨e, he, rfl⟩
    exact bne_iff_ne.mp (h e he) rfl
  · exact fun h e he => bne_iff_ne.mpr fun hk => h ⟨e, he, hk.symm⟩

theorem get?_ofList_of_mem {es : List (String × β)} (h : (es.map Prod.fst).Nodup) {k : String}
    {v : β} (hm : (k, v) ∈ es) : (ofList es).get? k = some v := by
  rw [get?_ofList]
  refine lookup_of_mem ?_ (List.mem_reverse.mpr hm)
  rw [List.map_reverse]
  exact List.pairwise_reverse.mpr (h.imp Ne.symm)

theorem lookup_eq_none_of_lt {es : List (String × β)} {k : String} (h : ∀ e ∈ es, k < e.1) :
    es.lookup k = none := by
  refine List.lookup_eq_none_iff.mpr fun e he => bne_iff_ne.mpr fun hk => ?_
  exact String.lt_irrefl k (hk ▸ h e he)

/-- Sorted entries are known by what is found under their keys. -/
theorem eq_of_lookup_eq {es fs : List (String × β)} (hes : es.Pairwise fun a b => a.1 < b.1)
    (hfs : fs.Pairwise fun a b => a.1 < b.1) (h : ∀ k, es.lookup k = fs.lookup k) : es = fs := by
  induction es generalizing fs with
  | nil =>
    cases fs with
    | nil => rfl
    | cons f fs => simpa [List.lookup_cons (k := f.1) (b := f.2)] using h f.1
  | cons e es ih =>
    obtain ⟨k, v⟩ := e
    cases fs with
    | nil => simpa using h k
    | cons f fs =>
      obtain ⟨k', v'⟩ := f
      obtain ⟨he, hesRest⟩ := List.pairwise_cons.mp hes
      obtain ⟨hf, hfsRest⟩ := List.pairwise_cons.mp hfs
      -- The first key of either list is the least of all, so both begin with one key.
      obtain rfl : k = k' := by
        refine String.le_antisymm (String.not_lt.mp fun hlt => ?_) (String.not_lt.mp fun hlt => ?_)
        · have hnone : ((k, v) :: es).lookup k' = none := lookup_eq_none_of_lt
            (List.forall_mem_cons.mpr ⟨hlt, fun a ha => String.lt_trans hlt (he a ha)⟩)
          simp [h] at hnone
        · have hnone : ((k', v') :: fs).lookup k = none := lookup_eq_none_of_lt
            (List.forall_mem_cons.mpr ⟨hlt, fun a ha => String.lt_trans hlt (hf a ha)⟩)
          simp [← h] at hnone
      obtain rfl : v = v' := by simpa using h k
      have hrest : es = fs := by
        refine ih hesRest hfsRest fun k' => ?_
        by_cases hk : k' = k
        · rw [hk, lookup_eq_none_of_lt he, lookup_eq_none_of_lt hf]
        · simpa [List.lookup_cons, beq_eq_false_iff_ne.mpr hk] using h k'
      rw [hrest]

theorem ext_get? {d e : Dictionary β} (h : ∀ k, d.get? k = e.get? k) : d = e :=
  ext (eq_of_lookup_eq d.sorted e.sorted h)

/-- A dictionary is found again in its own entries. -/
theorem get?_ofList_entries (d : Dictionary β) (k : String) :
    (ofList d.entries).get? k = d.get? k := by
  rw [get?_ofList]
  cases h : d.entries.reverse.lookup k with
  | some v => exact (get?_of_mem (List.mem_reverse.mp (mem_of_lookup h))).symm
  | none =>
    cases h' : d.get? k with
    | none => rfl
    | some v =>
      have hne := List.lookup_eq_none_iff.mp h (k, v) (List.mem_reverse.mpr (mem_of_lookup h'))
      simp at hne

@[simp] theorem ofList_entries (d : Dictionary β) : ofList d.entries = d :=
  ext_get? d.get?_ofList_entries

/-- The dictionary without one key. -/
def erase (d : Dictionary β) (key : String) : Dictionary β :=
  ⟨d.entries.filter fun e => e.1 ≠ key, d.sorted.filter _⟩

/-- The entries whose key passes a test. -/
def restrict (d : Dictionary β) (keep : String → Bool) : Dictionary β :=
  ⟨d.entries.filter fun e => keep e.1, d.sorted.filter _⟩

def map (f : β → γ) (d : Dictionary β) : Dictionary γ :=
  ⟨d.entries.map fun e => (e.1, f e.2), List.pairwise_map.mpr d.sorted⟩

@[simp] theorem keys_map (f : β → γ) (d : Dictionary β) : (d.map f).keys = d.keys := by
  simp [map, keys, List.map_map, Function.comp_def]

@[simp] theorem keys_restrict (d : Dictionary β) (keep : String → Bool) :
    (d.restrict keep).keys = d.keys.filter keep := by
  simp [restrict, keys, List.filter_map, Function.comp_def]

theorem lookup_filter_fst (keep : String → Bool) (es : List (String × β)) (k : String) :
    (es.filter fun e => keep e.1).lookup k = if keep k then es.lookup k else none := by
  induction es with
  | nil => simp
  | cons e rest ih => grind

@[simp] theorem get?_restrict (d : Dictionary β) (keep : String → Bool) (k : String) :
    (d.restrict keep).get? k = if keep k then d.get? k else none :=
  lookup_filter_fst keep d.entries k

@[simp] theorem get?_erase (d : Dictionary β) (key k : String) :
    (d.erase key).get? k = if k = key then none else d.get? k := by
  have h := lookup_filter_fst (fun e => decide (e ≠ key)) d.entries k
  simp only [erase, get?, h]
  by_cases hk : k = key <;> simp [hk]

/-- What was put under a new key is taken out again. -/
theorem erase_insert {d : Dictionary β} {key : String} (h : d.get? key = none) (value : β) :
    (d.insert key value).erase key = d := by
  refine ext_get? fun k => ?_
  by_cases hk : k = key <;> simp [hk, h]

@[simp] theorem get?_map (f : β → γ) (d : Dictionary β) (k : String) :
    (d.map f).get? k = (d.get? k).map f := by
  obtain ⟨entries, _⟩ := d
  simp only [get?, map]
  induction entries with
  | nil => rfl
  | cons e rest ih => grind

end Dictionary
end TableSteps
