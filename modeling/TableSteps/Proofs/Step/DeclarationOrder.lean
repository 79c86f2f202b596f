import Mathlib.Data.List.Nodup
import Mathlib.Logic.Relation
import TableSteps.Binary64.Quantity
import TableSteps.Proofs.Errors.Checks

/-! # Names are used after they are given

The entries of an aggregation and the formulas of a summary are checked in one pass from the first
to the last. At every entry the scope holds the names of the entries before it, in their order and
nothing else: the name of an entry goes in after its operands have been looked up. So an operand
can only be the name of an earlier entry, and what stands behind an entry has no say in its verdict.

The two passes differ in what they ask of an entry and in nothing else. `EntryCheck.all` is either
of them, and `EntryCheck.Binds` is what it has to know of the check of one entry. -/

namespace TableSteps

variable {ε : Type}

/-- How the entries of one kind name their results and use those of others. -/
structure Naming (ε : Type) where
  name : ε → String
  /-- The entry combines results of others. -/
  Combines : ε → Prop
  /-- The names of the results that a combined entry uses. -/
  operands? : ε → Option (String × String)
  /-- The place of these names. -/
  operandPlace : Nat → Place

namespace Naming

/-- One entry of a list uses the result of another. -/
def RefersTo (n : Naming ε) (xs : List ε) (i j : Nat) : Prop :=
  ∃ x y left right, xs[i]? = some x ∧ xs[j]? = some y ∧ n.Combines x ∧
    n.operands? x = some (left, right) ∧ (n.name y = left ∨ n.name y = right)

/-- Lists of entries are accepted in the order of their declarations. -/
structure DeclaredInOrder (n : Naming ε) (accept : List ε → Checked Unit) : Prop where
  /-- The names of an accepted list are distinct. -/
  nodup {xs : List ε} : accept xs = .ok () → (xs.map n.name).Nodup
  /-- A combined entry has two operands, and both are names of entries before it. -/
  earlier {xs : List ε} {i : Nat} {x : ε} : accept xs = .ok () → xs[i]? = some x → n.Combines x →
    ∃ left right, n.operands? x = some (left, right) ∧ left ∈ (xs.take i).map n.name ∧
      right ∈ (xs.take i).map n.name
  backward {xs : List ε} {i j : Nat} : accept xs = .ok () → n.RefersTo xs i j → j < i
  acyclic {xs : List ε} {i : Nat} : accept xs = .ok () → ¬ Relation.TransGen (n.RefersTo xs) i i
  accept_of_append {xs ys : List ε} : accept (xs ++ ys) = .ok () → accept xs = .ok ()
  /-- An error stays whatever comes behind. -/
  error_append {xs ys : List ε} {e : StepError} :
    accept xs = .error e → accept (xs ++ ys) = .error e
  /-- A list that is not refused even without entries is refused at its first bad entry, with the
  error that the list up to there has. -/
  first_rejected {xs : List ε} {e : StepError} : accept xs = .error e →
    accept [] = .error e ∨ ∃ i < xs.length, accept (xs.take i) = .ok () ∧
      ∀ ys, accept (xs.take (i + 1) ++ ys) = .error e
  /-- An operand that is not there is reported where it stands, the left one first, together with
  the names of all entries before. -/
  undefined {xs : List ε} {e : StepError} {missing : String} {available : List String} :
    accept xs = .error e → e.cause = .undefinedName missing available →
      ∃ i x left right, xs[i]? = some x ∧ accept (xs.take i) = .ok () ∧ n.Combines x ∧
        n.operands? x = some (left, right) ∧ available = (xs.take i).map n.name ∧
        missing ∉ available ∧ (missing = left ∨ left ∈ available ∧ missing = right) ∧
        e.details.get? "field" = some (.str (n.operandPlace i).path) ∧
        e.details.get? "value" = some (.str missing) ∧
        e.details.get? "available" = some (.strings available)

end Naming

/-! ## Looking operands up -/

namespace Scope

variable {β : Type} {s : Scope β} {place : Place} {name left right : String} {e : StepError}

theorem mem_names_of_get? {v : β} (h : s.get? name = some v) : name ∈ s.names := by
  rw [← contains_iff, ← isSome_get?, h]
  rfl

theorem find_eq_error (h : s.find place name = .error e) :
    name ∉ s.names ∧ e = .placed place (.undefinedName name s.names) := by
  unfold find at h
  split at h
  · cases h
  · rename_i hnone
    cases h
    rw [← contains_iff, ← isSome_get?, hnone]
    exact ⟨Bool.false_ne_true, rfl⟩

/-- The first operand that is not in scope is reported. -/
theorem pair_eq_error (h : s.pair place left right = .error e) :
    ∃ missing, missing ∉ s.names ∧ (missing = left ∨ left ∈ s.names ∧ missing = right) ∧
      e = .placed place (.undefinedName missing s.names) := by
  unfold pair at h
  split at h
  · rename_i e' hleft
    cases h
    obtain ⟨hnot, rfl⟩ := find_eq_error hleft
    exact ⟨left, hnot, .inl rfl, rfl⟩
  · rename_i x hleft
    split at h
    · rename_i e' hright
      cases h
      obtain ⟨hnot, rfl⟩ := find_eq_error hright
      exact ⟨right, hnot, .inr ⟨mem_names_of_get? (get?_of_find hleft), rfl⟩, rfl⟩
    · cases h

theorem mem_names_of_pair {v : β × β} (h : s.pair place left right = .ok v) :
    left ∈ s.names ∧ right ∈ s.names := by
  obtain ⟨hleft, hright⟩ := get?_of_pair h
  exact ⟨mem_names_of_get? hleft, mem_names_of_get? hright⟩

/-- The check of a combined entry's operands, given the subject of the entry. -/
def checkOperands (s : Scope Unit) (place : Place) (shape : SubjectShape) (given : Json) :
    Option (String × String) → Checked Unit
  | some (left, right) => (s.pair place left right).map fun _ => ()
  | none => refuse place (.wrongSubject shape given)

section Operands

variable {s : Scope Unit} {shape : SubjectShape} {given : Json} {operands? : Option (String × String)}

theorem mem_names_of_checkOperands (h : s.checkOperands place shape given operands? = .ok ()) :
    ∃ left right, operands? = some (left, right) ∧ left ∈ s.names ∧ right ∈ s.names := by
  unfold checkOperands at h
  split at h
  · rename_i left right
    obtain ⟨v, hv, -⟩ := map_eq_ok_iff.mp h
    exact ⟨left, right, rfl, mem_names_of_pair hv⟩
  · cases h

theorem checkOperands_eq_error {missing : String} {available : List String}
    (h : s.checkOperands place shape given operands? = .error e)
    (hcause : e.cause = .undefinedName missing available) :
    ∃ left right, operands? = some (left, right) ∧ e.place = some place ∧ available = s.names ∧
      missing ∉ s.names ∧ (missing = left ∨ left ∈ s.names ∧ missing = right) := by
  unfold checkOperands at h
  split at h
  · rename_i left right
    obtain ⟨other, hnot, hmissing, rfl⟩ := pair_eq_error (map_eq_error_iff.mp h)
    cases hcause
    exact ⟨left, right, rfl, rfl, rfl, hnot, hmissing⟩
  · cases h
    cases hcause

end Operands

theorem cause_of_define_eq_error {v : β} (h : s.define name v = .error e) :
    e.cause = .redefinedName name := by
  unfold define at h
  split at h
  · cases h
    rfl
  · cases h

end Scope

/-! ## One pass over the entries -/

/-- A check of the entry at a position, with the names of the entries before it in scope. It leaves
the scope for the entries behind. -/
abbrev EntryCheck (ε : Type) := Scope Unit → Nat → ε → Checked (Scope Unit)

namespace EntryCheck

def all (check : EntryCheck ε) : Nat → Scope Unit → List ε → Checked (Scope Unit)
  | _, s, [] => .ok s
  | i, s, x :: rest => do
    let s ← check s i x
    all check (i + 1) s rest

variable {check : EntryCheck ε} {n : Naming ε} {s u : Scope Unit} {i : Nat} {xs : List ε}

theorem all_append (ys : List ε) :
    check.all i s (xs ++ ys) = (check.all i s xs >>= fun u => check.all (i + xs.length) u ys) := by
  induction xs generalizing i s with
  | nil => rfl
  | cons x rest ih =>
    rw [List.cons_append, all, all]
    cases check s i x with
    | error e => rfl
    | ok v =>
      rw [ok_bind, ok_bind, ih, List.length_cons, Nat.add_assoc, Nat.add_comm 1]

theorem all_append_eq_error {e : StepError} (h : check.all i s xs = .error e) (ys : List ε) :
    check.all i s (xs ++ ys) = .error e := by
  rw [all_append, h, error_bind]

theorem exists_all_of_append {ys : List ε} (h : check.all i s (xs ++ ys) = .ok u) :
    ∃ v, check.all i s xs = .ok v ∧ check.all (i + xs.length) v ys = .ok u := by
  rwa [all_append, bind_eq_ok_iff] at h

/-- Every entry of an accepted list has passed after the entries before it. -/
theorem exists_check_of_all (h : check.all 0 s xs = .ok u) {x : ε} (hx : xs[i]? = some x) :
    ∃ v w, check.all 0 s (xs.take i) = .ok v ∧ check v i x = .ok w := by
  obtain ⟨hlt, rfl⟩ := List.getElem?_eq_some_iff.mp hx
  have hsplit : xs = xs.take i ++ xs[i] :: xs.drop (i + 1) := by simp
  rw [hsplit] at h
  obtain ⟨v, hv, h⟩ := exists_all_of_append h
  obtain ⟨w, hw, -⟩ := bind_eq_ok_iff.mp h
  refine ⟨v, w, hv, ?_⟩
  rwa [Nat.zero_add, List.length_take, Nat.min_eq_left (Nat.le_of_lt hlt)] at hw

/-- A refused list has a first bad entry. -/
theorem exists_check_of_all_eq_error {e : StepError} (h : check.all i s xs = .error e) :
    ∃ k x v, xs[k]? = some x ∧ check.all i s (xs.take k) = .ok v ∧
      check v (i + k) x = .error e := by
  induction xs generalizing i s with
  | nil => cases h
  | cons x rest ih =>
    rcases bind_eq_error_iff.mp h with h | ⟨v, hv, h⟩
    · exact ⟨0, x, s, rfl, rfl, h⟩
    · obtain ⟨k, y, w, hy, hw, h⟩ := ih h
      refine ⟨k + 1, y, w, hy, ?_, by rwa [← Nat.add_assoc, Nat.add_right_comm]⟩
      rw [List.take_succ_cons, all, hv, ok_bind, hw]

/-- An entry that passes has found its operands and adds its own name; one that does not find an
operand tells the names in scope. -/
structure Binds (check : EntryCheck ε) (n : Naming ε) : Prop where
  names {s u : Scope Unit} {i : Nat} {x : ε} : check s i x = .ok u →
    n.name x ∉ s.names ∧ u.names = s.names ++ [n.name x]
  found {s u : Scope Unit} {i : Nat} {x : ε} : check s i x = .ok u → n.Combines x →
    ∃ left right, n.operands? x = some (left, right) ∧ left ∈ s.names ∧ right ∈ s.names
  missing {s : Scope Unit} {i : Nat} {x : ε} {e : StepError} {missing : String}
    {available : List String} : check s i x = .error e →
    e.cause = .undefinedName missing available → n.Combines x ∧
      ∃ left right, n.operands? x = some (left, right) ∧ e.place = some (n.operandPlace i) ∧
        available = s.names ∧ missing ∉ s.names ∧
        (missing = left ∨ left ∈ s.names ∧ missing = right)

namespace Binds

variable (hbinds : check.Binds n)

include hbinds

/-- The scope is that of the names behind. -/
theorem names_of_all (h : check.all i s xs = .ok u) :
    u.names = s.names ++ xs.map n.name ∧ (s.names.Nodup → u.names.Nodup) := by
  induction xs generalizing i s with
  | nil =>
    cases h
    simp
  | cons x rest ih =>
    obtain ⟨v, hv, h⟩ := bind_eq_ok_iff.mp h
    obtain ⟨hnew, hnames⟩ := hbinds.names hv
    obtain ⟨hrest, hnodup⟩ := ih h
    refine ⟨by rw [hrest, hnames, List.map_cons, List.append_assoc, List.singleton_append],
      fun hs => hnodup ?_⟩
    rw [hnames]
    simpa using hs.concat hnew

/-- A pass from the start leaves the names of all entries, and they are distinct. -/
theorem scope_of_all (h : check.all 0 .empty xs = .ok u) :
    u.names = xs.map n.name ∧ (xs.map n.name).Nodup := by
  obtain ⟨hnames, hnodup⟩ := hbinds.names_of_all h
  have hall : u.names = xs.map n.name := hnames
  exact ⟨hall, hall ▸ hnodup List.nodup_nil⟩

/-- In a list whose pass succeeds a reference goes back. -/
theorem lt_of_refersTo (h : check.all 0 .empty xs = .ok u) {j : Nat} (hrefers : n.RefersTo xs i j) :
    j < i := by
  obtain ⟨x, y, left, right, hx, hy, hcombines, hoperands, hname⟩ := hrefers
  obtain ⟨v, w, hv, hw⟩ := exists_check_of_all h hx
  obtain ⟨left', right', hoperands', hleft, hright⟩ := hbinds.found hw hcombines
  cases hoperands.symm.trans hoperands'
  obtain ⟨hbefore, -⟩ := hbinds.scope_of_all hv
  have hmem : n.name y ∈ (xs.take i).map n.name := by
    rw [← hbefore]
    rcases hname with rfl | rfl
    · exact hleft
    · exact hright
  -- The name stands before `i`, and it stands nowhere else.
  obtain ⟨k, hk⟩ := List.mem_iff_getElem?.mp hmem
  rw [List.map_take, List.getElem?_take] at hk
  split at hk
  · rename_i hki
    obtain ⟨-, hdistinct⟩ := hbinds.scope_of_all h
    have hj : (xs.map n.name)[j]? = some (n.name y) := by
      rw [List.getElem?_map, hy, Option.map_some]
    obtain ⟨hlt, -⟩ := List.getElem?_eq_some_iff.mp hj
    have hjk : j = k := (List.getElem?_inj hlt hdistinct).mp (hj.trans hk.symm)
    rwa [hjk]
  · cases hk

/-- Whatever is checked before the pass over the entries, it accepts them in the order of their
declarations. -/
theorem declaredInOrder {start : Checked Unit} {accept : List ε → Checked Unit}
    (hstart : Points (fun _ _ _ => False) start)
    (haccept : ∀ xs, accept xs = (start >>= fun _ => (check.all 0 .empty xs).map fun _ => ())) :
    n.DeclaredInOrder accept := by
  have hok {xs : List ε} :
      accept xs = .ok () ↔ start = .ok () ∧ ∃ u, check.all 0 .empty xs = .ok u := by
    rw [haccept, check_bind_eq_ok_iff, map_eq_ok_iff]
    simp
  have herror {xs : List ε} {e : StepError} : accept xs = .error e ↔
      start = .error e ∨ start = .ok () ∧ check.all 0 .empty xs = .error e := by
    rw [haccept, bind_eq_error_iff]
    simp only [map_eq_error_iff]
    exact or_congr_right ⟨fun ⟨_, h⟩ => h, fun h => ⟨(), h⟩⟩
  have hbackward {xs : List ε} {i j : Nat} (h : accept xs = .ok ()) (hrefers : n.RefersTo xs i j) :
      j < i := by
    obtain ⟨-, u, hu⟩ := hok.mp h
    exact hbinds.lt_of_refersTo hu hrefers
  exact
    { nodup h := by
        obtain ⟨-, u, hu⟩ := hok.mp h
        exact (hbinds.scope_of_all hu).2
      earlier h hx hcombines := by
        obtain ⟨-, u, hu⟩ := hok.mp h
        obtain ⟨v, w, hv, hw⟩ := exists_check_of_all hu hx
        obtain ⟨hnames, -⟩ := hbinds.scope_of_all hv
        have hfound := hbinds.found hw hcombines
        rwa [hnames] at hfound
      backward := hbackward
      acyclic {xs i} h hcycle := by
        have hlt : ∀ j, Relation.TransGen (n.RefersTo xs) i j → j < i := by
          intro j hreach
          induction hreach with
          | single hrefers => exact hbackward h hrefers
          | tail _ hrefers ih => exact Nat.lt_trans (hbackward h hrefers) ih
        exact Nat.lt_irrefl i (hlt i hcycle)
      accept_of_append h := by
        obtain ⟨hstart, u, hu⟩ := hok.mp h
        obtain ⟨v, hv, -⟩ := exists_all_of_append hu
        exact hok.mpr ⟨hstart, v, hv⟩
      error_append h := by
        refine herror.mpr ((herror.mp h).imp_right fun ⟨hstart, h⟩ => ⟨hstart, ?_⟩)
        exact all_append_eq_error h _
      first_rejected h := by
        rcases herror.mp h with h | ⟨hstart, h⟩
        · exact .inl (herror.mpr (.inl h))
        · obtain ⟨k, x, v, hx, hv, hk⟩ := exists_check_of_all_eq_error h
          obtain ⟨hlt, rfl⟩ := List.getElem?_eq_some_iff.mp hx
          refine .inr ⟨k, hlt, hok.mpr ⟨hstart, v, hv⟩, fun ys => herror.mpr (.inr ⟨hstart, ?_⟩)⟩
          refine all_append_eq_error ?_ ys
          rw [List.take_succ_eq_append_getElem hlt, all_append, hv, ok_bind, List.length_take,
            Nat.min_eq_left (Nat.le_of_lt hlt), all, hk, error_bind]
      undefined {_ e missing _} h hcause := by
        rcases herror.mp h with h | ⟨hstart, h⟩
        · obtain ⟨place, -, hoffers⟩ := (hstart e h).placed
          exact (hoffers missing _ (by rw [hcause]; rfl)).1.elim
        · obtain ⟨k, x, v, hx, hv, hk⟩ := exists_check_of_all_eq_error h
          obtain ⟨hcombines, left, right, hoperands, hplace, rfl, hnot, hmissing⟩ :=
            hbinds.missing hk hcause
          obtain ⟨hnames, -⟩ := hbinds.scope_of_all hv
          have hoffers : e.cause.offers? = some (missing, v.names) := by rw [hcause]; rfl
          rw [Nat.zero_add] at hplace
          refine ⟨k, x, left, right, hx, hok.mpr ⟨hstart, v, hv⟩, hcombines, hoperands, hnames,
            hnot, hmissing, StepError.get?_details_field hplace,
            StepError.get?_details_value hoffers, ?_⟩
          rw [StepError.get?_details_available, hoffers, Option.map_some] }

end Binds

end EntryCheck

/-! ## Aggregations -/

namespace Aggregation

def naming : Naming Entry where
  name := Entry.name
  Combines entry := ∃ op, entry.method = .combine op
  operands? entry := entry.subject.pair?
  operandPlace := subjectPlace

variable {s : Scope Unit} {i : Nat} {entry : Entry}

theorem checkSubject_combine {op : Operator} (hmethod : entry.method = .combine op) :
    checkSubject s i entry =
      s.checkOperands (subjectPlace i) .twoNames entry.subject.encode entry.subject.pair? := by
  rw [checkSubject, hmethod]
  rfl

theorem checkSubject_eq_error {e : StepError} {missing : String} {available : List String}
    (h : checkSubject s i entry = .error e) (hcause : e.cause = .undefinedName missing available) :
    (∃ op, entry.method = .combine op) ∧ ∃ left right, entry.subject.pair? = some (left, right) ∧
      e.place = some (subjectPlace i) ∧ available = s.names ∧ missing ∉ s.names ∧
      (missing = left ∨ left ∈ s.names ∧ missing = right) := by
  cases hmethod : entry.method with
  | reduce reduction =>
    rw [checkSubject, hmethod] at h
    dsimp only at h
    split at h
    · cases h
    · cases h
      cases hcause
  | combine op =>
    rw [checkSubject_combine hmethod] at h
    exact ⟨⟨op, rfl⟩, Scope.checkOperands_eq_error h hcause⟩

theorem binds_checkEntry (axis : List String) :
    EntryCheck.Binds (checkEntry axis) naming where
  names h := by
    obtain ⟨-, -, hdefine⟩ := checkEntry_eq_ok h
    exact ⟨(Scope.define_eq_ok_iff.mp hdefine).1, Scope.names_define hdefine⟩
  found h hcombines := by
    obtain ⟨-, hsubject, -⟩ := checkEntry_eq_ok h
    obtain ⟨op, hmethod⟩ := hcombines
    rw [checkSubject_combine hmethod] at hsubject
    exact Scope.mem_names_of_checkOperands hsubject
  missing h hcause := by
    rcases bind_eq_error_iff.mp h with h | ⟨_, -, h⟩
    · unfold checkName at h
      split at h <;> cases h
      cases hcause
    · split at h
      · cases h
        cases hcause
      · rcases bind_eq_error_iff.mp h with h | ⟨_, -, h⟩
        · exact checkSubject_eq_error h hcause
        · obtain ⟨e, he, rfl⟩ := mapError_eq_error_iff.mp h
          cases (Scope.cause_of_define_eq_error he).symm.trans hcause

theorem checkEntries_eq_all (axis : List String) (entries : List Entry) :
    checkEntries axis i s entries = EntryCheck.all (checkEntry axis) i s entries := by
  induction entries generalizing i s with
  | nil => rfl
  | cons entry rest ih => simp only [checkEntries, EntryCheck.all, ih]

theorem declaredInOrder_check {α : Type} [Quantity α] (axis : List String) :
    naming.DeclaredInOrder fun entries => (mk axis entries).check (none : Option (Table α)) := by
  have haxis : Points (fun _ _ _ => False) (checkAxis 0 [] axis) := points_checkAxis
  refine (binds_checkEntry axis).declaredInOrder haxis fun entries => ?_
  simp only [check, checkShape, checkEntries_eq_all]
  cases checkAxis 0 [] axis with
  | error e => rfl
  | ok _ =>
    cases EntryCheck.all (checkEntry axis) 0 .empty entries <;> rfl

end Aggregation

/-! ## Summaries -/

namespace Summary

variable {α : Type}

def naming : Naming (SummaryFormula α) where
  name := SummaryFormula.boundName
  Combines f := ∃ op, f.method = .combine op
  operands? := SummaryFormula.operands?
  operandPlace i := partPlace i "target_subject"

variable [WireQuantity α] {s : Scope Unit} {i : Nat} {f : SummaryFormula α}

theorem checkFormula_eq_ok {u : Scope Unit} (h : checkFormula s i f = .ok u) :
    checkSubject s i f = .ok () ∧ s.define f.boundName () = .ok u := by
  obtain ⟨-, h⟩ := check_bind_eq_ok_iff.mp h
  obtain ⟨hsubject, h⟩ := check_bind_eq_ok_iff.mp h
  exact ⟨hsubject, mapError_eq_ok_iff.mp h⟩

theorem checkSubject_combine {op : Operator} (hmethod : f.method = .combine op) :
    checkSubject s i f =
      s.checkOperands (partPlace i "target_subject") .twoFormulas (shownSubject f) f.operands? := by
  rw [checkSubject, hmethod]
  rfl

theorem checkSubject_eq_error {e : StepError} {missing : String} {available : List String}
    (h : checkSubject s i f = .error e) (hcause : e.cause = .undefinedName missing available) :
    (∃ op, f.method = .combine op) ∧ ∃ left right, f.operands? = some (left, right) ∧
      e.place = some (partPlace i "target_subject") ∧ available = s.names ∧ missing ∉ s.names ∧
      (missing = left ∨ left ∈ s.names ∧ missing = right) := by
  cases hmethod : f.method with
  | reduce reduction =>
    rw [checkSubject, hmethod] at h
    dsimp only at h
    split at h
    · cases h
    · cases h
      cases hcause
  | arithmetic =>
    rw [checkSubject, hmethod] at h
    have h := map_eq_error_iff.mp h
    unfold parseText at h
    split at h
    · cases h
      cases hcause
    · split at h <;> cases h
      cases hcause
  | combine op =>
    rw [checkSubject_combine hmethod] at h
    exact ⟨⟨op, rfl⟩, Scope.checkOperands_eq_error h hcause⟩

theorem binds_checkFormula : EntryCheck.Binds (checkFormula (α := α)) naming where
  names h := by
    obtain ⟨-, hdefine⟩ := checkFormula_eq_ok h
    exact ⟨(Scope.define_eq_ok_iff.mp hdefine).1, Scope.names_define hdefine⟩
  found h hcombines := by
    obtain ⟨op, hmethod⟩ := hcombines
    obtain ⟨hsubject, -⟩ := checkFormula_eq_ok h
    rw [checkSubject_combine hmethod] at hsubject
    exact Scope.mem_names_of_checkOperands hsubject
  missing h hcause := by
    rcases bind_eq_error_iff.mp h with h | ⟨_, -, h⟩
    · unfold checkPortion at h
      split at h <;> cases h
      cases hcause
    · rcases bind_eq_error_iff.mp h with h | ⟨_, -, h⟩
      · exact checkSubject_eq_error h hcause
      · obtain ⟨e, he, rfl⟩ := mapError_eq_error_iff.mp h
        cases (Scope.cause_of_define_eq_error he).symm.trans hcause

theorem checkFormulas_eq_all (fs : List (SummaryFormula α)) :
    checkFormulas i s fs = EntryCheck.all checkFormula i s fs := by
  induction fs generalizing i s with
  | nil => rfl
  | cons f rest ih => simp only [checkFormulas, EntryCheck.all, ih]

theorem declaredInOrder_check (includeTable : Bool) :
    naming.DeclaredInOrder fun fs : List (SummaryFormula α) =>
      (mk (some fs) none includeTable).check none := by
  have hstart : Points (fun _ _ _ => False) (.ok () : Checked Unit) := .ok ()
  refine binds_checkFormula.declaredInOrder hstart fun fs => ?_
  simp only [check, checkFormulaShapes, formulaList, Option.getD_some, checkFormulas_eq_all]
  cases EntryCheck.all checkFormula 0 .empty fs <;> rfl

/-- The formulas are checked before the chart, so a chart changes neither their verdict nor their
error. -/
theorem check_of_chart (chart : Option ChartSpec) (includeTable : Bool)
    (fs : List (SummaryFormula α)) :
    (∀ e, (mk (some fs) none includeTable).check none = .error e →
      (mk (some fs) chart includeTable).check none = .error e) ∧
    ((mk (some fs) chart includeTable).check none = .ok () →
      (mk (some fs) none includeTable).check none = .ok ()) := by
  simp only [check, checkFormulaShapes, formulaList, Option.getD_some]
  cases checkFormulas 0 .empty fs with
  | error e => exact ⟨fun _ h => h, fun h => h⟩
  | ok u =>
    refine ⟨fun e h => ?_, fun _ => rfl⟩
    cases h

end Summary

variable {α : Type} [WireQuantity α]

/-- The entries of an aggregation, whatever its axis columns, and the formulas of a summary,
whatever its chart, are accepted in the order of their declarations. -/
theorem results_declared_in_order (axis : List String) (includeTable : Bool) :
    (Aggregation.naming.DeclaredInOrder fun entries =>
      (Aggregation.mk axis entries).check (none : Option (Table α))) ∧
    (Summary.naming.DeclaredInOrder fun fs : List (SummaryFormula α) =>
      (Summary.mk (some fs) none includeTable).check none) ∧
    ∀ (chart : Option ChartSpec) (fs : List (SummaryFormula α)),
      (∀ e, (Summary.mk (some fs) none includeTable).check none = .error e →
        (Summary.mk (some fs) chart includeTable).check none = .error e) ∧
      ((Summary.mk (some fs) chart includeTable).check none = .ok () →
        (Summary.mk (some fs) none includeTable).check none = .ok ()) :=
  ⟨Aggregation.declaredInOrder_check axis, Summary.declaredInOrder_check includeTable,
    fun chart fs => Summary.check_of_chart chart includeTable fs⟩

/-- A share of the best one of a total refers back twice. A formula that is given the name which an
earlier one has by default is refused, and so is a ratio with a result that comes later: it is told
the one name before it, and what stands behind changes nothing. -/
theorem results_declared_in_order_sales :
    let total : Entry := ⟨"total", .single "sales", .reduce .sum⟩
    let best : Entry := ⟨"best", .single "sales", .reduce .max⟩
    let share : Entry := ⟨"share", .many ["best", "total"], .combine .divide⟩
    let accept (entries : List Entry) : Checked Unit :=
      (Aggregation.mk ["region"] entries).check (none : Option (Table Float))
    let sales : SummaryFormula Float :=
      ⟨none, some (.single "sales"), .reduce .sum, none, none, 1.0⟩
    let same : SummaryFormula Float :=
      ⟨some "sum(sales)", some (.single "cost"), .reduce .sum, none, none, 1.0⟩
    let verdict (fs : List (SummaryFormula Float)) : Checked Unit :=
      (Summary.mk (some fs) none false).check none
    accept [total, best, share] = .ok () ∧
      Aggregation.naming.RefersTo [total, best, share] 2 1 ∧
      (∀ j, Aggregation.naming.RefersTo [total, best, share] 2 j → j < 2) ∧
      (∃ e, accept [total, share, best] = .error e ∧
        (∀ entries, accept ([total, share, best] ++ entries) = .error e) ∧
        e.details.get? "available" = some (.strings ["total"])) ∧
      ∃ e, verdict [sales, same] = .error e ∧ ∀ fs, verdict ([sales, same] ++ fs) = .error e := by
  intro total best share accept sales same verdict
  obtain ⟨haggregation, hsummary, -⟩ := results_declared_in_order (α := Float) ["region"] false
  have haccept : accept [total, best, share] = .ok () := by
    subst accept total best share
    rfl
  have hrefuse : accept [total, share, best] =
      .error (.placed (Aggregation.subjectPlace 1) (.undefinedName "best" ["total"])) := by
    subst accept total best share
    rfl
  have hsame : verdict [sales, same] =
      .error (.placed (Summary.partPlace 1 "name") (.redefinedName "sum(sales)")) := by
    subst verdict sales same
    rfl
  refine ⟨haccept, ⟨share, best, "best", "total", rfl, rfl, ⟨_, rfl⟩, rfl, .inl rfl⟩,
    fun j => haggregation.backward haccept, ⟨_, hrefuse, fun entries => ?_, ?_⟩, _, hsame,
    fun fs => hsummary.error_append hsame⟩
  · exact haggregation.error_append hrefuse
  · obtain ⟨-, -, -, -, -, -, -, -, -, -, -, -, -, havailable⟩ := haggregation.undefined hrefuse rfl
    exact havailable

end TableSteps
