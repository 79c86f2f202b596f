import TableSteps.Binary64.Quantity
import TableSteps.Chart.Build
import TableSteps.Proofs.Outcome

/-! # Checking a chart agrees with building it

Each way of drawing tells in one place which options it requires, and reads its options in another:
in an order of its own, as one column, a list of columns or a number, and some of them only if they
are set. The two agree. What is required is read by an accessor that fails on an unset option, so a
chart that was built over any table had all its required options; then the check has nothing to
refuse that the trial build does not refuse. -/

namespace TableSteps

/-! ## Options that are not set -/

namespace Options

/-- An option that is absent or null. -/
def Unset (options : Options) (key : String) : Prop :=
  options.get? key = none ∨ options.get? key = some .null

variable {α : Type} {options : Options} {t : Table α} {key : String}

theorem value?_eq_none_iff : value? options key = none ↔ Unset options key := by
  unfold value? Unset
  cases options.get? key with
  | none => simp
  | some j => cases j <;> simp [Wire.isNull]

theorem set_of_column {name : String} (h : column options t key = .ok name) :
    ¬ Unset options key := by
  rw [← value?_eq_none_iff]
  intro hnone
  simp [column, optionalColumn, hnone] at h

theorem set_of_columns {names : List String} (h : columns options t key = .ok names) :
    ¬ Unset options key := by
  rw [← value?_eq_none_iff]
  intro hnone
  simp [columns, hnone] at h

end Options

namespace ChartSpec

open Options (Unset set_of_column set_of_columns)

variable {α : Type} [WireQuantity α] {t : Table α} {config : ChartSpec} {kind : ChartKind}

/-! ## What is required is read -/

/-- A chart that was drawn had every option that its kind requires. -/
theorem set_of_parts {options : Options} {drawing : Drawing}
    (h : parts kind t options = .ok drawing) : ∀ key ∈ kind.requiredOptions, ¬ Unset options key := by
  unfold parts at h
  unfold ChartKind.requiredOptions
  generalize kind.shape = shape at h ⊢
  cases shape with
  | cartesian =>
    obtain ⟨x, hx, h⟩ := bind_eq_ok_iff.mp h
    obtain ⟨ys, hys, -⟩ := bind_eq_ok_iff.mp h
    simp [set_of_column hx, set_of_columns hys]
  | pie =>
    obtain ⟨names, hnames, h⟩ := bind_eq_ok_iff.mp h
    obtain ⟨values, hvalues, -⟩ := bind_eq_ok_iff.mp h
    simp [set_of_column hnames, set_of_column hvalues]
  | heatmap =>
    obtain ⟨x, hx, h⟩ := bind_eq_ok_iff.mp h
    obtain ⟨y, hy, h⟩ := bind_eq_ok_iff.mp h
    obtain ⟨z, hz, -⟩ := bind_eq_ok_iff.mp h
    simp [set_of_column hx, set_of_column hy, set_of_column hz]
  | box =>
    obtain ⟨ys, hys, -⟩ := bind_eq_ok_iff.mp h
    simp [set_of_columns hys]
  | histogram =>
    obtain ⟨xs, hxs, -⟩ := bind_eq_ok_iff.mp h
    simp [set_of_columns hxs]
  | labelTree =>
    obtain ⟨path, hpath, -⟩ := bind_eq_ok_iff.mp h
    simp [set_of_columns hpath]

theorem set_of_build {figure : Figure} (h : config.build t = .ok figure) :
    ∃ kind, config.kind = .ok kind ∧
      ∀ key ∈ kind.requiredOptions, ¬ Unset config.options key := by
  obtain ⟨kind, hkind, h⟩ := bind_eq_ok_iff.mp h
  obtain ⟨drawing, hdrawing, -⟩ := bind_eq_ok_iff.mp h
  exact ⟨kind, hkind, set_of_parts (mapError_eq_ok_iff.mp hdrawing)⟩

/-! ## The check -/

theorem checkOptions_eq_ok_iff :
    config.checkOptions kind = .ok () ↔
      ∀ key ∈ kind.requiredOptions, ¬ Unset config.options key := by
  unfold checkOptions
  cases hfind : kind.requiredOptions.find? fun key => (Options.value? config.options key).isNone with
  | none => simpa [Options.value?_eq_none_iff] using hfind
  | some key =>
    have hunset : Unset config.options key := by
      simpa [Options.value?_eq_none_iff] using List.find?_some hfind
    simpa using ⟨key, List.mem_of_find?_eq_some hfind, hunset⟩

/-- A check asks for a known tag and the required options, and with a table for a chart over it. -/
theorem check_eq_ok_iff {t? : Option (Table α)} :
    config.check t? = .ok () ↔
      (∃ kind, config.kind = .ok kind ∧
        ∀ key ∈ kind.requiredOptions, ¬ Unset config.options key) ∧
      ∀ t, t? = some t → ∃ figure, config.build t = .ok figure := by
  unfold check
  rw [bind_eq_ok_iff, ← exists_and_right]
  refine exists_congr fun kind => ?_
  rw [check_bind_eq_ok_iff, checkOptions_eq_ok_iff, and_assoc]
  refine and_congr_right fun _ => and_congr_right fun _ => ?_
  cases t? with
  | none => simp
  | some t => simp [map_eq_ok_iff]

/-- A check over a table accepts the charts that can be built over it, and no others. A chart that
can be built over any table at all is accepted without one. No kind requires what it can do without:
where an option that is required is absent or null, the chart can be built over no table. -/
theorem check_agrees_with_build (config : ChartSpec) :
    (∀ t : Table α, config.check (some t) = .ok () ↔ ∃ figure, config.build t = .ok figure) ∧
    ((∃ (t : Table α) (figure : Figure), config.build t = .ok figure) →
      config.check (none : Option (Table α)) = .ok ()) ∧
    ∀ kind key, config.kind = .ok kind → key ∈ kind.requiredOptions →
      (config.options.get? key = none ∨ config.options.get? key = some .null) →
      ∀ t : Table α, ∃ e, config.build t = .error e := by
  refine ⟨fun t => ?_, ?_, fun kind key hkind hkey hunset t => ?_⟩
  · rw [check_eq_ok_iff]
    constructor
    · exact fun h => h.2 t rfl
    · rintro ⟨figure, hfigure⟩
      refine ⟨set_of_build hfigure, fun u hu => ?_⟩
      cases hu
      exact ⟨figure, hfigure⟩
  · rintro ⟨t, figure, hfigure⟩
    rw [check_eq_ok_iff]
    exact ⟨set_of_build hfigure, fun u hu => by cases hu⟩
  · cases hbuild : config.build t with
    | error e => exact ⟨e, rfl⟩
    | ok figure =>
      obtain ⟨kind', hkind', hset⟩ := set_of_build hbuild
      cases hkind.symm.trans hkind'
      exact absurd hunset (hset key hkey)

/-- A bar that can be stacked over one table is accepted without one; a line whose `x` is null can be
drawn over none. -/
theorem check_agrees_with_build_aliases :
    let t : Table Float := ⟨["region", "sales"], [[.text "North", .number 2]]⟩
    let stacked : ChartSpec :=
      ⟨"stacked_bar", .ofList [("x", .str "region"), ("y", .strings ["sales"])]⟩
    let bare : ChartSpec := ⟨"line_markers", .ofList [("x", .null), ("y", .str "sales")]⟩
    (stacked.check (some t) = .ok () ∧ stacked.check (none : Option (Table Float)) = .ok ()) ∧
      ∀ u : Table Float, ∃ e, bare.build u = .error e := by
  intro t stacked bare
  obtain ⟨hover, hwithout, -⟩ := check_agrees_with_build (α := Float) stacked
  obtain ⟨-, -, hrequired⟩ := check_agrees_with_build (α := Float) bare
  have hbuild : ∃ figure, stacked.build t = .ok figure := ⟨_, rfl⟩
  refine ⟨⟨(hover t).mpr hbuild, hwithout ⟨t, hbuild⟩⟩, ?_⟩
  exact hrequired .lineMarkers "x" rfl List.mem_cons_self (.inr rfl)

end ChartSpec
end TableSteps
