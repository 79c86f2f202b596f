import TableSteps.Binary64.Bits
import TableSteps.Proofs.Binary64.Lawful
import TableSteps.Proofs.SignedZero.Basic

/-! # The two zeros among the doubles

Two doubles agree just when they have the same rank. What reads the rank cannot tell the zeros
apart; what arithmetic makes of a zero is seen on the unpacked form, where a zero is a case of its
own with nothing but a sign. -/

namespace TableSteps.Binary64

open Float.Model Float.Model.UnpackedFloat
open Quantity (Agree)

/-! ## Reading -/

/-- The zero of a sign. -/
def zero (negative : Bool) : Float := ofMagnitude negative 0

theorem rank_eq_zero_iff {x : Float} : rank x = 0 ↔ magnitude x = 0 := by
  unfold rank
  split <;> omega

theorem isZero_iff {x : Float} : Quantity.isZero x = true ↔ magnitude x = 0 := by
  have hzero : rank (ofInt 0) = 0 := rfl
  have hnumber : isNaN (ofInt 0) = false := rfl
  change eqv x (ofInt 0) = true ↔ _
  rw [eqv, hzero, hnumber, ← rank_eq_zero_iff]
  simp only [Bool.not_false, Bool.and_true, Bool.and_eq_true, Bool.not_eq_true',
    decide_eq_true_eq, and_iff_right_iff_imp]
  intro h
  rw [isNaN, rank_eq_zero_iff.mp h]
  rfl

theorem agree_iff_rank_eq {x y : Float} : Agree x y ↔ rank x = rank y := by
  constructor
  · rintro (rfl | ⟨hx, hy⟩)
    · rfl
    · rw [rank_eq_zero_iff.mpr (isZero_iff.mp hx), rank_eq_zero_iff.mpr (isZero_iff.mp hy)]
  · intro h
    by_cases hx : rank x = 0
    · exact .inr ⟨isZero_iff.mpr (rank_eq_zero_iff.mp hx),
        isZero_iff.mpr (rank_eq_zero_iff.mp (h.symm.trans hx))⟩
    · have hsame : isNegative x = isNegative y ∧ magnitude x = magnitude y := by
        unfold rank at h hx
        cases hs : isNegative x <;> cases hs' : isNegative y <;> simp [hs, hs'] at h hx ⊢ <;> omega
      exact .inl (by rw [← ofMagnitude_magnitude x, hsame.1, hsame.2, ofMagnitude_magnitude])

theorem isNaN_eq_rank (x : Float) : isNaN x = decide (limit < (rank x).natAbs) := by
  unfold isNaN rank
  split <;> simp

theorem isFinite_eq_rank (x : Float) : isFinite x = decide ((rank x).natAbs < limit) := by
  unfold isFinite rank
  split <;> simp

theorem rank_le_of_totalLe {x y : Float} (h : totalLe x y = true) : rank x ≤ rank y := by
  have hle : totalRank x ≤ totalRank y := of_decide_eq_true h
  unfold totalRank at hle
  unfold rank
  split at hle <;> split at hle <;> simp only [*, if_true, if_false, Bool.false_eq_true] <;> omega

/-- Numbers that agree are equal, or the zeros of two signs. -/
theorem eq_or_zero_of_agree {x x' : Float} (h : Agree x x') :
    x = x' ∨ ∃ b b', x = zero b ∧ x' = zero b' := by
  have hzero {y : Float} (hy : Quantity.isZero y = true) : y = zero (isNegative y) := by
    rw [zero, ← isZero_iff.mp hy, ofMagnitude_magnitude]
  rcases h with rfl | ⟨hx, hx'⟩
  · exact .inl rfl
  · exact .inr ⟨_, _, hzero hx, hzero hx'⟩

/-- There is one double that is no number. -/
theorem toBits_of_isNaN {x : Float} (h : isNaN x = true) : x.toBits = 0x7FF8000000000000 := by
  have hbits := @toBits_ofBits_of_not_number x.toBits (of_decide_eq_true h)
  rwa [Float.ofBits_toBits] at hbits

theorem canonicalBits_eq {x : Float} :
    canonicalBits x = if magnitude x = 0 then 0 else x.toBits := by
  rw [canonicalBits, canonicalPattern]
  split
  · rename_i hnan
    have hzero : magnitude x ≠ 0 := fun h => Nat.not_lt_zero limit (h ▸ hnan)
    rw [if_neg hzero, toBits_of_isNaN (decide_eq_true hnan)]
  · rfl

theorem canonicalBits_eq_iff {x x' : Float} :
    canonicalBits x = canonicalBits x' ↔ Agree x x' := by
  constructor
  · intro h
    by_cases hx : magnitude x = 0 <;> by_cases hx' : magnitude x' = 0 <;>
      simp only [canonicalBits_eq, hx, hx', if_true, if_false] at h
    · exact .inr ⟨isZero_iff.mpr hx, isZero_iff.mpr hx'⟩
    · exact absurd (by rw [magnitude, ← h]; rfl) hx'
    · exact absurd (by rw [magnitude, h]; rfl) hx
    · exact .inl (by rw [← Float.ofBits_toBits x, h, Float.ofBits_toBits])
  · intro h
    obtain rfl | ⟨b, b', rfl, rfl⟩ := eq_or_zero_of_agree h
    · rfl
    · cases b <;> cases b' <;> rfl

/-! ## Arithmetic -/

def unpacked (x : Float) : UnpackedFloat := x.toModel.unpack

def ofUnpacked (u : UnpackedFloat) : Float := .ofModel (.pack u)

theorem unpacked_zero (negative : Bool) :
    unpacked (zero negative) = .zero (if negative then .negative else .positive) := by
  cases negative <;> rfl

/-- The sign changes nothing, or no more than the sign of a zero. -/
def SignFree (f : Sign → UnpackedFloat) : Prop :=
  (∃ u, ∀ s, f s = u) ∨ ∀ s, ∃ r, f s = .zero r

theorem agree_ofUnpacked {f : Sign → UnpackedFloat} (h : SignFree f) (s s' : Sign) :
    Agree (ofUnpacked (f s)) (ofUnpacked (f s')) := by
  rcases h with ⟨u, hu⟩ | hzero
  · rw [hu s, hu s']
    exact .refl _
  · have hpacked (s : Sign) : Quantity.isZero (ofUnpacked (f s)) = true := by
      obtain ⟨r, hr⟩ := hzero s
      rw [hr]
      cases r <;> rfl
    exact .inr ⟨hpacked s, hpacked s'⟩

/-- An operation on the unpacked forms of two doubles. -/
def onUnpacked (f : UnpackedFloat → UnpackedFloat → UnpackedFloat) (x y : Float) : Float :=
  ofUnpacked (f (unpacked x) (unpacked y))

section

variable {f : UnpackedFloat → UnpackedFloat → UnpackedFloat} {x x' y y' : Float}

theorem agree_onUnpacked_left (h : ∀ u, SignFree fun s => f (.zero s) u) (hx : Agree x x') :
    Agree (onUnpacked f x y) (onUnpacked f x' y) := by
  obtain rfl | ⟨b, b', rfl, rfl⟩ := eq_or_zero_of_agree hx
  · exact .refl _
  · rw [onUnpacked, onUnpacked, unpacked_zero, unpacked_zero]
    exact agree_ofUnpacked (h (unpacked y)) _ _

theorem agree_onUnpacked_right (h : ∀ u, SignFree fun s => f u (.zero s)) (hy : Agree y y') :
    Agree (onUnpacked f x y) (onUnpacked f x y') := by
  obtain rfl | ⟨b, b', rfl, rfl⟩ := eq_or_zero_of_agree hy
  · exact .refl _
  · rw [onUnpacked, onUnpacked, unpacked_zero, unpacked_zero]
    exact agree_ofUnpacked (h (unpacked x)) _ _

theorem agree_onUnpacked (hleft : ∀ u, SignFree fun s => f (.zero s) u)
    (hright : ∀ u, SignFree fun s => f u (.zero s)) (hx : Agree x x') (hy : Agree y y') :
    Agree (onUnpacked f x y) (onUnpacked f x' y') :=
  (agree_onUnpacked_left hleft hx).trans (agree_onUnpacked_right hright hy)

end

variable {x x' y y' : Float}

theorem agree_add (hx : Agree x x') (hy : Agree y y') : Agree (x + y) (x' + y') := by
  refine agree_onUnpacked (f := UnpackedFloat.add Format.binary64) (fun u => ?_) (fun u => ?_) hx hy
  all_goals
    cases u with
    | zero r => exact .inr fun s => by cases s <;> cases r <;> exact ⟨_, rfl⟩
    | notANumber | infinity | finite => exact .inl ⟨_, fun _ => rfl⟩

theorem agree_sub (hx : Agree x x') (hy : Agree y y') : Agree (x - y) (x' - y') := by
  refine agree_onUnpacked (f := UnpackedFloat.sub Format.binary64) (fun u => ?_) (fun u => ?_) hx hy
  all_goals
    cases u with
    | zero r => exact .inr fun s => by cases s <;> cases r <;> exact ⟨_, rfl⟩
    | notANumber | infinity | finite => exact .inl ⟨_, fun _ => rfl⟩

theorem agree_mul (hx : Agree x x') (hy : Agree y y') : Agree (x * y) (x' * y') := by
  refine agree_onUnpacked (f := UnpackedFloat.mul Format.binary64) (fun u => ?_) (fun u => ?_) hx hy
  all_goals
    cases u with
    | zero | finite => exact .inr fun s => ⟨_, rfl⟩
    | notANumber | infinity => exact .inl ⟨_, fun _ => rfl⟩

theorem agree_div (hx : Agree x x') : Agree (x / y) (x' / y) := by
  refine agree_onUnpacked_left (f := UnpackedFloat.div Format.binary64) (fun u => ?_) hx
  cases u with
  | finite | infinity => exact .inr fun s => ⟨_, rfl⟩
  | notANumber | zero => exact .inl ⟨_, fun _ => rfl⟩

theorem agree_neg (hx : Agree x x') : Agree (-x) (-x') := by
  refine agree_onUnpacked_left (f := fun u _ => u.neg) (y := x) (fun _ => ?_) hx
  exact .inr fun s => ⟨_, rfl⟩

theorem agree_toJson (h : Agree x x') : (Json.ofFloat x).Agree (Json.ofFloat x') := by
  unfold Json.ofFloat
  rw [isFinite_eq_rank, isFinite_eq_rank, agree_iff_rank_eq.mp h]
  split
  · exact .float h
  · exact .refl _

instance : TotalOrderLaws Float where
  totalLe_total := totalLe_total
  totalLe_trans := totalLe_trans

instance : SignedZeroLaws Float where
  agree_add := agree_add
  agree_sub := agree_sub
  agree_mul := agree_mul
  agree_div := agree_div
  agree_neg := agree_neg
  isNaN_eq {x x'} h := by
    change isNaN x = isNaN x'
    rw [isNaN_eq_rank, isNaN_eq_rank, agree_iff_rank_eq.mp h]
  isFinite_eq {x x'} h := by
    change isFinite x = isFinite x'
    rw [isFinite_eq_rank, isFinite_eq_rank, agree_iff_rank_eq.mp h]
  lt_eq {x x' y y'} hx hy := by
    change lt x y = lt x' y'
    simp only [lt, isNaN_eq_rank, agree_iff_rank_eq.mp hx, agree_iff_rank_eq.mp hy]
  eqv_eq {x x' y y'} hx hy := by
    change eqv x y = eqv x' y'
    simp only [eqv, isNaN_eq_rank, agree_iff_rank_eq.mp hx, agree_iff_rank_eq.mp hy]
  key_eq_key_iff := canonicalBits_eq_iff
  agree_of_totalLe {x x' y y'} hx hy hle hge := by
    have hxy := rank_le_of_totalLe hle
    have hyx := rank_le_of_totalLe hge
    rw [agree_iff_rank_eq] at hx hy ⊢
    omega
  agree_toJson := agree_toJson

instance : EqualityLaws Float where
  agree_of_eqv {x y} h := by
    simp only [Quantity.eqv, eqv, Bool.and_eq_true, decide_eq_true_eq] at h
    exact agree_iff_rank_eq.mpr h.2

end TableSteps.Binary64
