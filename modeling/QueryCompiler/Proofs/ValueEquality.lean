import QueryCompiler.Value

/-!
# Equality of values

The comparison of values is symmetric and transitive. It is not reflexive, because of values that
are not numbers, and it does not tell the two zeros apart.
-/
namespace QueryCompiler

open Float.Model (UnpackedFloat)
open Float.Model.UnpackedFloat (Sign)

/-- What comparisons tell of a double: nothing if it is not a number, and no sign of a zero. -/
def number? : UnpackedFloat → Option UnpackedFloat
  | .notANumber => none
  | .zero _ => some (.zero .positive)
  | x => some x

theorem compare_sign {s t : Sign} : compare s t = .eq ↔ s = t := by
  cases s with
  | negative =>
      cases t with
      | negative => exact ⟨fun _ => rfl, fun _ => rfl⟩
      | positive => exact ⟨nofun, nofun⟩
  | positive =>
      cases t with
      | negative => exact ⟨nofun, nofun⟩
      | positive => exact ⟨fun _ => rfl, fun _ => rfl⟩

theorem compare_then {e f : Int} {m n : Nat} :
    (compare e f).then (compare m n) = .eq ↔ e = f ∧ m = n := by
  rw [Ordering.then_eq_eq, Std.compare_eq_iff_eq, Std.compare_eq_iff_eq]

theorem compare_eq_iff {x y : UnpackedFloat} :
    x.compare y = some .eq ↔ ∃ z, number? x = some z ∧ number? y = some z := by
  constructor
  · intro h
    cases x with
    | notANumber => cases h
    | infinity s =>
        cases y with
        | infinity t =>
            obtain rfl := compare_sign.mp (Option.some.inj h)
            exact ⟨_, rfl, rfl⟩
        | notANumber => cases h
        | zero | finite => cases s <;> cases h
    | zero s =>
        cases y with
        | zero t => exact ⟨_, rfl, rfl⟩
        | notANumber => cases h
        | infinity t | finite t => cases t <;> cases h
    | finite s m e hm =>
        cases y with
        | infinity t => cases t <;> cases h
        | notANumber => cases h
        | zero t => cases s <;> cases h
        | finite t n f hn =>
            obtain ⟨rfl, rfl, rfl⟩ : s = t ∧ e = f ∧ m = n := by
              cases s with
              | negative =>
                  cases t with
                  | negative =>
                      exact ⟨rfl, compare_then.mp (Ordering.swap_eq_eq.mp (Option.some.inj h))⟩
                  | positive => cases h
              | positive =>
                  cases t with
                  | negative => cases h
                  | positive => exact ⟨rfl, compare_then.mp (Option.some.inj h)⟩
            exact ⟨_, rfl, rfl⟩
  · rintro ⟨z, hx, hy⟩
    cases x with
    | notANumber => cases hx
    | infinity s =>
        cases y with
        | infinity t =>
            cases hx
            cases hy
            exact congrArg some (compare_sign.mpr rfl)
        | notANumber | zero | finite => cases hx; cases hy
    | zero s =>
        cases y with
        | zero t => rfl
        | notANumber | infinity | finite => cases hx; cases hy
    | finite s m e hm =>
        cases y with
        | finite t n f hn =>
            cases hx
            cases hy
            have hthen := (@compare_then e e m m).mpr ⟨rfl, rfl⟩
            cases s with
            | negative => exact congrArg (fun o => some o.swap) hthen
            | positive => exact congrArg some hthen
        | notANumber | infinity | zero => cases hx; cases hy

namespace Value

/-- What comparisons tell of a value. -/
def comparable? : Value → Option (Value ⊕ UnpackedFloat)
  | float x => (number? x.toModel.unpack).map .inr
  | v => some (.inl v)

theorem beq_iff {a b : Value} :
    (a == b) = true ↔ ∃ k, a.comparable? = some k ∧ b.comparable? = some k := by
  cases a with
  | float x =>
      cases b with
      | float y =>
          have hbeq : (float x == float y) = true ↔
              x.toModel.unpack.compare y.toModel.unpack = some .eq :=
            beq_iff_eq (α := Option Ordering)
          rw [hbeq, compare_eq_iff]
          constructor
          · rintro ⟨z, hx, hy⟩
            exact ⟨.inr z, by rw [comparable?, hx]; rfl, by rw [comparable?, hy]; rfl⟩
          · rintro ⟨_, hx, hy⟩
            obtain ⟨z, hz, rfl⟩ := Option.map_eq_some_iff.mp hx
            obtain ⟨w, hw, heq⟩ := Option.map_eq_some_iff.mp hy
            exact ⟨z, hz, Sum.inr.inj heq ▸ hw⟩
      | null | bool | int | text => simp [BEq.beq, instBEqValue.beq, comparable?]
  | null => cases b <;> simp [BEq.beq, instBEqValue.beq, comparable?]
  | bool p => cases b <;> simp [BEq.beq, instBEqValue.beq, comparable?, eq_comm]
  | int m => cases b <;> simp [BEq.beq, instBEqValue.beq, comparable?, eq_comm]
  | text s => cases b <;> simp [BEq.beq, instBEqValue.beq, comparable?, eq_comm]

theorem equals_symm {a b : Value} (h : (a == b) = true) : (b == a) = true := by
  obtain ⟨k, ha, hb⟩ := beq_iff.mp h
  exact beq_iff.mpr ⟨k, hb, ha⟩

theorem equals_trans {a b c : Value} (hab : (a == b) = true) (hbc : (b == c) = true) :
    (a == c) = true := by
  obtain ⟨k, ha, hb⟩ := beq_iff.mp hab
  obtain ⟨l, hb', hc⟩ := beq_iff.mp hbc
  obtain rfl : k = l := Option.some.inj (hb.symm.trans hb')
  exact beq_iff.mpr ⟨k, ha, hc⟩

end Value

end QueryCompiler
