import Mathlib.Data.List.Forall2
import QueryCompiler.Proofs.BuildAlike

/-!
# Compilations that ask nothing of their binder

Such a compilation either gives an answer or has a reason to fail.
-/
namespace QueryCompiler.Build

variable {α β ι : Type} {refused : Prop}

/-- The compilation asks for nothing; its answer has a property, or there is a reason to fail. -/
def Settles (refused : Prop) (P : α → Prop) : Build α → Prop
  | done a => P a
  | fail _ => refused
  | bindValue _ _ => False
  | takeIn _ _ => False

namespace Settles

variable {P : α → Prop} {Q : β → Prop}

theorem pure {a : α} (h : P a) : (Pure.pure a : Build α).Settles refused P := h

theorem bind {x : Build α} {f : α → Build β} (hx : x.Settles refused P)
    (hf : ∀ a, P a → (f a).Settles refused Q) : (x >>= f).Settles refused Q := by
  cases x with
  | done a => exact hf a hx
  | fail fault => exact hx
  | bindValue | takeIn => exact hx.elim

theorem mono {refused' : Prop} {R : α → Prop} {x : Build α} (hx : x.Settles refused P)
    (hrefused : refused → refused') (h : ∀ a, P a → R a) : x.Settles refused' R := by
  cases x with
  | done a => exact h a hx
  | fail fault => exact hrefused hx
  | bindValue | takeIn => exact hx

theorem mapM {κ : Type} {R : κ → α → Prop} {f : ι → Build α} {xs : List ι} {ks : List κ}
    (h : List.Forall₂ (fun x k => (f x).Settles refused (R k)) xs ks) :
    (xs.mapM f).Settles refused fun answers => List.Forall₂ (fun a k => R k a) answers ks := by
  induction h with
  | nil => exact pure .nil
  | cons hfirst hrest ih =>
      rw [List.mapM_cons]
      exact hfirst.bind fun a ha => ih.bind fun answers hanswers => pure (.cons ha hanswers)

/-- Without a reason to fail a run gives an answer and leaves the binder as it was. -/
theorem run {x : Build α} (hx : x.Settles refused P) (binder : Binder) :
    (∃ a, x.run binder = (.ok a, binder) ∧ P a) ∨
      (refused ∧ ∃ fault, x.run binder = (.error fault, binder)) := by
  cases x with
  | done a => exact .inl ⟨a, rfl, hx⟩
  | fail fault => exact .inr ⟨hx, fault, rfl⟩
  | bindValue | takeIn => exact hx.elim

end Settles

end QueryCompiler.Build
