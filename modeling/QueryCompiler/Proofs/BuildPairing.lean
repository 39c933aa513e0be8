import QueryCompiler.Proofs.BuildAlike
import QueryCompiler.Text.Identifier

/-!
# Two compilations side by side

A pairing lifts relations between answers to compilations. It is all that is needed to follow two
compilations of one query step by step, whatever is compared in the end. The pairing used most asks
the same of both binders, up to the names that are generated and to faults with which the second
side may give up.
-/
namespace QueryCompiler.Build

/-- A relation between compilations for every relation between answers, with its rule for each way
in which compilations are put together. -/
structure Pairing where
  Rel : {α β : Type} → (α → β → Prop) → Build α → Build β → Prop
  /-- How the names generated for one value on both sides are related. -/
  Named : String → String → Prop
  /-- Whether both sides may fail with different faults. -/
  Lenient : Prop
  pure {α β : Type} {R : α → β → Prop} {a : α} {b : β} (h : R a b) :
    Rel R (Pure.pure a) (Pure.pure b)
  failing {α β : Type} {R : α → β → Prop} {fault fault' : Fault} (h : fault = fault' ∨ Lenient) :
    Rel R (Build.fail fault : Build α) (Build.fail fault' : Build β)
  lift (v : Value) : Rel Named (Build.lift v) (Build.lift v)
  bind {α β γ δ : Type} {R : α → β → Prop} {S : γ → δ → Prop} {x : Build α} {y : Build β}
    {f : α → Build γ} {g : β → Build δ} (hx : Rel R x y) (hf : ∀ a b, R a b → Rel S (f a) (g b)) :
    Rel S (x >>= f) (y >>= g)

namespace Pairing

variable {α β ι κ : Type} {R : α → β → Prop} (L : Pairing)

theorem fail (fault : Fault) : L.Rel R (Build.fail fault) (Build.fail fault) := L.failing (.inl rfl)

/-- Faults that show an expression, which may be another one on the second side. -/
theorem failShowing {shown shown' : String} (h : shown = shown' ∨ L.Lenient)
    (fault : String → Fault) : L.Rel R (Build.fail (fault shown)) (Build.fail (fault shown')) :=
  L.failing (h.imp_left (congrArg fault))

theorem mono {S : α → β → Prop} {x : Build α} {y : Build β} (h : L.Rel R x y)
    (himp : ∀ a b, R a b → S a b) : L.Rel S x y := by
  simpa using L.bind h fun a b hab => L.pure (himp a b hab)

theorem ofExcept (answer : Except Fault α) :
    L.Rel Eq (Build.ofExcept answer) (Build.ofExcept answer) := by
  cases answer with
  | error fault => exact L.fail fault
  | ok a => exact L.pure rfl

theorem ofExcept_of_ok {S : α → α → Prop} {answer : Except Fault α}
    (h : ∀ a, answer = .ok a → S a a) :
    L.Rel S (Build.ofExcept answer) (Build.ofExcept answer) := by
  cases answer with
  | error fault => exact L.fail fault
  | ok a => exact L.pure (h a rfl)

theorem ofExcept_bind {γ : Type} {S : β → γ → Prop} {answer : Except Fault α} {f : α → Build β}
    {g : α → Build γ} (h : ∀ a, answer = .ok a → L.Rel S (f a) (g a)) :
    L.Rel S (Build.ofExcept answer >>= f) (Build.ofExcept answer >>= g) := by
  cases answer with
  | error fault => exact L.fail fault
  | ok a => exact h a rfl

theorem mapM {f : ι → Build α} {g : κ → Build β} {xs : List ι} {ys : List κ}
    (h : List.Forall₂ (fun x y => L.Rel R (f x) (g y)) xs ys) :
    L.Rel (List.Forall₂ R) (xs.mapM f) (ys.mapM g) := by
  induction h with
  | nil => exact L.pure .nil
  | cons hxy _ ih =>
      rw [List.mapM_cons, List.mapM_cons]
      exact L.bind hxy fun a b hab => L.bind ih fun as bs hrest => L.pure (.cons hab hrest)

/-- Items of two lists made from one may be compared one by one in the original list. -/
theorem mapM_map {μ : Type} {f : ι → Build α} {g : κ → Build β} {a : μ → ι} {b : μ → κ}
    {xs : List μ} (h : ∀ x ∈ xs, L.Rel R (f (a x)) (g (b x))) :
    L.Rel (List.Forall₂ R) ((xs.map a).mapM f) ((xs.map b).mapM g) := by
  refine L.mapM ?_
  rwa [List.forall₂_map_left_iff, List.forall₂_map_right_iff, List.forall₂_same]

end Pairing

/-- The same steps, as long as the second side does not give up; taken in are the bags of a class
only. -/
inductive Paired (gaveUp : Fault → Prop) (allowed : Bag → Prop) (named : String → String → Prop)
    {α β : Type} (R : α → β → Prop) : Build α → Build β → Prop
  | done {a : α} {b : β} (h : R a b) : Paired gaveUp allowed named R (done a) (done b)
  | fail (fault : Fault) : Paired gaveUp allowed named R (fail fault) (fail fault)
  | refused {fault : Fault} (x : Build α) (h : gaveUp fault) :
      Paired gaveUp allowed named R x (fail fault)
  | bindValue (v : Value) {next : String → Build α} {next' : String → Build β}
      (h : ∀ name name', named name name' →
        Paired gaveUp allowed named R (next name) (next' name')) :
      Paired gaveUp allowed named R (bindValue v next) (bindValue v next')
  | takeIn {bag : Bag} {next : Build α} {next' : Build β} (hbag : allowed bag)
      (h : Paired gaveUp allowed named R next next') :
      Paired gaveUp allowed named R (takeIn bag next) (takeIn bag next')

variable {gaveUp : Fault → Prop} {allowed : Bag → Prop} {named : String → String → Prop}
  {α β γ δ : Type} {R : α → β → Prop} {S : γ → δ → Prop}

theorem Paired.bind {x : Build α} {y : Build β} {f : α → Build γ} {g : β → Build δ}
    (hx : Paired gaveUp allowed named R x y)
    (hf : ∀ a b, R a b → Paired gaveUp allowed named S (f a) (g b)) :
    Paired gaveUp allowed named S (x >>= f) (y >>= g) := by
  induction hx with
  | done h => exact hf _ _ h
  | fail fault => exact .fail fault
  | refused x h => exact .refused _ h
  | bindValue v _ ih => exact .bindValue v ih
  | takeIn hbag _ ih => exact .takeIn hbag ih

theorem Paired.merge {bag : Bag} (hbag : allowed bag) :
    Paired gaveUp allowed named Eq (Build.merge bag) (Build.merge bag) :=
  .takeIn hbag (.done rfl)

/-- Paired compilations, run on one binder: the second gives up, or both fail with one fault, or
both answer and leave the same binder. -/
theorem Paired.run (hnamed : ∀ n, named (Binder.generatedName n) (Binder.generatedName n))
    {x : Build α} {y : Build β} (h : Paired gaveUp allowed named R x y) (binder : Binder) :
    (∃ fault after, gaveUp fault ∧ y.run binder = (.error fault, after)) ∨
      (∃ fault after, x.run binder = (.error fault, after) ∧ y.run binder = (.error fault, after)) ∨
      ∃ a b after, R a b ∧ x.run binder = (.ok a, after) ∧ y.run binder = (.ok b, after) := by
  induction h generalizing binder with
  | done h => exact .inr (.inr ⟨_, _, binder, h, rfl, rfl⟩)
  | fail fault => exact .inr (.inl ⟨fault, binder, rfl, rfl⟩)
  | refused x h => exact .inl ⟨_, binder, h, rfl⟩
  | bindValue v _ ih => exact ih _ _ (hnamed _) (binder.lift v).2
  | @takeIn bag next next' _ _ ih =>
      rw [Build.run, Build.run]
      cases binder.merge bag with
      | mk answer after =>
          cases answer with
          | error fault => exact .inr (.inl ⟨fault, after, rfl, rfl⟩)
          | ok _ => exact ih after

/-- One name on both sides, which is an identifier. -/
def SameName (name name' : String) : Prop := name = name' ∧ Text.isIdentifier name = true

/-- Following two compilations by their steps. -/
def steps (gaveUp : Fault → Prop) (allowed : Bag → Prop) (named : String → String → Prop) :
    Pairing where
  Rel := Paired gaveUp allowed named
  Named := named
  Lenient := ∀ fault, gaveUp fault
  pure := .done
  failing h := h.elim (fun heq => heq ▸ .fail _) fun hgives => .refused _ (hgives _)
  lift v := .bindValue v fun _ _ h => .done h
  bind := .bind

end QueryCompiler.Build
