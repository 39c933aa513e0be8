import Mathlib.Data.List.Forall2
import QueryCompiler.Proofs.BinderGrowth

/-!
# Compilations that differ in lifted values only

Two compilations are alike when they ask the same of their binders up to the values that they lift
and the faults with which they fail. Alike compilations, run on binders with the same names, fail
both or end with the same answer and the same names.
-/
namespace QueryCompiler

namespace Build

variable {α β γ δ : Type}

theorem id_bind (x : Build α) : x.bind done = x := by
  induction x with
  | done | fail => rfl
  | bindValue value next ih => exact congrArg (bindValue value) (funext ih)
  | takeIn bag next ih => exact congrArg (takeIn bag) ih

theorem bind_bind (x : Build α) (f : α → Build β) (g : β → Build γ) :
    (x.bind f).bind g = x.bind fun a => (f a).bind g := by
  induction x with
  | done | fail => rfl
  | bindValue value next ih => exact congrArg (bindValue value) (funext ih)
  | takeIn bag next ih => exact congrArg (takeIn bag) ih

instance : LawfulMonad Build :=
  LawfulMonad.mk' Build id_bind (fun _ _ => rfl) bind_bind

/-- The same steps but for lifted values and faults; taken in are the bags of a class only. -/
inductive Alike (allowed : Bag → Prop) (R : α → β → Prop) : Build α → Build β → Prop
  | done {a : α} {b : β} (h : R a b) : Alike allowed R (done a) (done b)
  | fail (fault fault' : Fault) : Alike allowed R (fail fault) (fail fault')
  | bindValue {v v' : Value} {next : String → Build α} {next' : String → Build β}
      (h : ∀ name, Alike allowed R (next name) (next' name)) :
      Alike allowed R (bindValue v next) (bindValue v' next')
  | takeIn {bag : Bag} {next : Build α} {next' : Build β} (hbag : allowed bag)
      (h : Alike allowed R next next') : Alike allowed R (takeIn bag next) (takeIn bag next')

namespace Alike

variable {allowed : Bag → Prop} {R : α → β → Prop} {S : γ → δ → Prop}

theorem pure {a : α} {b : β} (h : R a b) :
    Alike allowed R (Pure.pure a : Build α) (Pure.pure b : Build β) :=
  .done h

theorem bind {x : Build α} {y : Build β} {f : α → Build γ} {g : β → Build δ}
    (hx : Alike allowed R x y) (hf : ∀ a b, R a b → Alike allowed S (f a) (g b)) :
    Alike allowed S (x >>= f) (y >>= g) := by
  induction hx with
  | done h => exact hf _ _ h
  | fail fault fault' => exact .fail fault fault'
  | bindValue _ ih => exact .bindValue ih
  | takeIn hbag _ ih => exact .takeIn hbag ih

/-- A common start whose answers are the same. -/
theorem bindEq {x y : Build α} {f : α → Build γ} {g : α → Build δ} (hx : Alike allowed Eq x y)
    (hf : ∀ a, Alike allowed S (f a) (g a)) : Alike allowed S (x >>= f) (y >>= g) :=
  hx.bind fun a _ h => h ▸ hf a

theorem symm {x y : Build α} (h : Alike allowed Eq x y) : Alike allowed Eq y x := by
  induction h with
  | done h => exact .done h.symm
  | fail fault fault' => exact .fail fault' fault
  | bindValue _ ih => exact .bindValue ih
  | takeIn hbag _ ih => exact .takeIn hbag ih

theorem trans {x y z : Build α} (hxy : Alike allowed Eq x y) (hyz : Alike allowed Eq y z) :
    Alike allowed Eq x z := by
  induction hxy generalizing z with
  | done h => exact h ▸ hyz
  | fail fault _ =>
      cases hyz with
      | fail _ fault' => exact .fail fault fault'
  | bindValue _ ih =>
      cases hyz with
      | bindValue h => exact .bindValue fun name => ih name (h name)
  | takeIn hbag _ ih =>
      cases hyz with
      | takeIn _ h => exact .takeIn hbag (ih h)

theorem lift (v v' : Value) : Alike allowed Eq (Build.lift v) (Build.lift v') :=
  .bindValue fun _ => .done rfl

theorem ofExcept (x : Except Fault α) : Alike allowed Eq (Build.ofExcept x) (Build.ofExcept x) := by
  cases x with
  | error fault => exact .fail fault fault
  | ok a => exact .done rfl

theorem merge {bag : Bag} (h : allowed bag) : Alike allowed Eq (Build.merge bag) (Build.merge bag) :=
  .takeIn h (.done rfl)

theorem mapM {ι κ : Type} {f : ι → Build α} {g : κ → Build β} {xs : List ι} {ys : List κ}
    (h : List.Forall₂ (fun x y => Alike allowed R (f x) (g y)) xs ys) :
    Alike allowed (List.Forall₂ R) (xs.mapM f) (ys.mapM g) := by
  induction h with
  | nil => exact .done .nil
  | cons hxy _ ih =>
      rw [List.mapM_cons, List.mapM_cons]
      exact hxy.bind fun a b hab => ih.bind fun as bs hrest => .done (.cons hab hrest)

theorem mapM_eq {ι κ : Type} {f : ι → Build α} {g : κ → Build α} {xs : List ι} {ys : List κ}
    (h : List.Forall₂ (fun x y => Alike allowed Eq (f x) (g y)) xs ys) :
    Alike allowed Eq (xs.mapM f) (ys.mapM g) := by
  have hmapM := mapM h
  rwa [List.forall₂_eq_eq_eq] at hmapM

end Alike

end Build

namespace Binder

/-- Two binders with the same names, and with the same values for the names of the given bags. -/
structure Agree (bags : List Bag) (a b : Binder) : Prop where
  count : a.count = b.count
  names : a.bag.names = b.bag.names
  values : ∀ bag ∈ bags, ∀ entry ∈ bag.entries, a.bag.get? entry.1 = b.bag.get? entry.1 ∧
    a.bag.get? entry.1 ≠ none

variable {bags : List Bag} {a b : Binder}

theorem Agree.lift (h : Agree bags a b) (v v' : Value) :
    (a.lift v).1 = (b.lift v').1 ∧ Agree bags (a.lift v).2 (b.lift v').2 := by
  have hcontains : a.bag.contains = b.bag.contains := by
    funext name
    rw [Bool.eq_iff_iff, Bag.contains_iff, Bag.contains_iff, h.names]
  have hsize : a.bag.size = b.bag.size := by
    simpa [Bag.size, Bag.names] using congrArg List.length h.names
  have hname : (a.lift v).1 = (b.lift v').1 := by
    simp only [Binder.lift, hcontains, hsize, h.count]
  refine ⟨hname, ?_, ?_, ?_⟩
  · simp only [Binder.lift, hcontains, hsize, h.count]
  · have hput : ∀ (bag : Bag) (name : String) (value : Value), (bag.insert name value).names =
        if name ∈ bag.names then bag.names else bag.names ++ [name] :=
      fun bag name value => Bag.names_put name value bag.entries
    rw [lift_bag, lift_bag, hput, hput, hname, h.names]
  · intro bag hbag entry hentry
    obtain ⟨hequal, htaken⟩ := h.values bag hbag entry hentry
    have hfresh := a.lift_fresh v
    have hne : entry.1 ≠ (a.lift v).1 := fun e => htaken (e ▸ hfresh)
    rw [lift_bag, lift_bag, Bag.get?_insert, Bag.get?_insert, if_neg hne, if_neg (hname ▸ hne)]
    exact ⟨hequal, htaken⟩

/-- Taking in what is there already changes nothing, and fails on the same comparisons. -/
theorem Agree.mergeEntries {entries : List (String × Value)}
    (h : ∀ entry ∈ entries, a.bag.get? entry.1 = b.bag.get? entry.1 ∧
      a.bag.get? entry.1 ≠ none) :
    (∃ fault, a.mergeEntries entries = (.error fault, a) ∧
        b.mergeEntries entries = (.error fault, b)) ∨
      (a.mergeEntries entries = (.ok (), a) ∧ b.mergeEntries entries = (.ok (), b)) := by
  induction entries with
  | nil => exact .inr ⟨rfl, rfl⟩
  | cons entry rest ih =>
      obtain ⟨name, value⟩ := entry
      obtain ⟨hequal, htaken⟩ := h (name, value) List.mem_cons_self
      obtain ⟨old, hold⟩ := Option.ne_none_iff_exists'.mp htaken
      have hold' : b.bag.get? name = some old := hequal ▸ hold
      simp only at hold
      by_cases hvalue : (old == value) = true
      · simp only [Binder.mergeEntries, mergeEntry, hold, hold', hvalue, if_true]
        exact ih fun entry hentry => h entry (List.mem_cons_of_mem _ hentry)
      · refine .inl ⟨.paramConflict name, ?_⟩
        simp [Binder.mergeEntries, mergeEntry, hold, hold', hvalue]

theorem Agree.merge (h : Agree bags a b) {bag : Bag} (hbag : bag ∈ bags) :
    (∃ fault, a.merge bag = (.error fault, a) ∧ b.merge bag = (.error fault, b)) ∨
      (a.merge bag = (.ok (), a) ∧ b.merge bag = (.ok (), b)) :=
  Agree.mergeEntries (h.values bag hbag)

end Binder

namespace Build

/-- Both runs fail, or both end with the same answer and the same names. -/
theorem Alike.run {α : Type} {bags : List Bag} {x y : Build α} (h : Alike (· ∈ bags) Eq x y)
    {a b : Binder} (hab : Binder.Agree bags a b) :
    (∃ fault fault', (x.run a).1 = .error fault ∧ (y.run b).1 = .error fault') ∨
      ∃ answer, (x.run a).1 = .ok answer ∧ (y.run b).1 = .ok answer ∧
        Binder.Agree bags (x.run a).2 (y.run b).2 := by
  induction h generalizing a b with
  | done h => exact .inr ⟨_, rfl, h ▸ rfl, hab⟩
  | fail fault fault' => exact .inl ⟨fault, fault', rfl, rfl⟩
  | @bindValue v v' next next' _ ih =>
      obtain ⟨hname, hagree⟩ := hab.lift v v'
      rw [Build.run, Build.run, ← hname]
      exact ih _ hagree
  | takeIn hbag _ ih =>
      rw [Build.run, Build.run]
      obtain ⟨fault, ha, hb⟩ | ⟨ha, hb⟩ := hab.merge hbag
      · rw [ha, hb]
        exact .inl ⟨fault, fault, rfl, rfl⟩
      · rw [ha, hb]
        exact ih hab

end Build

end QueryCompiler
