import QueryCompiler.Proofs.BuildAlike

/-!
# What a compilation ensures

A property of the answer that holds however the lifted values are named, as long as each name and
its value are related as given. It holds of the answer of a run whose lifts are so related, and, if
nothing is asked of the names, of whatever the compilation can answer.
-/
namespace QueryCompiler.Build

variable {α β ι : Type} {H : String → Value → Prop}

/-- Every answer has the property, if the lifted values are named as the relation says. -/
def Ensures (H : String → Value → Prop) (P : α → Prop) : Build α → Prop
  | done a => P a
  | fail _ => True
  | bindValue value next => ∀ name, H name value → (next name).Ensures H P
  | takeIn _ next => next.Ensures H P

namespace Ensures

variable {P : α → Prop} {Q : β → Prop}

theorem pure {a : α} (h : P a) : (Pure.pure a : Build α).Ensures H P := h

theorem bind {x : Build α} {f : α → Build β} (hx : x.Ensures H P)
    (hf : ∀ a, P a → (f a).Ensures H Q) : (x >>= f).Ensures H Q := by
  change (x.bind f).Ensures H Q
  induction x with
  | done a => exact hf a hx
  | fail fault => trivial
  | bindValue value next ih => exact fun name hname => ih name (hx name hname)
  | takeIn bag next ih => exact ih hx

theorem mono {R : α → Prop} {x : Build α} (hx : x.Ensures H P) (h : ∀ a, P a → R a) :
    x.Ensures H R := by
  induction x with
  | done a => exact h a hx
  | fail fault => trivial
  | bindValue value next ih => exact fun name hname => ih name (hx name hname)
  | takeIn bag next ih => exact ih hx

protected theorem trivial (x : Build α) : x.Ensures H fun _ => True := by
  induction x with
  | done | fail => exact True.intro
  | bindValue value next ih => exact fun name _ => ih name
  | takeIn bag next ih => exact ih

theorem ofExcept {x : Except Fault α} (h : ∀ a, x = .ok a → P a) :
    (Build.ofExcept x).Ensures H P := by
  cases x with
  | error fault => trivial
  | ok a => exact h a rfl

theorem lift (v : Value) : (Build.lift v).Ensures H fun name => H name v :=
  fun _ hname => hname

theorem mapM_forall₂ {R : ι → α → Prop} {f : ι → Build α} {xs : List ι}
    (h : ∀ x ∈ xs, (f x).Ensures H (R x)) : (xs.mapM f).Ensures H (List.Forall₂ R xs) := by
  induction xs with
  | nil => exact pure .nil
  | cons x rest ih =>
      rw [List.mapM_cons]
      refine (h x List.mem_cons_self).bind fun a ha => ?_
      refine (ih fun x hx => h x (List.mem_cons_of_mem _ hx)).bind fun answers hanswers => ?_
      exact pure (.cons ha hanswers)

theorem mapM {f : ι → Build α} {xs : List ι} (h : ∀ x ∈ xs, (f x).Ensures H P) :
    (xs.mapM f).Ensures H fun answers => ∀ a ∈ answers, P a := by
  refine (mapM_forall₂ h).mono fun answers hanswers => ?_
  induction hanswers with
  | nil => exact fun _ ha => absurd ha List.not_mem_nil
  | cons ha _ ih => exact List.forall_mem_cons.mpr ⟨ha, ih fun x hx => h x (List.mem_cons_of_mem _ hx)⟩

/-- The answer of a run has what is ensured for the names that the run generates. -/
theorem run {x : Build α} (hx : x.Ensures H P) {binder : Binder}
    (hlifts : ∀ lifted ∈ x.lifts binder, H lifted.1 lifted.2) {a : α}
    (hrun : (x.run binder).1 = .ok a) : P a := by
  induction x generalizing binder with
  | done b =>
      cases hrun
      exact hx
  | fail fault => cases hrun
  | bindValue value next ih =>
      rw [Build.lifts, List.forall_mem_cons] at hlifts
      exact ih _ (hx _ hlifts.1) hlifts.2 hrun
  | takeIn bag next ih =>
      rw [Build.lifts] at hlifts
      rw [Build.run] at hrun
      split at hrun
      · rename_i after hmerge
        rw [hmerge] at hlifts
        exact ih hx hlifts hrun
      · cases hrun

end Ensures

/-- What a compilation can answer, for some names of the values that it lifts. -/
def Answers : Build α → α → Prop
  | done b, a => b = a
  | fail _, _ => False
  | bindValue _ next, a => ∃ name, (next name).Answers a
  | takeIn _ next, a => next.Answers a

namespace Answers

theorem bind {x : Build α} {f : α → Build β} {b : β} (h : (x >>= f).Answers b) :
    ∃ a, x.Answers a ∧ (f a).Answers b := by
  change (x.bind f).Answers b at h
  induction x with
  | done a => exact ⟨a, rfl, h⟩
  | fail fault => exact h.elim
  | bindValue value next ih =>
      obtain ⟨name, hname⟩ := h
      obtain ⟨a, ha, hb⟩ := ih name hname
      exact ⟨a, ⟨name, ha⟩, hb⟩
  | takeIn bag next ih => exact ih h

theorem pure {a b : α} (h : (Pure.pure a : Build α).Answers b) : a = b := h

theorem ofExcept {x : Except Fault α} {a : α} (h : (Build.ofExcept x).Answers a) : x = .ok a := by
  cases x with
  | error fault => exact h.elim
  | ok b => exact congrArg Except.ok h

theorem mapM {f : ι → Build α} {xs : List ι} {answers : List α}
    (h : (xs.mapM f).Answers answers) : List.Forall₂ (fun x a => (f x).Answers a) xs answers := by
  induction xs generalizing answers with
  | nil =>
      obtain rfl := pure h
      exact .nil
  | cons x rest ih =>
      rw [List.mapM_cons] at h
      obtain ⟨a, ha, h⟩ := h.bind
      obtain ⟨others, hothers, h⟩ := h.bind
      obtain rfl := pure h
      exact .cons ha (ih hothers)

/-- An answer has what the compilation ensures however values are named. -/
theorem ensured {P : α → Prop} {x : Build α} {a : α} (h : x.Answers a)
    (hx : x.Ensures (fun _ _ => True) P) : P a := by
  induction x with
  | done b =>
      obtain rfl : b = a := h
      exact hx
  | fail fault => exact h.elim
  | bindValue value next ih =>
      obtain ⟨name, hname⟩ := h
      exact ih name hname (hx name True.intro)
  | takeIn bag next ih => exact ih h hx

/-- The answer of a run is an answer. -/
theorem of_run {x : Build α} {binder : Binder} {a : α} (h : (x.run binder).1 = .ok a) :
    x.Answers a := by
  induction x generalizing binder with
  | done b => exact Except.ok.inj h
  | fail fault => cases h
  | bindValue value next ih => exact ⟨_, ih _ h⟩
  | takeIn bag next ih =>
      rw [Build.run] at h
      split at h
      · exact ih h
      · cases h

end Answers

end QueryCompiler.Build
