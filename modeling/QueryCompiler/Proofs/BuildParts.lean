import QueryCompiler.Proofs.BinderGrowth
import QueryCompiler.Proofs.BuildEnsures
import QueryCompiler.Proofs.ShownNames

/-!
# Compilations and their parts

A compilation lifts the values that its parts lift, one part after another, and the names generated
for them can be read in its answer as long as it keeps the texts of its parts. Where a text is given
up, the values lifted for it are lost.
-/
namespace QueryCompiler

/-- A value that is lifted, and whether the text that its placeholder was written into is kept. -/
structure LiftedValue where
  value : Value
  kept : Bool
  deriving Repr

/-- The text around the value is given up. -/
def LiftedValue.lose (l : LiftedValue) : LiftedValue := { l with kept := false }

/-- A lift of that value, whose name is among the given ones if its text is kept. -/
def LiftedValue.IsLift (names : Set String) (lift : String × Value) (l : LiftedValue) : Prop :=
  lift.2 = l.value ∧ (l.kept = true → lift.1 ∈ names)

theorem LiftedValue.IsLift.mono {names names' : Set String} (h : names ⊆ names')
    {lift : String × Value} {l : LiftedValue} (hl : l.IsLift names lift) : l.IsLift names' lift :=
  ⟨hl.1, fun hkept => h (hl.2 hkept)⟩

namespace Build

variable {α β ι : Type}

theorem Answers.intro {x : Build α} {f : α → Build β} {a : α} {b : β} (ha : x.Answers a)
    (hb : (f a).Answers b) : (x >>= f).Answers b := by
  change (x.bind f).Answers b
  induction x with
  | done a' =>
      obtain rfl : a' = a := ha
      exact hb
  | fail fault => exact ha.elim
  | bindValue value next ih =>
      obtain ⟨name, hname⟩ := ha
      exact ⟨name, ih name hname⟩
  | takeIn bag next ih => exact ih ha

/-- A run that succeeds lifts the values listed, in their order, and its answer shows the names of
those whose text is kept. -/
def LiftsAs (shown : α → Set String) (ls : List LiftedValue) (x : Build α) : Prop :=
  ∀ ⦃binder after : Binder⦄ ⦃a : α⦄, x.run binder = (.ok a, after) →
    List.Forall₂ (fun lift l => l.IsLift (shown a) lift) (x.lifts binder) ls

namespace LiftsAs

variable {shown : α → Set String} {shown' : β → Set String} {ls ls' : List LiftedValue}

theorem pure (a : α) : (Pure.pure a : Build α).LiftsAs shown [] := fun _ _ _ _ => .nil

theorem fail (fault : Fault) : (Build.fail fault : Build α).LiftsAs shown ls := by
  rintro binder after a ⟨⟩

theorem lift (v : Value) : (Build.lift v).LiftsAs (fun name => {name}) [⟨v, true⟩] := by
  intro binder after name hrun
  obtain rfl := Except.ok.inj (Prod.mk.inj hrun).1
  exact .cons ⟨rfl, fun _ => rfl⟩ .nil

/-- What is kept of the answer keeps the names that the answer shows. -/
theorem bind {x : Build α} {f : α → Build β} (hx : x.LiftsAs shown ls)
    (hf : ∀ a, x.Answers a → (f a).LiftsAs shown' ls')
    (hkeeps : ∀ a, x.Answers a → ∀ b, (f a).Answers b → shown a ⊆ shown' b) :
    (x >>= f).LiftsAs shown' (ls ++ ls') := by
  intro binder after b hrun
  obtain ⟨a, between, hrunx, hrunf⟩ := run_bind_eq_ok.mp hrun
  have ha : x.Answers a := .of_run (by rw [hrunx])
  have hb : (f a).Answers b := .of_run (by rw [hrunf])
  rw [lifts_bind, hrunx]
  exact List.rel_append ((hx hrunx).imp fun _ _ hl => hl.mono (hkeeps a ha b hb)) (hf a ha hrunf)

/-- What is made of the answer keeps the names that it shows. -/
theorem map {x : Build α} {f : α → β} (hx : x.LiftsAs shown ls)
    (h : ∀ a, x.Answers a → shown a ⊆ shown' (f a)) :
    (x >>= fun a => Pure.pure (f a)).LiftsAs shown' ls := by
  rw [← List.append_nil ls]
  refine bind hx (fun _ _ => pure _) fun a ha b hb => ?_
  obtain rfl := hb.pure
  exact h a ha

/-- A step that lifts nothing comes first. -/
theorem after {x : Build α} {f : α → Build β} (hx : x.LiftsAs (fun _ => ∅) [])
    (hf : ∀ a, x.Answers a → (f a).LiftsAs shown' ls) : (x >>= f).LiftsAs shown' ls :=
  bind hx hf fun _ _ _ _ => Set.empty_subset _

theorem ofExcept (x : Except Fault α) : (Build.ofExcept x).LiftsAs shown [] := by
  cases x with
  | error fault => exact fail fault
  | ok a => exact pure a

theorem merge (bag : Bag) : (Build.merge bag).LiftsAs (fun _ => ∅) [] := by
  intro binder after u hrun
  rw [Build.merge, Build.lifts]
  split <;> exact .nil

/-- Whatever the answer is, its text is given up. -/
theorem lose {x : Build α} (hx : x.LiftsAs (fun _ => Set.univ) ls) :
    x.LiftsAs shown (ls.map LiftedValue.lose) := by
  intro binder after a hrun
  rw [List.forall₂_map_right_iff]
  exact (hx hrun).imp fun _ _ hl => ⟨hl.1, fun hkept => nomatch hkept⟩

theorem mapM {f : ι → Build α} {g : ι → List LiftedValue} {xs : List ι}
    (h : ∀ x ∈ xs, (f x).LiftsAs shown (g x)) :
    (xs.mapM f).LiftsAs (fun answers => {name | ∃ a ∈ answers, name ∈ shown a}) (xs.flatMap g) := by
  induction xs with
  | nil => exact pure []
  | cons x rest ih =>
      rw [List.mapM_cons, List.flatMap_cons]
      refine bind (h x List.mem_cons_self) (fun a _ => ?_) fun a _ answers hanswers name hname => ?_
      · rw [← List.append_nil (rest.flatMap g)]
        refine bind (ih fun x hx => h x (List.mem_cons_of_mem _ hx)) (fun others _ => pure _) ?_
        rintro others - _ rfl name ⟨a, ha, hname⟩
        exact ⟨a, List.mem_cons_of_mem _ ha, hname⟩
      · obtain ⟨others, -, hpure⟩ := hanswers.bind
        obtain rfl := hpure.pure
        exact ⟨a, List.mem_cons_self, hname⟩

end LiftsAs

/-! Compilations that are put together of parts. -/

/-- A compilation runs its parts one after another and does nothing else but fail. Its answer shows
what is held already and whatever the texts of the parts show. -/
inductive Assembles (shown : α → Set String) : Set String → List (Build Sql) → Build α → Prop
  | done {held : Set String} {a : α} (h : held ⊆ shown a) : Assembles shown held [] (pure a)
  | fail {held : Set String} {parts : List (Build Sql)} {fault : Fault} :
      Assembles shown held parts (.fail fault)
  | part {held : Set String} {parts : List (Build Sql)} {x : Build Sql} {next : Sql → Build α}
      (h : ∀ text, x.Answers text → Assembles shown (held ∪ text.shown) parts (next text)) :
      Assembles shown held (x :: parts) (x >>= next)

namespace Assembles

variable {shown : α → Set String} {shown' : β → Set String} {held held' : Set String}
  {parts parts' : List (Build Sql)} {x : Build α}

theorem mono (h : Assembles shown held parts x) (hsub : held' ⊆ held) :
    Assembles shown held' parts x := by
  induction h generalizing held' with
  | done h => exact .done (hsub.trans h)
  | fail => exact .fail
  | part _ ih => exact .part fun text htext => ih text htext (Set.union_subset_union_left _ hsub)

theorem single (x : Build Sql) : Assembles Sql.shown ∅ [x] x := by
  have h : Assembles Sql.shown ∅ [x] (x >>= pure) := .part fun text _ => .done (by simp)
  rwa [bind_pure] at h

/-- The outcome of a step that reads no text. -/
theorem known {y : Except Fault β} {next : β → Build α}
    (h : ∀ b, y = .ok b → Assembles shown held parts (next b)) :
    Assembles shown held parts (Build.ofExcept y >>= next) := by
  cases y with
  | error fault => exact .fail
  | ok b => exact h b rfl

theorem bind_held {next : α → Build β} (h : Assembles shown held' parts x)
    (hnext : ∀ a, x.Answers a → Assembles shown' (held ∪ shown a) parts' (next a)) :
    Assembles shown' (held ∪ held') (parts ++ parts') (x >>= next) := by
  induction h with
  | @done held' a h =>
      rw [pure_bind]
      exact (hnext a rfl).mono (Set.union_subset_union_right _ h)
  | fail => exact .fail
  | part _ ih =>
      rw [bind_assoc]
      refine .part fun text htext => ?_
      rw [Set.union_assoc]
      exact ih text htext fun a ha => hnext a (htext.intro ha)

/-- What comes behind keeps what the answer shows. -/
theorem bind {next : α → Build β} (h : Assembles shown ∅ parts x)
    (hnext : ∀ a, x.Answers a → Assembles shown' (held ∪ shown a) parts' (next a)) :
    Assembles shown' held (parts ++ parts') (x >>= next) := by
  have hbind := h.bind_held hnext
  rwa [Set.union_empty] at hbind

theorem mapM {f : ι → Build α} {partsOf : ι → List (Build Sql)} {xs : List ι}
    (h : ∀ x ∈ xs, Assembles shown ∅ (partsOf x) (f x)) :
    Assembles (fun answers => {name | ∃ a ∈ answers, name ∈ shown a}) ∅ (xs.flatMap partsOf)
      (xs.mapM f) := by
  induction xs with
  | nil => exact .done (Set.empty_subset _)
  | cons x rest ih =>
      rw [List.mapM_cons, List.flatMap_cons]
      refine (h x List.mem_cons_self).bind fun a _ => ?_
      rw [← List.append_nil (rest.flatMap partsOf)]
      refine (ih fun x hx => h x (List.mem_cons_of_mem _ hx)).bind fun others _ => .done ?_
      rintro name ((hnone | hname) | ⟨a, ha, hname⟩)
      · exact hnone.elim
      · exact ⟨_, List.mem_cons_self, hname⟩
      · exact ⟨a, List.mem_cons_of_mem _ ha, hname⟩

theorem held_subset (h : Assembles shown held parts x) {a : α} (ha : x.Answers a) :
    held ⊆ shown a := by
  induction h with
  | done h =>
      obtain rfl := ha.pure
      exact h
  | fail => exact ha.elim
  | part _ ih =>
      obtain ⟨text, htext, ha⟩ := ha.bind
      exact Set.subset_union_left.trans (ih text htext ha)

/-- Together the parts lift what each of them lifts. -/
theorem liftsAs (h : Assembles shown held parts x) (lists : List (List LiftedValue))
    (hparts : List.Forall₂ (fun part ls => part.LiftsAs Sql.shown ls) parts lists) :
    x.LiftsAs shown lists.flatten := by
  induction h generalizing lists with
  | done h =>
      cases hparts
      exact .pure _
  | fail => exact .fail _
  | part h ih =>
      cases hparts with
      | cons hpart hrest =>
          refine .bind hpart (fun text htext => ih text htext _ hrest) fun text htext a ha => ?_
          exact Set.subset_union_right.trans ((h text htext).held_subset ha)

/-- A name that a part shows in every run is shown in every run of the whole. -/
theorem keeps (h : Assembles shown held parts x) {part : Build Sql} (hpart : part ∈ parts)
    {name : String} (hname : ∀ text, part.Answers text → name ∈ text.shown) {a : α}
    (ha : x.Answers a) : name ∈ shown a := by
  induction h with
  | done => exact absurd hpart List.not_mem_nil
  | fail => exact ha.elim
  | part h ih =>
      obtain ⟨text, htext, hnext⟩ := ha.bind
      obtain rfl | hrest := List.mem_cons.mp hpart
      · exact (h text htext).held_subset hnext (.inr (hname text htext))
      · exact ih text htext hrest hnext

end Assembles

end Build

end QueryCompiler
