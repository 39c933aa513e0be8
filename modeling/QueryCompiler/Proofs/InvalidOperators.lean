import QueryCompiler.Proofs.DeleteGuard
import QueryCompiler.Proofs.FoldedConstant
import QueryCompiler.Proofs.ParameterConflicts
import QueryCompiler.Proofs.Parenthesization
import QueryCompiler.Proofs.Renaming

/-!
# Invalid operators are reported

An operator that is not in the table, or has a number of operands that it does not take, makes the
expression around it fail, provided that it is compiled. Skipped are the subject of a test for
membership in an empty list and what stands behind an operand that decides a conjunction or
disjunction, which compiles exactly if its operands up to the deciding one do.
-/
namespace QueryCompiler

variable {ν μ : Type}

namespace Expr

/-- An operator that is not in the table or has the wrong number of operands. -/
def IsInvalid : Expr ν → Prop
  | op name operands =>
    ∀ found, Operator.find? name = some found → found.arity.accepts operands.length = false
  | _ => False

/-- A part of an expression outside nested queries that is compiled with it. -/
inductive Reaches : Expr ν → Expr ν → Prop
  | here {e : Expr ν} : Reaches e e
  | operand {name : String} {operands : List (Expr ν)} {e part : Expr ν}
      (he : e ∈ compiledOperands name operands) (h : Reaches e part) :
      Reaches (.op name operands) part
  | argument {name : String} {args : List (Expr ν)} {e part : Expr ν} (he : e ∈ args)
      (h : Reaches e part) : Reaches (.call name args) part

theorem Reaches.map (g : ν → μ) {e part : Expr ν} (h : e.Reaches part) :
    (e.map g).Reaches (part.map g) := by
  induction h with
  | here => exact .here
  | operand he _ ih =>
      rw [Expr.map, maps_eq_map]
      refine .operand ?_ ih
      rw [compiledOperands_map]
      exact List.mem_map_of_mem he
  | argument he _ ih =>
      rw [Expr.map, maps_eq_map]
      exact .argument (List.mem_map_of_mem he) ih

theorem IsInvalid.map (g : ν → μ) {e : Expr ν} (h : e.IsInvalid) : (e.map g).IsInvalid := by
  cases e with
  | op name operands =>
      rw [Expr.map, maps_eq_map]
      intro found hfound
      rw [List.length_map]
      exact h found hfound
  | literal | field | param | call | subquery | shorthand => exact h.elim

end Expr

/-! An invalid operator that is compiled. -/

/-- There is no answer, however values are named. -/
def Build.NeverAnswers {α : Type} (x : Build α) : Prop := ∀ a, ¬ x.Answers a

def Fragment.NeverAnswers (f : Fragment) : Prop := ∀ context, (f.sql context).NeverAnswers

namespace Build.NeverAnswers

variable {α β ι : Type}

theorem fail (fault : Fault) : (Build.fail fault : Build α).NeverAnswers := fun _ h => h

theorem bind {x : Build α} {f : α → Build β} (h : ∀ a, x.Answers a → (f a).NeverAnswers) :
    (x >>= f).NeverAnswers := by
  intro b hb
  obtain ⟨a, ha, hb⟩ := hb.bind
  exact h a ha b hb

/-- Whatever comes before does not help. -/
theorem after {x : Build α} {f : α → Build β} (h : ∀ a, (f a).NeverAnswers) :
    (x >>= f).NeverAnswers :=
  bind fun a _ => h a

theorem first {x : Build α} {f : α → Build β} (h : x.NeverAnswers) : (x >>= f).NeverAnswers :=
  bind fun a ha => (h a ha).elim

theorem mapM {f : ι → Build α} {xs : List ι} {x : ι} (hx : x ∈ xs) (h : (f x).NeverAnswers) :
    (xs.mapM f).NeverAnswers := by
  induction xs with
  | nil => exact absurd hx List.not_mem_nil
  | cons y rest ih =>
      rw [List.mapM_cons]
      obtain rfl | hrest := List.mem_cons.mp hx
      · exact first h
      · exact after fun _ => first (ih hrest)

end Build.NeverAnswers

section Operators

open Build (NeverAnswers)

variable {d : Dialect} {op : Operator} {fs : List Fragment} {f : Fragment}

theorem Fragment.alone_never (hf : f ∈ fs) (h : f.NeverAnswers) : (alone fs).NeverAnswers :=
  .mapM hf (h _)

theorem membersSql_never (hf : f ∈ fs) (h : f.NeverAnswers) : (membersSql fs).NeverAnswers := by
  unfold membersSql
  split
  · obtain rfl := List.mem_singleton.mp hf
    exact .first (h _)
  · exact .first (Fragment.alone_never hf h)

/-- All operands are compiled but for those that are skipped. -/
theorem operatorSql_never (hf : f ∈ fs) (h : f.NeverAnswers)
    (hvariadic : op.arity = .variadic → (keptOperands op fs).NeverAnswers)
    (hlist : op.arity = .inList → fs.length ≠ 1) (shown : String) (context : Nat) :
    (operatorSql d op shown fs context).NeverAnswers := by
  unfold operatorSql
  split
  · exact absurd hf List.not_mem_nil
  · obtain rfl := List.mem_singleton.mp hf
    exact .after fun _ => .first (h _)
  · obtain rfl := List.mem_singleton.mp hf
    exact .after fun _ => .first (h _)
  · obtain rfl | hf := List.mem_cons.mp hf
    · exact .after fun _ => .first (h _)
    · obtain rfl := List.mem_singleton.mp hf
      exact .after fun _ => .after fun _ => .first (h _)
  · obtain rfl | hf := List.mem_cons.mp hf
    · exact .after fun _ => .first (h _)
    · obtain rfl | hf := List.mem_cons.mp hf
      · exact .after fun _ => .after fun _ => .first (h _)
      · obtain rfl := List.mem_singleton.mp hf
        exact .after fun _ => .after fun _ => .after fun _ => .first (h _)
  · exact .after fun _ => .first (hvariadic ‹_›)
  · rename_i harity
    refine .after fun _ => ?_
    split
    · rename_i hempty
      rw [List.isEmpty_iff] at hempty
      subst hempty
      exact absurd rfl (hlist harity)
    · obtain rfl | hf := List.mem_cons.mp hf
      · exact .first (h _)
      · exact .after fun _ => .first (membersSql_never hf h)
  · exact .first (.mapM hf (h _))
  · exact .fail _

/-- An operator is not written with a number of operands that it does not take. -/
theorem operatorSql_of_rejected (h : op.arity.accepts fs.length = false) (shown : String)
    (context : Nat) : operatorSql d op shown fs context =
      .fail (.arity op.name op.arity.expected fs.length shown) := by
  unfold operatorSql
  split <;> simp_all [Arity.accepts]

end Operators

namespace Expr

variable {b : Builtin} {scope : Scope}

/-- What is in front of the failing operand does not decide the whole. -/
theorem keptOperands_never {name : String} {op : Operator} (hfind : Operator.find? name = some op)
    {operands : List (Expr (Build Sql))} {e : Expr (Build Sql)}
    (he : e ∈ upTo (decides name) operands) (h : (e.fragment b.dialect scope).NeverAnswers) :
    (keptOperands op (operands.map (fragment b.dialect scope))).NeverAnswers := by
  induction operands with
  | nil => exact absurd he List.not_mem_nil
  | cons first rest ih =>
      rw [List.map_cons, keptOperands]
      rw [upTo] at he
      obtain rfl | hrest :
          e = first ∨ first.decides name = false ∧ e ∈ upTo (decides name) rest := by
        split at he
        · exact .inl (List.mem_singleton.mp he)
        · rename_i hdecides
          exact (List.mem_cons.mp he).imp_right fun hmem => ⟨Bool.eq_false_iff.mpr hdecides, hmem⟩
      · exact .first (h _)
      · refine .bind fun sql hsql => ?_
        have hconstant := hsql.ensured ((first.fragment_foldsAs b scope).constant op.rank)
        rw [if_neg fun habsorbing => ?_]
        · exact .first (ih hrest.2)
        · rw [absorbing_iff_decides hfind hconstant, hrest.1] at habsorbing
          cases habsorbing

/-- An operator fails with an operand that is compiled. -/
theorem op_never {name : String} {operands : List (Expr (Build Sql))} {e : Expr (Build Sql)}
    (he : e ∈ compiledOperands name operands) (h : (e.fragment b.dialect scope).NeverAnswers) :
    ((op name operands).fragment b.dialect scope).NeverAnswers := by
  intro context
  change (applicationSql b.dialect name _ (fragments b.dialect scope operands)
    context).NeverAnswers
  rw [fragments_eq_map]
  unfold applicationSql
  split
  · exact .fail _
  · rename_i op hfind
    rw [compiledOperands] at he
    split at he
    · exact absurd he List.not_mem_nil
    · rename_i hmembership
      refine operatorSql_never (List.mem_map_of_mem (mem_of_mem_upTo he)) h
        (fun _ => keptOperands_never hfind he h) (fun harity hlength => hmembership ?_) _ context
      simpa [isEmptyMembership, hfind, harity] using hlength

theorem call_never {name : String} {args : List (Expr (Build Sql))} {e : Expr (Build Sql)}
    (he : e ∈ args) (h : (e.fragment b.dialect scope).NeverAnswers) :
    ((call name args).fragment b.dialect scope).NeverAnswers := by
  intro context
  change (callSql name (fragments b.dialect scope args)).NeverAnswers
  rw [fragments_eq_map, callSql.eq_def]
  split
  · exact .fail _
  · exact .first (Fragment.alone_never (List.mem_map_of_mem he) h)

/-- The operator itself fails. -/
theorem IsInvalid.never {e : Expr (Build Sql)} (h : e.IsInvalid) :
    (e.fragment b.dialect scope).NeverAnswers := by
  cases e with
  | literal | field | param | call | subquery | shorthand => exact h.elim
  | op name operands =>
      intro context
      change (applicationSql b.dialect name _ (fragments b.dialect scope operands)
        context).NeverAnswers
      unfold applicationSql
      split
      · exact .fail _
      · rename_i op hfind
        have hcount := h op hfind
        rw [← (operands.length_map (fragment b.dialect scope)), ← fragments_eq_map] at hcount
        rw [operatorSql_of_rejected hcount]
        exact .fail _

theorem Reaches.never {e part : Expr (Build Sql)} (h : e.Reaches part)
    (hpart : (part.fragment b.dialect scope).NeverAnswers) :
    (e.fragment b.dialect scope).NeverAnswers := by
  induction h with
  | here => exact hpart
  | operand he _ ih => exact op_never he (ih hpart)
  | argument he _ ih => exact call_never he (ih hpart)

end Expr

/-! Conjunctions and disjunctions. -/

namespace Binder

/-- All names of some bags are taken, whatever values they stand for. -/
def HoldsNames (binder : Binder) (bags : List Bag) : Prop :=
  ∀ bag ∈ bags, ∀ entry ∈ bag.entries, ∃ held, binder.bag.get? entry.1 = some held

/-- All names of some bags are taken in two binders, where they stand for the same values. -/
def HoldAlike (bags : List Bag) (binder binder' : Binder) : Prop :=
  ∀ bag ∈ bags, ∀ entry ∈ bag.entries,
    ∃ held, binder.bag.get? entry.1 = some held ∧ binder'.bag.get? entry.1 = some held

variable {bags : List Bag} {binder binder' after after' : Binder}

theorem HoldAlike.symm (h : HoldAlike bags binder binder') : HoldAlike bags binder' binder :=
  fun bag hbag entry hentry => (h bag hbag entry hentry).imp fun _ => And.symm

theorem HoldAlike.mono (h : HoldAlike bags binder binder')
    (hwithin : binder.bag.Within after.bag) (hwithin' : binder'.bag.Within after'.bag) :
    HoldAlike bags after after' := by
  intro bag hbag entry hentry
  obtain ⟨held, hheld, hheld'⟩ := h bag hbag entry hentry
  exact ⟨held, hwithin _ _ hheld, hwithin' _ _ hheld'⟩

/-- A run leaves the names as they are. -/
theorem HoldsNames.run {α : Type} {x : Build α} {answer : Except Fault α}
    (h : binder.HoldsNames bags) (hrun : x.run binder = (answer, after)) :
    HoldAlike bags binder after := by
  have hwithin := x.run_within binder
  rw [hrun] at hwithin
  intro bag hbag entry hentry
  obtain ⟨held, hheld⟩ := h bag hbag entry hentry
  exact ⟨held, hheld, hwithin _ _ hheld⟩

theorem HoldAlike.holdsNames (h : HoldAlike bags binder binder') : binder'.HoldsNames bags :=
  fun bag hbag entry hentry => (h bag hbag entry hentry).imp fun _ => And.right

/-- Parameters whose names are taken bring nothing; whether they conflict depends on what is held
under them. -/
theorem mergeEntries_alike {entries : List (String × Value)}
    (h : ∀ entry ∈ entries, ∃ held, binder.bag.get? entry.1 = some held ∧
      binder'.bag.get? entry.1 = some held) :
    ∃ answer, binder.mergeEntries entries = (answer, binder) ∧
      binder'.mergeEntries entries = (answer, binder') := by
  induction entries with
  | nil => exact ⟨.ok (), rfl, rfl⟩
  | cons entry rest ih =>
      obtain ⟨⟨held, hheld, hheld'⟩, hrest⟩ := List.forall_mem_cons.mp h
      simp only [mergeEntries, mergeEntry, hheld, hheld']
      by_cases hequal : (held == entry.2) = true
      · simpa only [if_pos hequal] using ih hrest
      · simp only [if_neg hequal]
        exact ⟨_, rfl, rfl⟩

end Binder

/-- A reservation takes the names of all bags. -/
theorem Query.holdsNames_of_reserve {bags : List Bag} {binder reserved : Binder}
    (h : (reserve bags).run binder = (.ok (), reserved)) : reserved.HoldsNames bags := by
  intro bag hbag entry hentry
  obtain ⟨held, hheld, -⟩ := reserve_keeps h hbag hentry
  exact ⟨held, hheld⟩

namespace Build

variable {α β : Type} {x : Build α} {f : α → Build β}

/-- A run has an answer. -/
def Succeeds (x : Build α) (binder : Binder) : Prop := ∃ a, (x.run binder).1 = .ok a

theorem succeeds_iff {binder : Binder} :
    x.Succeeds binder ↔ ∃ a after, x.run binder = (.ok a, after) :=
  ⟨fun ⟨a, ha⟩ => ⟨a, (x.run binder).2, Prod.ext ha rfl⟩, fun ⟨a, _, h⟩ => ⟨a, by rw [h]⟩⟩

theorem succeeds_bind {binder : Binder} : (x >>= f).Succeeds binder ↔
    ∃ a after, x.run binder = (.ok a, after) ∧ (f a).Succeeds after := by
  simp only [succeeds_iff, run_bind_eq_ok]
  constructor
  · rintro ⟨answer, final, a, after, hx, hf⟩
    exact ⟨a, after, hx, answer, final, hf⟩
  · rintro ⟨a, after, hx, answer, final, hf⟩
    exact ⟨answer, final, a, after, hx, hf⟩

/-- What cannot fail does not count. -/
theorem succeeds_bind_of {binder : Binder} (h : ∀ a after, (f a).Succeeds after) :
    (x >>= f).Succeeds binder ↔ x.Succeeds binder := by
  rw [succeeds_bind, succeeds_iff]
  exact exists_congr fun a => exists_congr fun after => and_iff_left (h a after)

/-- Whether a compilation succeeds depends neither on the names that are generated nor on the rest
of the binder, as long as that holds the names of all bags that are taken in. -/
theorem Paired.succeeds_iff {named : String → String → Prop} {R : α → α → Prop} {bags : List Bag}
    (hnamed : ∀ m n, named (Binder.generatedName m) (Binder.generatedName n)) {y : Build α}
    (h : Paired (fun _ => False) (· ∈ bags) named R x y) {binder binder' : Binder}
    (halike : Binder.HoldAlike bags binder binder') : x.Succeeds binder ↔ y.Succeeds binder' := by
  induction h generalizing binder binder' with
  | done h => exact iff_of_true ⟨_, rfl⟩ ⟨_, rfl⟩
  | fail fault => exact iff_of_false nofun nofun
  | refused x h => exact h.elim
  | bindValue v _ ih =>
      exact ih _ _ (hnamed _ _) (halike.mono (binder.lift_within v) (binder'.lift_within v))
  | takeIn hbag _ ih =>
      obtain ⟨answer, hmerge, hmerge'⟩ := Binder.mergeEntries_alike (halike _ hbag)
      rw [Succeeds, Succeeds, Build.run, Build.run, Binder.merge, Binder.merge, hmerge, hmerge']
      cases answer with
      | error fault =>
          constructor
          · rintro ⟨a, h⟩
            cases h
          · rintro ⟨a, h⟩
            cases h
      | ok _ => exact ih halike

end Build

namespace Expr

/-- An expression compiles in a context, from a binder on. -/
def CompilesIn (b : Builtin) (scope : Scope) (context : Nat) (binder : Binder) (e : Expr Query) :
    Prop :=
  ((Query.foldExpr (Query.nestedStep b.dialect) e).textIn b.dialect scope context).Succeeds binder

/-- The bags of all queries that are nested in an expression. -/
def nestedBags (e : Expr Query) : List Bag := e.subqueries.flatMap Query.bags

variable {b : Builtin} {scope : Scope}

/-- The text of an expression whose nested queries are compilation steps. -/
def steps (b : Builtin) (scope : Scope) (context : Nat) (e : Expr Query) : Build Sql :=
  ((e.map (Query.fold (Query.nestedStep b.dialect))).fragment b.dialect scope).sql context

theorem compilesIn_iff {context : Nat} {binder : Binder} {e : Expr Query} :
    e.CompilesIn b scope context binder ↔ (e.steps b scope context).Succeeds binder := by
  rw [CompilesIn, Query.foldExpr_eq_map, textIn, map_eq_pure_bind]
  exact Build.succeeds_bind_of fun _ _ => ⟨_, rfl⟩

/-- One binder is as good as another. -/
theorem steps_succeeds {bags : List Bag} {context : Nat} {binder binder' : Binder} {e : Expr Query}
    (hbags : ∀ bag ∈ e.nestedBags, bag ∈ bags) (halike : Binder.HoldAlike bags binder binder') :
    (e.steps b scope context).Succeeds binder ↔ (e.steps b scope context).Succeeds binder' := by
  let named (name name' : String) : Prop :=
    Text.isIdentifier name = true ∧ Text.isIdentifier name' = true
  let W := (b.renaming (· ∈ bags) (fun _ _ (h : named _ _) => h)).toWording
  have hsame : W.toPhrasing.IsSame := ⟨rfl, fun _ => trivial⟩
  have hrelated := fragment_related W.toPhrasing scope (e.uses_all.fits hsame.allowed)
    (fun q hq => Query.nestedStep_related W q.uses_all fun bag hbag =>
      Build.Paired.merge (hbags bag (List.mem_flatMap.mpr ⟨q, hq, hbag⟩)))
  rw [hsame.revision, revise_unchanged] at hrelated
  exact Build.Paired.succeeds_iff (fun m n => ⟨Binder.isIdentifier_generatedName m,
    Binder.isIdentifier_generatedName n⟩) (hrelated.sql context) halike

/-- Operands are compiled up to the one that decides the whole, each of them on its own. -/
theorem keptOperands_succeeds {name : String} {op : Operator}
    (hfind : Operator.find? name = some op) {bags : List Bag} {operands : List (Expr Query)}
    (hbags : ∀ e ∈ operands, ∀ bag ∈ e.nestedBags, bag ∈ bags) {binder : Binder}
    (hnames : binder.HoldsNames bags) :
    (keptOperands op (operands.map fun e =>
        (e.map (Query.fold (Query.nestedStep b.dialect))).fragment b.dialect scope)).Succeeds
          binder ↔
      ∀ e ∈ upTo (decides name) operands, (e.steps b scope op.rank).Succeeds binder := by
  induction operands generalizing binder with
  | nil => exact iff_of_true ⟨_, rfl⟩ fun _ h => absurd h List.not_mem_nil
  | cons first rest ih =>
      obtain ⟨hfirst, hrest⟩ := List.forall_mem_cons.mp hbags
      have hconstant : ∀ {sql after}, (first.steps b scope op.rank).run binder = (.ok sql, after) →
          (absorbing? op.name = some sql.render ↔ first.decides name = true) := by
        intro sql after hrun
        have hanswer := Build.Answers.of_run (congrArg Prod.fst hrun)
        have hfolds := hanswer.ensured ((fragment_foldsAs b scope _).constant op.rank)
        rw [folding_map] at hfolds
        exact absorbing_iff_decides hfind hfolds
      rw [List.map_cons, keptOperands, upTo, Build.succeeds_bind]
      by_cases hdecides : first.decides name = true
      · rw [if_pos hdecides, List.forall_mem_singleton, Build.succeeds_iff]
        refine exists_congr fun sql => exists_congr fun after => and_iff_left_of_imp fun hrun => ?_
        rw [if_pos ((hconstant hrun).mpr hdecides)]
        exact ⟨_, rfl⟩
      · rw [if_neg hdecides, List.forall_mem_cons]
        constructor
        · rintro ⟨sql, after, hrun, hkept⟩
          have hafter := hnames.run hrun
          rw [if_neg fun h => hdecides ((hconstant hrun).mp h),
            Build.succeeds_bind_of fun _ _ => ⟨_, rfl⟩, ih hrest hafter.holdsNames] at hkept
          refine ⟨⟨sql, congrArg Prod.fst hrun⟩, fun e he => ?_⟩
          exact (steps_succeeds (hrest e (mem_of_mem_upTo he)) hafter.symm).mp (hkept e he)
        · rintro ⟨hsucceeds, hothers⟩
          obtain ⟨sql, after, hrun⟩ := Build.succeeds_iff.mp hsucceeds
          have hafter := hnames.run hrun
          refine ⟨sql, after, hrun, ?_⟩
          rw [if_neg fun h => hdecides ((hconstant hrun).mp h),
            Build.succeeds_bind_of fun _ _ => ⟨_, rfl⟩, ih hrest hafter.holdsNames]
          exact fun e he =>
            (steps_succeeds (hrest e (mem_of_mem_upTo he)) hafter).mp (hothers e he)

theorem connective_of_name : ∀ op ∈ Operator.all, op.name ∈ ["AND", "OR"] →
    op.arity = .variadic ∧ ∀ b : Builtin, b.dialect.operatorName op.name = some op.name := by
  intro op hop hname
  have hspelled : ∀ b : Builtin, ∀ name ∈ ["AND", "OR"],
      b.dialect.operatorName name = some name := by
    intro b
    cases b <;> decide +kernel
  refine ⟨?_, fun b => hspelled b _ hname⟩
  revert op
  decide

/-- A conjunction or disjunction compiles if its operands do, up to the one that decides it. -/
theorem connective_compilesIn {name : String} {op : Operator}
    (hfind : Operator.find? name = some op) (hname : op.name ∈ ["AND", "OR"])
    {operands : List (Expr Query)} {binder : Binder}
    (hnames : binder.HoldsNames (operands.flatMap nestedBags)) (context : Nat) :
    (Expr.op name operands).CompilesIn b scope context binder ↔
      ∀ e ∈ compiledOperands name operands, e.CompilesIn b scope op.rank binder := by
  obtain ⟨harity, hspelled⟩ := connective_of_name op (Operator.find?_eq_some hfind).1 hname
  have hbags : ∀ e ∈ operands, ∀ bag ∈ e.nestedBags, bag ∈ operands.flatMap nestedBags :=
    fun e he bag hbag => List.mem_flatMap.mpr ⟨e, he, hbag⟩
  have hcompiled : compiledOperands name operands = upTo (decides name) operands := by
    simp [compiledOperands, isEmptyMembership, hfind, harity]
  have hsteps : (Expr.op name operands).steps b scope context = operatorSql b.dialect op
      ((Expr.op name operands).map (Query.fold (Query.nestedStep b.dialect))).display
      (operands.map fun e =>
        (e.map (Query.fold (Query.nestedStep b.dialect))).fragment b.dialect scope) context := by
    rw [steps, map, maps_eq_map, fragment, application, fragments_eq_map, List.map_map]
    change applicationSql b.dialect name _ _ context = _
    rw [applicationSql.eq_def, hfind]
    rfl
  simp only [compilesIn_iff, hcompiled, hsteps, operatorSql, harity, variadicSql,
    spelling_eq (hspelled b), pure_bind]
  rw [Build.succeeds_bind_of fun kept _ => ?_, keptOperands_succeeds hfind hbags hnames]
  cases kept <;> exact ⟨_, rfl⟩

/-- The subject of a test for membership in an empty list is not compiled. -/
theorem emptyMembership_compilesIn {name : String} {subject : Expr Query} {binder : Binder}
    (context : Nat) (h : isEmptyMembership name [subject] = true) :
    (Expr.op name [subject]).CompilesIn b scope context binder := by
  simp only [isEmptyMembership, List.length_singleton, BEq.rfl, Bool.true_and,
    Option.any_eq_true, beq_iff_eq] at h
  obtain ⟨op, hfind, harity⟩ := h
  have hspelled : ∀ b : Builtin, ∀ op ∈ Operator.all, op.arity = .inList →
      b.dialect.operatorName op.name = some op.name := by
    intro b
    cases b <;> decide +kernel
  have hspelled := hspelled b op (Operator.find?_eq_some hfind).1 harity
  rw [compilesIn_iff, steps, map, maps_eq_map, fragment]
  change (applicationSql b.dialect name _ _ context).Succeeds binder
  rw [applicationSql.eq_def, hfind]
  simp only [operatorSql, harity, List.map_cons, List.map_nil, fragments, inListSql,
    spelling_eq hspelled, pure_bind, List.isEmpty_nil, if_true]
  exact ⟨_, rfl⟩

end Expr

/-- An invalid operator that is compiled is reported. A conjunction or disjunction compiles exactly
if its operands do, up to the first that decides it, so their order does not matter if there is
none; the names of the parameters of nested queries are taken before, whatever their values are. A
test for membership in an empty list compiles whatever its subject is. -/
theorem Builtin.invalid_operators_reported (b : Builtin) (scope : Scope) (context : Nat)
    (binder : Binder) :
    (∀ e part : Expr Query, e.Reaches part → part.IsInvalid →
        ¬ e.CompilesIn b scope context binder) ∧
      (∀ name op, Operator.find? name = some op → op.name ∈ ["AND", "OR"] →
        ∀ operands : List (Expr Query), binder.HoldsNames (operands.flatMap Expr.nestedBags) →
          ((Expr.op name operands).CompilesIn b scope context binder ↔
              ∀ e ∈ Expr.compiledOperands name operands, e.CompilesIn b scope op.rank binder) ∧
            ∀ operands' : List (Expr Query), operands.Perm operands' →
              (∀ e ∈ operands, e.decides name = false) →
              ((Expr.op name operands).CompilesIn b scope context binder ↔
                (Expr.op name operands').CompilesIn b scope context binder)) ∧
      ∀ name (subject : Expr Query), Expr.isEmptyMembership name [subject] = true →
        (Expr.op name [subject]).CompilesIn b scope context binder := by
  refine ⟨fun e part hreaches hinvalid hcompiles => ?_, ?_,
    fun name subject => Expr.emptyMembership_compilesIn context⟩
  · obtain ⟨sql, hrun⟩ := Expr.compilesIn_iff.mp hcompiles
    exact (hreaches.map _).never (hinvalid.map _).never context sql (Build.Answers.of_run hrun)
  · intro name op hfind hname operands hnames
    have hall : ∀ operands : List (Expr Query), (∀ e ∈ operands, e.decides name = false) →
        Expr.compiledOperands name operands = operands := by
      intro operands hnone
      obtain ⟨harity, -⟩ := Expr.connective_of_name op (Operator.find?_eq_some hfind).1 hname
      simp [Expr.compiledOperands, Expr.isEmptyMembership, hfind, harity, upTo_of_none hnone]
    refine ⟨Expr.connective_compilesIn hfind hname hnames context, ?_⟩
    intro operands' hperm hnone
    have hnames' : binder.HoldsNames (operands'.flatMap Expr.nestedBags) := by
      intro bag hbag
      exact hnames bag ((hperm.flatMap_right _).mem_iff.mpr hbag)
    rw [Expr.connective_compilesIn hfind hname hnames, hall _ hnone,
      Expr.connective_compilesIn hfind hname hnames',
      hall _ fun e he => hnone e (hperm.mem_iff.mpr he)]
    exact forall_congr' fun e => by rw [hperm.mem_iff]

/-- A query whose parameter differs from itself. -/
def boundToNaN : Query :=
  Query.mk Dialect.postgres (Bag.ofList [("x", .float Decimal.notANumber)])
    { Statement.empty with tables := [.named "t"] }

/-- An operator that is not in the table, under a negation; and two conditions in either order, with
a parameter that is in conflict with itself. -/
theorem Builtin.invalid_operators_reported_negation :
    let reserved : Binder := ⟨boundToNaN.bound, 0⟩
    let nested : Expr Query := .op "EXISTS" [.subquery boundToNaN]
    (Expr.neg (.op "~~~" [.plainField "x"]) : Expr Query).Reaches (.op "~~~" [.plainField "x"]) ∧
      (Expr.op "~~~" [.plainField "x"] : Expr Query).IsInvalid ∧
      ¬ (Expr.neg (.op "~~~" [.plainField "x"])).CompilesIn .mysql ⟨none, false⟩ Operator.loosest
        reserved ∧
      (Query.reserve boundToNaN.bags).run (Binder.ofBag Bag.empty) = (.ok (), reserved) ∧
      ((Expr.conj [nested, .plainField "b"]).CompilesIn .mysql ⟨none, false⟩ Operator.loosest
          reserved ↔
        (Expr.conj [.plainField "b", nested]).CompilesIn .mysql ⟨none, false⟩ Operator.loosest
          reserved) ∧
      (Expr.op "IN" [.plainField "x"]).CompilesIn .mysql ⟨none, false⟩ Operator.loosest
        reserved := by
  intro reserved nested
  have hcompiled : Expr.compiledOperands "NOT" [(.op "~~~" [.plainField "x"] : Expr Query)] =
      [.op "~~~" [.plainField "x"]] := by
    with_unfolding_all rfl
  have hreaches : (Expr.neg (.op "~~~" [.plainField "x"]) : Expr Query).Reaches
      (.op "~~~" [.plainField "x"]) := by
    refine .operand ?_ .here
    rw [hcompiled]
    exact List.mem_cons_self
  have hinvalid : (Expr.op "~~~" [.plainField "x"] : Expr Query).IsInvalid := by
    intro found hfound
    have hunknown : Operator.find? "~~~" = none := by decide +kernel
    cases hunknown.symm.trans hfound
  have hfind : Operator.find? "AND" = some ⟨"AND", .variadic, 41⟩ := by decide +kernel
  have hreserve : (Query.reserve boundToNaN.bags).run (Binder.ofBag Bag.empty) =
      (.ok (), reserved) := rfl
  have hnames : reserved.HoldsNames ([nested, .plainField "b"].flatMap Expr.nestedBags) :=
    Query.holdsNames_of_reserve hreserve
  have hundecided : ∀ e ∈ [nested, .plainField "b"], e.decides "AND" = false := by
    intro e he
    obtain rfl | rfl : e = nested ∨ e = .plainField "b" := by simpa using he
    · decide +kernel
    · decide +kernel
  obtain ⟨hreported, hconnective, hmembership⟩ := mysql.invalid_operators_reported ⟨none, false⟩
    Operator.loosest reserved
  refine ⟨hreaches, hinvalid, hreported _ _ hreaches hinvalid, hreserve, ?_,
    hmembership _ _ (by decide +kernel)⟩
  exact (hconnective "AND" _ hfind (by decide) _ hnames).2 _ (List.Perm.swap _ _ _) hundecided

/-- A query whose parameter has the first name that is generated. -/
def boundFirst : Query :=
  Query.mk Dialect.postgres (Bag.ofList [("p1", .int 1)])
    { Statement.empty with tables := [.named "t"] }

/-- An operator that is not in the table is skipped behind the constant and in front of an empty
list, but not in front of the constant; and a value that is lifted first takes the name of a
parameter of a query behind it. -/
theorem Expr.unknown_operator_skipped :
    (conj [.literal (.bool false), .op "~~~" [.plainField "x"]] : Expr Query).Contains IsInvalid ∧
      (conj [.literal (.bool false), .op "~~~" [.plainField "x"]]).CompilesIn .postgres
        ⟨none, false⟩ Operator.loosest (Binder.ofBag Bag.empty) ∧
      ¬ (conj [.op "~~~" [.plainField "x"], .literal (.bool false)]).CompilesIn .postgres
        ⟨none, false⟩ Operator.loosest (Binder.ofBag Bag.empty) ∧
      (op "IN" [.op "~~~" [.plainField "x"]]).CompilesIn .postgres
        ⟨none, false⟩ Operator.loosest (Binder.ofBag Bag.empty) ∧
      (conj [.op "EXISTS" [.subquery boundFirst], .literal (.text "ada")]).CompilesIn .postgres
        ⟨none, false⟩ Operator.loosest (Binder.ofBag Bag.empty) ∧
      ¬ (conj [.literal (.text "ada"), .op "EXISTS" [.subquery boundFirst]]).CompilesIn .postgres
        ⟨none, false⟩ Operator.loosest (Binder.ofBag Bag.empty) := by
  refine ⟨?_, ⟨"FALSE", by with_unfolding_all rfl⟩, ?_, ⟨"FALSE", by with_unfolding_all rfl⟩,
    ⟨"EXISTS (SELECT * FROM t) AND :p2", by with_unfolding_all rfl⟩, ?_⟩
  · refine .operand (List.mem_cons_of_mem _ List.mem_cons_self) (.here fun found hfound => ?_)
    have hunknown : Operator.find? "~~~" = none := by decide +kernel
    cases hunknown.symm.trans hfound
  · rintro ⟨sql, h⟩
    have hfault : ((Query.foldExpr (Query.nestedStep Builtin.postgres.dialect)
        (conj [.op "~~~" [.plainField "x"], .literal (.bool false)])).textIn
        Builtin.postgres.dialect ⟨none, false⟩ Operator.loosest).run (Binder.ofBag Bag.empty) =
          (.error (.unknownOperator "~~~" "[\"~~~\", x]"), Binder.ofBag Bag.empty) := by
      with_unfolding_all rfl
    rw [hfault] at h
    cases h
  · rintro ⟨sql, h⟩
    have hfault : (((Query.foldExpr (Query.nestedStep Builtin.postgres.dialect)
        (conj [.literal (.text "ada"), .op "EXISTS" [.subquery boundFirst]])).textIn
        Builtin.postgres.dialect ⟨none, false⟩ Operator.loosest).run (Binder.ofBag Bag.empty)).1 =
          .error (.paramConflict "p1") := by
      with_unfolding_all rfl
    rw [hfault] at h
    cases h

end QueryCompiler
