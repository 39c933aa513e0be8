import QueryCompiler.Proofs.DataErasure
import QueryCompiler.Proofs.OperatorParts

/-!
# The values that an expression lifts

Which values an expression lifts, and in which order, can be told from the expression. Their names
stay in the text, with one exception: a conjunction or disjunction that is decided by one of its
operands is written as a constant, and the text of all operands compiled up to then is given up.
-/
namespace QueryCompiler

open Build (LiftsAs Assembles)

variable {ν : Type}

/-- A string in an expression is lifted if it is data. -/
def Value.lifted : Value → List LiftedValue
  | .text s => if isDataText s then [⟨.text s, true⟩] else []
  | _ => []

/-- The shorthand lifts all values but null. -/
def FieldValue.lifted : FieldValue ν → List LiftedValue
  | value .null => []
  | value v => [⟨v, true⟩]
  | list items => items.map (⟨·, true⟩)
  | null | subquery _ => []

/-- What is lifted later, when the condition of the pair is written. -/
def FieldValue.nested (v : FieldValue (List LiftedValue)) : List LiftedValue :=
  v.subquery?.getD []

namespace Expr

mutual
/-- The values that an expression lifts, if each nested query stands for those that it lifts. -/
def lifted : Expr (List LiftedValue) → List LiftedValue
  | literal v => v.lifted
  | field _ _ => []
  | param _ => []
  | op name operands =>
    if isEmptyMembership name operands then []
    else if operands.any (decides name) then
      (liftedUpTo (decides name) operands).map LiftedValue.lose
    else liftedUpTo (decides name) operands
  | call _ args => liftedUpTo (fun _ => false) args
  | subquery ls => ls
  | shorthand pairs =>
    (pairs.flatMap fun pair => pair.2.lifted) ++ pairs.flatMap fun pair => pair.2.nested

/-- The values of the operands up to the first at which the compilation stops. -/
def liftedUpTo (stops : Expr (List LiftedValue) → Bool) :
    List (Expr (List LiftedValue)) → List LiftedValue
  | [] => []
  | e :: rest => if stops e then lifted e else lifted e ++ liftedUpTo stops rest
end

theorem liftedUpTo_eq (stops : Expr (List LiftedValue) → Bool)
    (es : List (Expr (List LiftedValue))) :
    liftedUpTo stops es = (upTo stops es).flatMap lifted := by
  induction es with
  | nil => rfl
  | cons e rest ih =>
      rw [liftedUpTo, upTo, ih]
      split <;> simp

end Expr

/-! Leaves. -/

theorem liftPlaceholder_liftsAs (v : Value) :
    (liftPlaceholder v).LiftsAs Sql.shown [⟨v, true⟩] := by
  refine (LiftsAs.lift v).map ?_
  rintro name - _ rfl
  exact Sql.mem_shown_mark _

theorem literalSql_liftsAs (v : Value) : (literalSql v).LiftsAs Sql.shown v.lifted := by
  cases v with
  | null | bool b | int n => exact .pure _
  | float x =>
      rw [literalSql]
      split
      · exact .pure _
      · exact .fail _
  | text s =>
      rw [literalSql, Value.lifted]
      split
      · rename_i hdata
        rw [stringSql_of_data hdata]
        exact liftPlaceholder_liftsAs _
      · rename_i hsql
        unfold stringSql
        split
        · exact .pure _
        · rename_i hmark
          split
          · split
            · exact .pure _
            · exact .fail _
          · rename_i hstart
            refine absurd ?_ hsql
            unfold Mark.ofText? at hmark
            split at hmark
            · cases hmark
            · split at hmark
              · cases hmark
              · rename_i hquestion hnamed
                simp [isDataText, hquestion, hnamed, hstart]

theorem fieldSql_liftsAs (d : Dialect) (scope : Scope) (name : String) :
    (fieldSql d scope name).LiftsAs Sql.shown [] :=
  .after (.ofExcept _) fun _ _ => .pure _

theorem paramSql_liftsAs (name : String) : (paramSql name).LiftsAs Sql.shown [] := by
  unfold paramSql
  split
  · exact .pure _
  · exact .fail _

theorem parenthesized_liftsAs {build : Build Sql} {ls : List LiftedValue}
    (h : build.LiftsAs Sql.shown ls) : (parenthesized build).LiftsAs Sql.shown ls := by
  have hparts : Assembles Sql.shown ∅ [build] (parenthesized build) :=
    .part fun text _ => .done (by rw [Set.empty_union]; exact Sql.shown_parenthesized)
  simpa using hparts.liftsAs [ls] (.cons h .nil)

theorem callSql_liftsAs (name : String) {fs : List Fragment} {lists : List (List LiftedValue)}
    (h : List.Forall₂ (fun f ls => f.LiftsAs ls) fs lists) :
    (callSql name fs).LiftsAs Sql.shown lists.flatten := by
  unfold callSql
  split
  · exact .fail _
  · refine Fragment.Assemble.liftsAs ⟨_, Fragment.forall₂_sql Operator.loosest, ?_⟩ h
    rw [← List.append_nil (fs.map _)]
    refine Fragment.alone_assembles.bind fun args _ => .done ?_
    rw [Set.empty_union]
    rintro lifted ⟨sql, hsql, hlifted⟩
    refine Sql.shown_append (by decide) ?_
    exact Sql.shown_behind (Sql.leads_word (by decide) (by decide)) (Sql.shown_commas hsql hlifted)

section Shorthand

variable {g : ν → Build Sql} {k : ν → List LiftedValue}

/-- A comparison is no conjunction or disjunction. -/
theorem comparison_assembles (b : Builtin) {name : String} (hname : name ∈ ["IS NULL", "=", "IN"])
    {fs : List Fragment} (hitems : name ≠ "IN" ∨ fs.length ≠ 1) (shown : String) (context : Nat) :
    Fragment.Assemble fs (applicationSql b.dialect name shown fs context) := by
  have hops : ∀ name ∈ ["IS NULL", "=", "IN"], ∀ op ∈ Operator.find? name,
      absorbing? op.name = none ∧ (op.arity = .inList → name = "IN") := by
    decide +kernel
  unfold applicationSql
  split
  · exact ⟨_, Fragment.forall₂_sql 0, .fail⟩
  · rename_i op hfind
    obtain ⟨hnone, hin⟩ := hops name hname op hfind
    refine operatorSql_assembles b (fun f _ text _ => ?_) (fun harity => ?_) shown context
    · rw [hnone]
      exact nofun
    · exact hitems.resolve_left fun hne => hne (hin harity)

/-- The names that a fragment shows in every context, however its own values are named. -/
def Fragment.shown (f : Fragment) : Set String :=
  {name | ∀ context text, (f.sql context).Answers text → name ∈ text.shown}

theorem comparison_keeps (b : Builtin) {name : String} (hname : name ∈ ["IS NULL", "=", "IN"])
    {fs : List Fragment} (hitems : name ≠ "IN" ∨ fs.length ≠ 1) (shown : String) {sql : Sql}
    (hsql : .leaf (pure sql) ∈ fs) : sql.shown ⊆ (application b.dialect name shown fs).shown := by
  intro lifted hlifted context text htext
  refine (comparison_assembles b hname hitems shown context).keeps hsql ?_ htext
  rintro - _ rfl
  exact hlifted

/-- Before any condition of the shorthand is written, the values of a pair are lifted, and the
condition keeps their names. -/
theorem shorthandCondition_liftsAs (b : Builtin) (scope : Scope) (name : String)
    (v : FieldValue ν) : (shorthandCondition b.dialect scope name (v.map g)).LiftsAs Fragment.shown
      v.lifted := by
  have hvalue : ∀ v : Value, (liftPlaceholder v >>= fun placeholder =>
      pure (application b.dialect "=" name
        [shorthandCondition.target b.dialect scope name, .leaf (pure placeholder)])).LiftsAs
          Fragment.shown [⟨v, true⟩] := by
    intro v
    refine (liftPlaceholder_liftsAs v).map fun placeholder _ => ?_
    exact comparison_keeps b (by decide) (.inl (by decide)) name (by simp)
  match v with
  | .null | .value .null | .list [] | .subquery q => exact .pure _
  | .value (.bool _) | .value (.int _) | .value (.float _) | .value (.text _) => exact hvalue _
  | .list (first :: rest) =>
      have hitems : ((first :: rest).mapM liftPlaceholder).LiftsAs Sql.shownInAny
          (FieldValue.lifted (ν := ν) (.list (first :: rest))) := by
        rw [FieldValue.lifted, ← List.flatMap_singleton' (List.map _ _), List.flatMap_map]
        exact .mapM fun v _ => liftPlaceholder_liftsAs v
      refine hitems.map ?_
      rintro placeholders - lifted ⟨placeholder, hmem, hlifted⟩
      refine comparison_keeps b (by decide) (.inr ?_) name ?_ hlifted
      · have hne := List.ne_nil_of_mem hmem
        simpa using hne
      · exact List.mem_cons_of_mem _ (List.mem_map_of_mem hmem)

theorem comparison_liftsAs (b : Builtin) {name : String} (hname : name ∈ ["IS NULL", "=", "IN"])
    {fs : List Fragment} (hitems : name ≠ "IN" ∨ fs.length ≠ 1) (shown : String)
    {lists : List (List LiftedValue)}
    (hfs : List.Forall₂ (fun (f : Fragment) ls => f.LiftsAs ls) fs lists) :
    (application b.dialect name shown fs).LiftsAs lists.flatten :=
  fun context => (comparison_assembles b hname hitems shown context).liftsAs hfs

theorem shorthandCondition_nested (b : Builtin) (scope : Scope) (name : String) {v : FieldValue ν}
    (hv : ∀ q ∈ v.subquery?, (g q).LiftsAs Sql.shown (k q)) :
    (shorthandCondition b.dialect scope name (v.map g)).Ensures (fun _ _ => True)
      (Fragment.LiftsAs (v.map k).nested) := by
  have htarget : (shorthandCondition.target b.dialect scope name).LiftsAs [] :=
    fun _ => fieldSql_liftsAs b.dialect scope name
  have hleaf : ∀ sql, (Fragment.leaf (pure sql)).LiftsAs [] := fun _ _ => .pure _
  have hnull : (application b.dialect "IS NULL" name
      [shorthandCondition.target b.dialect scope name]).LiftsAs [] :=
    comparison_liftsAs b (by decide) (.inl (by decide)) name (.cons htarget .nil)
  have hvalue : ∀ v : Value, (liftPlaceholder v >>= fun placeholder =>
      pure (application b.dialect "=" name
        [shorthandCondition.target b.dialect scope name, .leaf (pure placeholder)])).Ensures
          (fun _ _ => True) (Fragment.LiftsAs []) :=
    fun v => (Build.Ensures.trivial _).bind fun placeholder _ => .pure
      (comparison_liftsAs b (by decide) (.inl (by decide)) name
        (.cons htarget (.cons (hleaf placeholder) .nil)))
  match v with
  | .null | .value .null | .list [] => exact .pure hnull
  | .value (.bool _) | .value (.int _) | .value (.float _) | .value (.text _) => exact hvalue _
  | .list (first :: rest) =>
      refine (Build.Ensures.mapM_forall₂ fun _ _ => Build.Ensures.trivial _).bind
        fun placeholders hplaceholders => .pure ?_
      have hleaves : List.Forall₂ (fun (f : Fragment) ls => f.LiftsAs ls)
          (placeholders.map fun sql => .leaf (pure sql)) (placeholders.map fun _ => []) := by
        rw [List.forall₂_map_left_iff, List.forall₂_map_right_iff, List.forall₂_same]
        exact fun sql _ => hleaf sql
      have hitems : (shorthandCondition.target b.dialect scope name ::
          placeholders.map fun sql => Fragment.leaf (pure sql)).length ≠ 1 := by
        simp [← hplaceholders.length_eq]
      simpa [FieldValue.nested, FieldValue.map, FieldValue.subquery?] using
        comparison_liftsAs b (by decide) (.inr hitems) name (.cons htarget hleaves)
  | .subquery q =>
      have hnested : (⟨true, true, fun _ => parenthesized (g q)⟩ : Fragment).LiftsAs (k q) :=
        fun _ => parenthesized_liftsAs (hv q rfl)
      have hin : (application b.dialect "IN" name [shorthandCondition.target b.dialect scope name,
          ⟨true, true, fun _ => parenthesized (g q)⟩]).LiftsAs [[], k q].flatten :=
        comparison_liftsAs b (by decide) (.inr (by simp)) name (.cons htarget (.cons hnested .nil))
      rw [List.flatten_cons, List.nil_append, List.flatten_singleton] at hin
      exact .pure hin

end Shorthand

/-! Expressions. -/

namespace Expr

variable {g : ν → Build Sql} {k : ν → List LiftedValue}

/-- The operands of an operator, compiled. -/
def compiledOperand (b : Builtin) (scope : Scope) (g : ν → Build Sql) (e : Expr ν) : Fragment :=
  (e.map g).fragment b.dialect scope

theorem decidedBy (b : Builtin) (scope : Scope) (g : ν → Build Sql) {name : String} {op : Operator}
    (hfind : Operator.find? name = some op) (operands : List (Expr ν)) :
    DecidedBy op (compiledOperand b scope g) (decides name) operands := by
  intro e _ text htext
  have hconstant := ((e.map g).fragment_foldsAs b scope).constant op.rank
  rw [folding_map] at hconstant
  exact absorbing_iff_decides hfind (htext.ensured hconstant)

/-- The values of an operator are those of the operands that are compiled. -/
theorem lifted_op (k : ν → List LiftedValue) (name : String) (operands : List (Expr ν)) :
    ((op name operands).map k).lifted =
      if isEmptyMembership name operands then []
      else if operands.any (decides name) then
        ((upTo (decides name) operands).flatMap fun e => (e.map k).lifted).map LiftedValue.lose
      else (upTo (decides name) operands).flatMap fun e => (e.map k).lifted := by
  have hdecides : (fun e : Expr ν => (e.map k).decides name) = decides name :=
    funext (decides_map k name)
  have hany : (operands.map (map k)).any (decides name) = operands.any (decides name) := by
    rw [List.any_map]
    exact congrArg _ hdecides
  rw [map, maps_eq_map, lifted, hany, liftedUpTo_eq, upTo_map, hdecides, List.flatMap_map]
  simp only [isEmptyMembership, List.length_map]
  rfl

/-- Only conjunctions and disjunctions are decided by an operand. -/
theorem variadic_of_decides {name : String} {op : Operator}
    (hfind : Operator.find? name = some op) {e : Expr ν} (h : e.decides name = true) :
    op.arity = .variadic := by
  have hops : ∀ op ∈ Operator.all, op.decider?.isSome = true → op.arity = .variadic := by decide
  refine hops op (Operator.find?_eq_some hfind).1 ?_
  rw [decides, hfind, Option.any_some, Option.any_eq_true] at h
  obtain ⟨v, hv, -⟩ := h
  rw [hv]
  rfl

theorem operator_liftsAs (b : Builtin) (scope : Scope) (name shown : String)
    {operands : List (Expr ν)}
    (h : ∀ e ∈ operands, (compiledOperand b scope g e).LiftsAs (e.map k).lifted) :
    (application b.dialect name shown (operands.map (compiledOperand b scope g))).LiftsAs
      ((op name operands).map k).lifted := by
  intro context
  change (applicationSql b.dialect name shown _ context).LiftsAs Sql.shown _
  rw [lifted_op, applicationSql]
  cases hfind : Operator.find? name with
  | none => exact .fail _
  | some op =>
    have hdecided := decidedBy b scope g hfind operands
    by_cases hmembership : isEmptyMembership name operands = true
    · rw [if_pos hmembership]
      simp only [isEmptyMembership, hfind, Option.any_some, Bool.and_eq_true,
        beq_iff_eq] at hmembership
      obtain ⟨subject, rfl⟩ := List.length_eq_one_iff.mp hmembership.1
      simp only [operatorSql, hmembership.2, List.map_cons, List.map_nil]
      exact .after (.ofExcept _) fun _ _ => .pure _
    · rw [if_neg hmembership]
      by_cases hany : operands.any (decides name) = true
      · -- all operands up to the one that decides are compiled, and their texts are given up
        rw [if_pos hany]
        obtain ⟨e, -, hdecides⟩ := List.any_eq_true.mp hany
        simp only [operatorSql, variadic_of_decides hfind hdecides]
        rw [List.flatMap_def]
        refine .lose ((variadicSql_upTo b.dialect hdecided context).liftsAs _ ?_)
        rw [List.forall₂_map_left_iff, List.forall₂_map_right_iff, List.forall₂_same]
        exact fun e he => h e (mem_of_mem_upTo he) op.rank
      · rw [if_neg hany]
        have hnone : ∀ e ∈ operands, e.decides name = false := by simpa using hany
        rw [upTo_of_none hnone, List.flatMap_def]
        refine (operatorSql_assembles b ?_ ?_ shown context).liftsAs ?_
        · intro f hf text htext habsorbing
          obtain ⟨e, he, rfl⟩ := List.mem_map.mp hf
          exact Bool.false_ne_true ((hnone e he).symm.trans
            ((hdecided e he text htext).mp habsorbing))
        · intro harity hone
          rw [List.length_map] at hone
          simp [isEmptyMembership, hfind, harity, hone] at hmembership
        · rw [List.forall₂_map_left_iff, List.forall₂_map_right_iff, List.forall₂_same]
          exact h

/-- Conditions of which none is a constant do not decide their conjunction. -/
theorem conjunction_assembles (b : Builtin) {fs : List Fragment}
    (h : ∀ f ∈ fs, f.FoldsAs ⟨false, fun _ => none⟩) (context : Nat) :
    Fragment.Assemble fs (applicationSql b.dialect "AND" "" fs context) := by
  have harity : ∀ op ∈ Operator.find? "AND", op.arity ≠ .inList := by decide +kernel
  unfold applicationSql
  split
  · exact ⟨_, Fragment.forall₂_sql 0, .fail⟩
  · rename_i op hfind
    refine operatorSql_assembles b (fun f hf text htext habsorbing => ?_)
      (fun hin => absurd hin (harity op hfind)) "" context
    have hnone := htext.ensured ((h f hf).constant op.rank)
    obtain htrue | hfalse := absorbing?_constant habsorbing
    · simp [htrue, textConstant] at hnone
    · simp [hfalse, textConstant] at hnone

/-- The shorthand lifts the values of all pairs before it writes the first condition. -/
theorem shorthand_liftsAs (b : Builtin) (scope : Scope) {pairs : List (String × FieldValue ν)}
    (h : ∀ pair ∈ pairs, ∀ q ∈ pair.2.subquery?, (g q).LiftsAs Sql.shown (k q)) :
    (((shorthand pairs).map g).fragment b.dialect scope).LiftsAs
      ((shorthand pairs).map k).lifted := by
  intro context
  have hvalues : (pairs.map fun pair => (pair.1, pair.2.map k)).flatMap
      (fun pair => pair.2.lifted) = pairs.flatMap fun pair => pair.2.lifted := by
    rw [List.flatMap_map]
    refine List.flatMap_congr fun pair _ => ?_
    obtain ⟨name, v⟩ := pair
    cases v with
    | null | list | subquery => rfl
    | value v => cases v <;> rfl
  have hconditions : ((pairs.map fun pair => (pair.1, pair.2.map g)).mapM fun pair =>
      shorthandCondition b.dialect scope pair.1 pair.2).LiftsAs
        (fun fs => {name | ∃ f ∈ fs, name ∈ f.shown})
        (pairs.flatMap fun pair => pair.2.lifted) := by
    rw [List.mapM_map]
    exact .mapM fun pair _ => shorthandCondition_liftsAs b scope pair.1 pair.2
  have hnested : ((pairs.map fun pair => (pair.1, pair.2.map g)).mapM fun pair =>
      shorthandCondition b.dialect scope pair.1 pair.2).Ensures (fun _ _ => True) fun fs =>
        List.Forall₂ (fun (f : Fragment) ls => f.LiftsAs ls) fs
          (pairs.map fun pair => (pair.2.map k).nested) := by
    rw [List.mapM_map]
    refine (Build.Ensures.mapM_forall₂ fun pair hpair =>
      shorthandCondition_nested b scope pair.1 (h pair hpair)).mono fun fs hfs => ?_
    rw [List.forall₂_map_right_iff]
    exact hfs.flip
  rw [map, lifted, hvalues, List.flatMap_map]
  have hassembles : ∀ fs, ((pairs.map fun pair => (pair.1, pair.2.map g)).mapM fun pair =>
      shorthandCondition b.dialect scope pair.1 pair.2).Answers fs →
        Fragment.Assemble fs (applicationSql b.dialect "AND" "" fs context) :=
    fun fs hfs => conjunction_assembles b (hfs.ensured (.mapM fun pair _ =>
      shorthandCondition_foldsAs b scope pair.1 pair.2)) context
  refine .bind hconditions (fun fs hfs => ?_) fun fs hfs sql hsql lifted hlifted => ?_
  · rw [List.flatMap_def]
    exact (hassembles fs hfs).liftsAs (hfs.ensured hnested)
  · obtain ⟨f, hf, hshown⟩ := hlifted
    exact (hassembles fs hfs).keeps hf hshown hsql

theorem fragment_liftsAs (b : Builtin) (scope : Scope) {e : Expr ν}
    (h : ∀ q ∈ e.subqueries, (g q).LiftsAs Sql.shown (k q)) :
    ((e.map g).fragment b.dialect scope).LiftsAs (e.map k).lifted := by
  have hnested : ∀ {es : List (Expr ν)} {e : Expr ν}, e ∈ es →
      (∀ q ∈ subqueriesOf es, (g q).LiftsAs Sql.shown (k q)) →
        ∀ q ∈ e.subqueries, (g q).LiftsAs Sql.shown (k q) := by
    intro es e he hes q hq
    refine hes q ?_
    rw [subqueriesOf_eq_flatMap]
    exact List.mem_flatMap.mpr ⟨e, he, hq⟩
  induction e using Expr.induct with
  | literal v => exact fun _ => literalSql_liftsAs v
  | field name label => exact fun _ => fieldSql_liftsAs b.dialect scope name
  | param name => exact fun _ => paramSql_liftsAs name
  | subquery q => exact fun _ => parenthesized_liftsAs (h q List.mem_cons_self)
  | op name operands ih =>
      have hfragments : fragments b.dialect scope (maps g operands) =
          operands.map (compiledOperand b scope g) := by
        rw [maps_eq_map, fragments_eq_map, List.map_map]
        rfl
      change (application b.dialect name _ (fragments b.dialect scope (maps g operands))).LiftsAs _
      rw [hfragments]
      exact operator_liftsAs b scope name _ fun e he => ih e he (hnested he h)
  | call name args ih =>
      intro context
      have hargs : List.Forall₂ (fun (f : Fragment) ls => f.LiftsAs ls)
          (fragments b.dialect scope (maps g args)) (args.map fun e => (e.map k).lifted) := by
        rw [maps_eq_map, fragments_eq_map, List.map_map, List.forall₂_map_left_iff,
          List.forall₂_map_right_iff, List.forall₂_same]
        exact fun e he => ih e he (hnested he h)
      rw [map, map, lifted, liftedUpTo_eq, upTo_of_none (fun _ _ => rfl), maps_eq_map,
        List.flatMap_map, List.flatMap_def]
      exact callSql_liftsAs name hargs
  | shorthand pairs =>
      refine shorthand_liftsAs b scope fun pair hpair q hq => h q ?_
      exact List.mem_filterMap.mpr ⟨pair, hpair, hq⟩

theorem sql_liftsAs (b : Builtin) (scope : Scope) {e : Expr ν}
    (h : ∀ q ∈ e.subqueries, (g q).LiftsAs Sql.shown (k q)) :
    ((e.map g).sql b.dialect scope).LiftsAs Sql.shown (e.map k).lifted :=
  fragment_liftsAs b scope h Operator.loosest

end Expr

end QueryCompiler
