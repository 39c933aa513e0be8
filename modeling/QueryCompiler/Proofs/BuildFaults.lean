import QueryCompiler.Dialect.Builtin
import QueryCompiler.Proofs.ExprAlike
import QueryCompiler.Proofs.LabelLaws
import QueryCompiler.Proofs.Nesting
import QueryCompiler.Proofs.Wording

/-!
# The faults of a compilation

Whatever refuses a query while it is compiled does so with a fault that `Fault.isBuildFault` owns
up to, and a conflict of parameters arises where a bag is taken in and nowhere else. This holds of a
run as soon as it holds of every place at which a compilation can stop, so it is followed through
the clauses and the operators; what a dialect builds itself has to keep to it.
-/
namespace QueryCompiler

/-- A fault of compilation that has nothing to do with the parameters taken in. -/
def Fault.isRefusal : Fault → Bool
  | paramConflict _ => false
  | fault => fault.isBuildFault

theorem Fault.isBuildFault_of_isRefusal {fault : Fault} (h : fault.isRefusal = true) :
    fault.isBuildFault = true := by
  cases fault <;> first | rfl | cases h

variable {α β ι : Type}

/-- A computation that can fail with faults of a class only. -/
def FailsWith (P : Fault → Prop) (x : Except Fault α) : Prop := ∀ fault, x = .error fault → P fault

namespace FailsWith

variable {P : Fault → Prop}

theorem ok (a : α) : FailsWith P (.ok a : Except Fault α) := by
  rintro fault ⟨⟩

theorem error {fault : Fault} (h : P fault) : FailsWith P (.error fault : Except Fault α) := by
  rintro _ ⟨⟩
  exact h

theorem bind {x : Except Fault α} {f : α → Except Fault β} (hx : FailsWith P x)
    (hf : ∀ a, FailsWith P (f a)) : FailsWith P (x >>= f) := by
  cases x with
  | error fault => exact error (hx fault rfl)
  | ok a => exact hf a

theorem mapM {f : ι → Except Fault α} (hf : ∀ x, FailsWith P (f x)) (xs : List ι) :
    FailsWith P (xs.mapM f) := by
  induction xs with
  | nil => exact ok []
  | cons x rest ih =>
      rw [List.mapM_cons]
      exact (hf x).bind fun a => ih.bind fun answers => ok (a :: answers)

end FailsWith

/-- A computation that refuses with a fault of compilation only, never for a parameter. -/
abbrev OnlyBuildFaults (x : Except Fault α) : Prop :=
  FailsWith (fun fault => fault.isRefusal = true) x

namespace Build

/-- A compilation that answers with a property or stops with a fault of compilation, whatever names
it is given for the values that it lifts. -/
def Yields (P : α → Prop) : Build α → Prop
  | done a => P a
  | fail fault => fault.isRefusal = true
  | bindValue _ next => ∀ name, (next name).Yields P
  | takeIn _ next => next.Yields P

/-- A compilation that can stop with faults of compilation only. -/
abbrev StopsInBuild (x : Build α) : Prop := x.Yields fun _ => True

namespace Yields

variable {P : α → Prop} {Q : β → Prop}

theorem pure {a : α} (h : P a) : (Pure.pure a : Build α).Yields P := h

theorem bind {x : Build α} {f : α → Build β} (hx : x.Yields P)
    (hf : ∀ a, P a → (f a).Yields Q) : (x >>= f).Yields Q := by
  change (x.bind f).Yields Q
  induction x with
  | done a => exact hf a hx
  | fail fault => exact hx
  | bindValue value next ih => exact fun name => ih name (hx name)
  | takeIn bag next ih => exact ih hx

theorem mapM {f : ι → Build α} {xs : List ι} (h : ∀ x ∈ xs, (f x).Yields P) :
    (xs.mapM f).Yields fun answers => ∀ a ∈ answers, P a := by
  induction xs with
  | nil => exact pure fun _ ha => absurd ha List.not_mem_nil
  | cons x rest ih =>
      rw [List.mapM_cons]
      refine (h x List.mem_cons_self).bind fun a ha => ?_
      refine (ih fun x hx => h x (List.mem_cons_of_mem _ hx)).bind fun answers hanswers => ?_
      exact pure (List.forall_mem_cons.mpr ⟨ha, hanswers⟩)

end Yields

namespace StopsInBuild

theorem pure (a : α) : (Pure.pure a : Build α).StopsInBuild := trivial

theorem bind {x : Build α} {f : α → Build β} (hx : x.StopsInBuild)
    (hf : ∀ a, (f a).StopsInBuild) : (x >>= f).StopsInBuild :=
  Yields.bind hx fun a _ => hf a

/-- What is made of an answer does not stop a compilation. -/
theorem map {x : Build α} (hx : x.StopsInBuild) (f : α → β) :
    (x >>= fun a => Pure.pure (f a)).StopsInBuild :=
  hx.bind fun a => pure (f a)

theorem mapM {f : ι → Build α} {xs : List ι} (h : ∀ x ∈ xs, (f x).StopsInBuild) :
    (xs.mapM f).StopsInBuild := by
  simpa using Yields.bind (Yields.mapM h) fun answers _ => pure answers

theorem ofExcept {x : Except Fault α} (h : OnlyBuildFaults x) :
    (Build.ofExcept x).StopsInBuild := by
  cases x with
  | error fault => exact h fault rfl
  | ok a => trivial

theorem lift (v : Value) : (Build.lift v).StopsInBuild := fun _ => trivial

theorem merge (bag : Bag) : (Build.merge bag).StopsInBuild := trivial

/-- Taking in a bag can only fail with a conflict of parameters. -/
theorem mergeEntries_conflict (binder : Binder) (entries : List (String × Value)) :
    FailsWith (fun fault => ∃ name, fault = .paramConflict name)
      (binder.mergeEntries entries).1 := by
  induction entries generalizing binder with
  | nil => exact FailsWith.ok ()
  | cons entry rest ih =>
      obtain ⟨name, value⟩ := entry
      rw [Binder.mergeEntries]
      cases hentry : Binder.mergeEntry binder.bag name value with
      | ok bag => exact ih { binder with bag }
      | error fault =>
          unfold Binder.mergeEntry at hentry
          split at hentry
          · split at hentry <;> cases hentry
            exact FailsWith.error ⟨name, rfl⟩
          · cases hentry

/-- A run fails only where the compilation stops, or at a conflict of parameters. -/
theorem run {x : Build α} (hx : x.StopsInBuild) (binder : Binder) :
    FailsWith (fun fault => fault.isBuildFault = true) (x.run binder).1 := by
  induction x generalizing binder with
  | done a => exact FailsWith.ok a
  | fail fault => exact FailsWith.error (Fault.isBuildFault_of_isRefusal hx)
  | bindValue value next ih => exact ih _ (hx _) _
  | takeIn bag next ih =>
      have hmerge := mergeEntries_conflict binder bag.entries
      rw [Build.run, Binder.merge]
      split
      · exact ih hx _
      · rename_i fault after heq
        rw [heq] at hmerge
        obtain ⟨name, rfl⟩ := hmerge fault rfl
        exact FailsWith.error rfl

end StopsInBuild

end Build

/-- A dialect that refuses an operator it builds itself with a fault of compilation. -/
def Dialect.BuildsSafely (d : Dialect) : Prop :=
  ∀ name operands built, d.markedVendorOperator name operands = some built → OnlyBuildFaults built

theorem Builtin.buildsSafely (b : Builtin) : b.dialect.BuildsSafely := by
  have hcase : ∀ operands : List Sql, OnlyBuildFaults (buildCase operands) := by
    intro operands
    unfold buildCase
    split
    · exact FailsWith.error rfl
    · exact FailsWith.ok _
  have hilike : ∀ operands : List Sql, OnlyBuildFaults (b.ilike operands) := by
    intro operands
    match operands with
    | [] | [_] | _ :: _ :: _ :: _ => cases b <;> exact FailsWith.error rfl
    | [left, right] => cases b <;> exact FailsWith.ok _
  intro name operands built hbuilt
  rw [b.markedVendorOperator_eq, defaultVendorOperator] at hbuilt
  split at hbuilt
  · obtain rfl := Option.some.inj hbuilt
    exact hcase operands
  · split at hbuilt
    · obtain rfl := Option.some.inj hbuilt
      exact hilike operands
    · cases hbuilt

open Build (StopsInBuild)

/-- A fragment that can be written in every context, or stops with a fault of compilation. -/
def Fragment.StopsInBuild (f : Fragment) : Prop := ∀ context, (f.sql context).StopsInBuild

theorem parenthesized_stopsInBuild {x : Build Sql} (h : x.StopsInBuild) :
    (parenthesized x).StopsInBuild :=
  h.map _

variable {d : Dialect}

theorem spelling_stopsInBuild (op : Operator) : (spelling d op).StopsInBuild := by
  refine .ofExcept ?_
  unfold Dialect.spelling
  split
  · exact FailsWith.ok _
  · exact FailsWith.error rfl

/-! Operators, whose operands are taken to be written already. -/

section Operators

variable {operands : List Fragment} (h : ∀ f ∈ operands, f.StopsInBuild)

include h

theorem Fragment.alone_stopsInBuild : (Fragment.alone operands).StopsInBuild :=
  .mapM fun f hf => h f hf _

theorem keptOperands_stopsInBuild (op : Operator) : (keptOperands op operands).StopsInBuild := by
  induction operands with
  | nil => exact .pure _
  | cons operand rest ih =>
      obtain ⟨hoperand, hrest⟩ := List.forall_mem_cons.mp h
      rw [keptOperands]
      refine (hoperand _).bind fun sql => ?_
      split
      · exact .pure _
      · exact (ih hrest).map _

theorem variadicSql_stopsInBuild (op : Operator) (context : Nat) :
    (variadicSql d op operands context).StopsInBuild := by
  refine (spelling_stopsInBuild op).bind fun name => ?_
  refine (keptOperands_stopsInBuild h op).bind fun kept => ?_
  cases kept <;> exact .pure _

theorem membersSql_stopsInBuild : (membersSql operands).StopsInBuild := by
  unfold membersSql
  split
  · exact (h _ List.mem_cons_self _).map _
  · exact (Fragment.alone_stopsInBuild h).map _

theorem inListSql_stopsInBuild {subject : Fragment} (hsubject : subject.StopsInBuild)
    (op : Operator) (context : Nat) :
    (inListSql d op subject operands context).StopsInBuild := by
  refine (spelling_stopsInBuild op).bind fun name => ?_
  split
  · exact .pure _
  · refine (hsubject _).bind fun left => ?_
    exact (membersSql_stopsInBuild h).map _

/-- A dialect's own fault is shown with its expression, and stays of its kind. -/
theorem vendorSql_stopsInBuild (hd : d.BuildsSafely) (op : Operator) (shown : String)
    (context : Nat) : (vendorSql d op shown operands context).StopsInBuild := by
  have hoperands : (operands.mapM fun f : Fragment =>
      f.sql (Operator.leftContext op.rank)).StopsInBuild :=
    .mapM fun f hf => h f hf _
  refine hoperands.bind fun sqls => ?_
  cases hbuilt : d.markedVendorOperator op.name sqls with
  | none => exact rfl
  | some built =>
      have hsafe := hd _ _ _ hbuilt
      cases built with
      | ok sql => exact .pure _
      | error fault =>
          have hfault : fault.isRefusal = true := hsafe fault rfl
          cases fault <;> exact hfault

theorem operatorSql_stopsInBuild (hd : d.BuildsSafely) (op : Operator) (shown : String)
    (context : Nat) : (operatorSql d op shown operands context).StopsInBuild := by
  have hspelling : (spelling d op).StopsInBuild := spelling_stopsInBuild op
  unfold operatorSql
  split
  · exact hspelling.map _
  · exact hspelling.bind fun name => (h _ (by simp) _).map _
  · exact hspelling.bind fun name => (h _ (by simp) _).map _
  · refine hspelling.bind fun name => (h _ (by simp) _).bind fun left => ?_
    exact (h _ (by simp) _).map _
  · refine hspelling.bind fun name => (h _ (by simp) _).bind fun subject => ?_
    refine (h _ (by simp) _).bind fun low => ?_
    exact (h _ (by simp) _).map _
  · exact variadicSql_stopsInBuild h op context
  · exact inListSql_stopsInBuild (fun f hf => h f (List.mem_cons_of_mem _ hf))
      (h _ List.mem_cons_self) op context
  · exact vendorSql_stopsInBuild h hd op shown context
  · exact rfl

theorem applicationSql_stopsInBuild (hd : d.BuildsSafely) (name shown : String) (context : Nat) :
    (applicationSql d name shown operands context).StopsInBuild := by
  unfold applicationSql
  cases Operator.find? name with
  | none => exact rfl
  | some op => exact operatorSql_stopsInBuild h hd op shown context

theorem callSql_stopsInBuild (name : String) : (callSql name operands).StopsInBuild := by
  unfold callSql
  split
  · exact rfl
  · exact (Fragment.alone_stopsInBuild h).map _

end Operators

/-! Leaves. -/

theorem liftPlaceholder_stopsInBuild (v : Value) : (liftPlaceholder v).StopsInBuild :=
  (StopsInBuild.lift v).map _

theorem literalSql_stopsInBuild (v : Value) : (literalSql v).StopsInBuild := by
  cases v with
  | null | bool | int => exact .pure _
  | float x =>
      rw [literalSql]
      split
      · exact .pure _
      · exact rfl
  | text s =>
      rw [literalSql, stringSql]
      split
      · exact .pure _
      · split
        · split
          · exact .pure _
          · exact rfl
        · exact liftPlaceholder_stopsInBuild _

theorem parse_onlyBuildFaults (name : String) : OnlyBuildFaults (Field.parse name) := by
  unfold Field.parse
  split
  · exact FailsWith.ok _
  · exact FailsWith.error rfl

theorem fieldSql_stopsInBuild (scope : Scope) (name : String) :
    (fieldSql d scope name).StopsInBuild :=
  (StopsInBuild.ofExcept (parse_onlyBuildFaults name)).map _

theorem paramSql_stopsInBuild (name : String) : (paramSql name).StopsInBuild := by
  unfold paramSql
  split
  · exact .pure _
  · exact rfl

/-! Expressions, tables and clauses, whose nested queries are taken to be compiled already. -/

section Clauses

variable (hd : d.BuildsSafely)

include hd

theorem application_stopsInBuild (name shown : String) {operands : List Fragment}
    (h : ∀ f ∈ operands, f.StopsInBuild) : (application d name shown operands).StopsInBuild :=
  applicationSql_stopsInBuild h hd name shown

theorem shorthandCondition_yields (scope : Scope) (name : String) {v : FieldValue (Build Sql)}
    (h : ∀ build ∈ v.subquery?, build.StopsInBuild) :
    (shorthandCondition d scope name v).Yields Fragment.StopsInBuild := by
  have htarget : (shorthandCondition.target d scope name).StopsInBuild :=
    fun _ => fieldSql_stopsInBuild scope name
  have hnull := application_stopsInBuild hd "IS NULL" name (List.forall_mem_singleton.mpr htarget)
  unfold shorthandCondition
  split
  · exact .pure hnull
  · exact .pure hnull
  · exact .pure hnull
  · refine .bind (liftPlaceholder_stopsInBuild _) fun placeholder _ => .pure ?_
    refine application_stopsInBuild hd "=" name (List.forall_mem_cons.mpr ⟨htarget, ?_⟩)
    exact List.forall_mem_singleton.mpr fun _ => trivial
  · refine .bind (StopsInBuild.mapM fun v _ => liftPlaceholder_stopsInBuild v) fun placeholders _ => ?_
    refine .pure (application_stopsInBuild hd "IN" name (List.forall_mem_cons.mpr ⟨htarget, ?_⟩))
    intro f hf
    obtain ⟨sql, -, rfl⟩ := List.mem_map.mp hf
    exact fun _ => trivial
  · rename_i build
    refine .pure (application_stopsInBuild hd "IN" name (List.forall_mem_cons.mpr ⟨htarget, ?_⟩))
    exact List.forall_mem_singleton.mpr fun _ => parenthesized_stopsInBuild (h build rfl)

theorem Expr.fragment_stopsInBuild (scope : Scope) (e : Expr (Build Sql))
    (h : ∀ build ∈ e.subqueries, build.StopsInBuild) : (e.fragment d scope).StopsInBuild := by
  induction e using Expr.induct with
  | literal v => exact fun _ => literalSql_stopsInBuild v
  | field name label => exact fun _ => fieldSql_stopsInBuild scope name
  | param name => exact fun _ => paramSql_stopsInBuild name
  | op name operands ih =>
      rw [subqueries, subqueriesOf_eq_flatMap] at h
      rw [fragment, Expr.fragments_eq_map]
      refine application_stopsInBuild hd name _ (List.forall_mem_map.mpr fun e he => ih e he ?_)
      exact fun build hbuild => h build (List.mem_flatMap.mpr ⟨e, he, hbuild⟩)
  | call name args ih =>
      rw [subqueries, subqueriesOf_eq_flatMap] at h
      rw [fragment, Expr.fragments_eq_map]
      refine fun _ => callSql_stopsInBuild (List.forall_mem_map.mpr fun e he => ih e he ?_) name
      exact fun build hbuild => h build (List.mem_flatMap.mpr ⟨e, he, hbuild⟩)
  | subquery build => exact fun _ => parenthesized_stopsInBuild (h build List.mem_cons_self)
  | shorthand pairs =>
      rw [subqueries] at h
      have hpairs : ∀ pair ∈ pairs,
          (shorthandCondition d scope pair.1 pair.2).Yields Fragment.StopsInBuild :=
        fun pair hpair => shorthandCondition_yields hd scope pair.1 fun build hbuild =>
          h build (List.mem_filterMap.mpr ⟨pair, hpair, hbuild⟩)
      exact fun context => (Build.Yields.mapM hpairs).bind fun conditions hconditions =>
        applicationSql_stopsInBuild hconditions hd "AND" "" context

theorem Expr.sql_stopsInBuild (scope : Scope) {e : Expr (Build Sql)}
    (h : ∀ build ∈ e.subqueries, build.StopsInBuild) : (e.sql d scope).StopsInBuild :=
  e.fragment_stopsInBuild hd scope h _

omit hd in
theorem TableRef.sql_stopsInBuild {t : TableRef (Build Sql)} (label : Option String)
    (h : ∀ build ∈ t.source.subquery?, build.StopsInBuild) : (t.sql d label).StopsInBuild := by
  unfold TableRef.sql
  split
  · split
    · split <;> exact .pure _
    · exact .pure _
  · rename_i build hsource
    exact (parenthesized_stopsInBuild (h build (by rw [hsource]; rfl))).map _

theorem Join.sql_stopsInBuild (scope : Scope) {join : Join (Build Sql)} (label : Option String)
    (htable : ∀ build ∈ join.table.source.subquery?, build.StopsInBuild)
    (hcondition : ∀ e, join.condition = some (.expr e) →
      ∀ build ∈ e.subqueries, build.StopsInBuild) :
    (join.sql d scope label).StopsInBuild := by
  have hkind : OnlyBuildFaults (JoinType.parse join.kind) := by
    unfold JoinType.parse
    split
    · exact .ok _
    · exact .error rfl
  refine (StopsInBuild.ofExcept hkind).bind fun kind => ?_
  refine (join.table.sql_stopsInBuild label htable).bind fun table => ?_
  split
  · exact rfl
  · exact rfl
  · exact .pure _
  · rename_i condition _ heq _
    refine (Expr.sql_stopsInBuild hd scope fun build hbuild => ?_).map _
    obtain ⟨e, rfl, hmem⟩ := JoinCondition.mem_subqueries_toExpr _ _ hbuild
    exact hcondition e heq build hmem

theorem SelectItem.sql_stopsInBuild (scope : Scope) {item : SelectItem (Build Sql)}
    (h : ∀ build ∈ item.expr.subqueries, build.StopsInBuild) :
    (item.sql d scope).StopsInBuild := by
  have hparts : (item.parts d scope).StopsInBuild := by
    unfold SelectItem.parts
    split
    · exact (StopsInBuild.ofExcept (parse_onlyBuildFaults _)).map _
    · exact (Expr.sql_stopsInBuild hd scope h).map _
  refine hparts.bind fun part => ?_
  obtain ⟨sql, label⟩ := part
  cases label <;> exact .pure _

omit hd in
theorem listClause_stopsInBuild {sql : ι → Build Sql} {items : List ι} (word : String)
    (h : ∀ item ∈ items, (sql item).StopsInBuild) : (listClause word sql items).StopsInBuild := by
  unfold listClause
  split
  · exact .pure _
  · exact (StopsInBuild.mapM h).map _

theorem conditionClause_stopsInBuild (scope : Scope) (word : String)
    {condition : Option (Expr (Build Sql))}
    (h : ∀ e ∈ condition, ∀ build ∈ e.subqueries, build.StopsInBuild) :
    (conditionClause d scope word condition).StopsInBuild := by
  cases condition with
  | none => exact .pure _
  | some e => exact (Expr.sql_stopsInBuild hd scope (h e rfl)).map _

end Clauses

/-! What statements are refused for. -/

theorem target_onlyBuildFaults {ν : Type} (verb : String) (tables : List (TableRef ν)) :
    OnlyBuildFaults (target verb tables) := by
  unfold target
  split
  · exact .error rfl
  · split
    · exact .error rfl
    · exact .ok _

theorem reserve_onlyBuildFaults {ν : Type} (taken : List String) (tables : List (TableRef ν)) :
    OnlyBuildFaults (Labels.reserve taken tables) := by
  induction tables generalizing taken with
  | nil => exact .ok taken
  | cons t rest ih =>
      rw [Labels.reserve]
      split
      · exact ih taken
      · split
        · exact .error rfl
        · exact ih _

theorem resolve_onlyBuildFaults {ν : Type} (s : Statement ν) :
    OnlyBuildFaults (Labels.resolve s) :=
  (reserve_onlyBuildFaults [] s.allTables).bind fun _ => .ok _

theorem inlineText_onlyBuildFaults (d : Dialect) (v : Value) :
    OnlyBuildFaults (inlineText d v) := by
  unfold inlineText
  split
  · split
    · exact .ok _
    · exact .error rfl
  · exact .ok _

theorem tupleText_onlyBuildFaults (d : Dialect) (width index : Nat) (row : List Value) :
    OnlyBuildFaults (tupleText d width index row) := by
  unfold tupleText
  split
  · exact .error rfl
  · exact (FailsWith.mapM (inlineText_onlyBuildFaults d) row).bind fun _ => .ok _

theorem tupleTexts_onlyBuildFaults (d : Dialect) (width index : Nat) (rows : List (List Value)) :
    OnlyBuildFaults (tupleTexts d width index rows) := by
  induction rows generalizing index with
  | nil => exact .ok []
  | cons row rest ih =>
      exact (tupleText_onlyBuildFaults d width index row).bind fun _ => (ih _).bind fun _ => .ok _

theorem rowsText_onlyBuildFaults (d : Dialect) (attributes fields : List String)
    (rows : List (List Value)) : OnlyBuildFaults (rowsText d attributes fields rows) := by
  cases hempty : rows.isEmpty with
  | true =>
      simp only [rowsText, hempty, if_true]
      exact .error rfl
  | false =>
      simp only [rowsText, hempty, Bool.false_eq_true, if_false]
      exact (tupleTexts_onlyBuildFaults d _ 0 rows).bind fun _ => .ok _

namespace Statement

variable (hd : d.BuildsSafely) {s : Statement (Build Sql)}
  (h : ∀ build ∈ s.subqueries, build.StopsInBuild)

include hd h

theorem exprSql_stopsInBuild (scope : Scope) {e : Expr (Build Sql)} (he : e ∈ s.exprs) :
    (e.sql d scope).StopsInBuild :=
  Expr.sql_stopsInBuild hd scope fun build hbuild => h build (mem_subqueries_of_expr he hbuild)

theorem clauseSql_stopsInBuild (scope : Scope) (word : String)
    {condition : Option (Expr (Build Sql))} (hmem : ∀ e ∈ condition, e ∈ s.exprs) :
    (conditionClause d scope word condition).StopsInBuild :=
  conditionClause_stopsInBuild hd scope word fun e he build hbuild =>
    h build (mem_subqueries_of_expr (hmem e he) hbuild)

omit hd in
theorem tableSql_stopsInBuild {t : TableRef (Build Sql)} (ht : t ∈ s.allTables)
    (label : Option String) : (t.sql d label).StopsInBuild :=
  t.sql_stopsInBuild label fun build hbuild => h build (mem_subqueries_of_table ht hbuild)

theorem selectSql_stopsInBuild : (s.selectSql d).StopsInBuild := by
  refine (StopsInBuild.ofExcept (resolve_onlyBuildFaults s)).bind fun labels => ?_
  refine .bind ?_ fun selection => ?_
  · unfold selectionSql
    split
    · exact .pure _
    · refine listClause_stopsInBuild "" fun item hitem => SelectItem.sql_stopsInBuild hd _ ?_
      exact fun build hbuild =>
        h build (mem_subqueries_of_expr (mem_exprs_of_field hitem) hbuild)
  refine .bind (listClause_stopsInBuild " FROM " fun table htable => ?_) fun tables => ?_
  · obtain ⟨t, label⟩ := table
    exact tableSql_stopsInBuild h (mem_allTables_of_table (List.of_mem_zip htable).1) label
  refine .bind (.mapM fun joined hjoined => ?_) fun joins => ?_
  · obtain ⟨join, label⟩ := joined
    have hjoin : join ∈ s.joins := (List.of_mem_zip hjoined).1
    refine Join.sql_stopsInBuild hd _ label (fun build hbuild => ?_) fun e he build hbuild => ?_
    · exact h build (mem_subqueries_of_table (mem_allTables_of_join hjoin) hbuild)
    · exact h build (mem_subqueries_of_expr (mem_exprs_of_join hjoin he) hbuild)
  refine .bind (clauseSql_stopsInBuild hd h _ " WHERE " fun e => mem_exprs_of_filter)
    fun filter => ?_
  refine .bind (listClause_stopsInBuild " GROUP BY " fun e he => ?_) fun groups => ?_
  · exact exprSql_stopsInBuild hd h _ (mem_exprs_of_group he)
  refine .bind (clauseSql_stopsInBuild hd h _ " HAVING " fun e => mem_exprs_of_having)
    fun having => ?_
  refine (listClause_stopsInBuild " ORDER BY " fun order horder => ?_).map _
  exact (exprSql_stopsInBuild hd h _ (mem_exprs_of_order horder)).map _

theorem insertSql_stopsInBuild : (s.insertSql d).StopsInBuild := by
  refine (StopsInBuild.ofExcept (target_onlyBuildFaults _ s.tables)).bind fun found => ?_
  obtain ⟨table, name⟩ := found
  cases hsource : s.source with
  | none => exact rfl
  | some source =>
      refine StopsInBuild.map ?_ _
      cases source with
      | exprs pairs =>
          change (exprRowSql d pairs).StopsInBuild
          unfold exprRowSql
          split
          · exact rfl
          · refine (StopsInBuild.mapM fun pair hpair => ?_).map _
            exact exprSql_stopsInBuild hd h _ (mem_exprs_of_source hsource hpair)
      | values pairs =>
          change (valueRowSql d pairs).StopsInBuild
          unfold valueRowSql
          split
          · exact rfl
          · exact (StopsInBuild.mapM fun pair _ => liftPlaceholder_stopsInBuild pair.2).map _
      | rows fields lines =>
          exact (StopsInBuild.ofExcept (rowsText_onlyBuildFaults d _ fields lines)).map _
      | select fields build =>
          exact (h build (mem_subqueries_of_source hsource)).map _

theorem updateSql_stopsInBuild : (s.updateSql d).StopsInBuild := by
  unfold updateSql
  cases htarget : target "UPDATE" s.tables with
  | error fault => exact target_onlyBuildFaults _ _ fault htarget
  | ok found =>
      obtain ⟨table, name⟩ := found
      have htable : table ∈ s.tables := (target_spec htarget).1
      change StopsInBuild (if _ then _ else _)
      split
      · exact rfl
      · split
        · exact rfl
        · refine (StopsInBuild.ofExcept (resolve_onlyBuildFaults s)).bind fun labels => ?_
          refine (tableSql_stopsInBuild h (mem_allTables_of_table htable) _).bind fun target => ?_
          refine .bind (listClause_stopsInBuild " SET " fun pair hpair => ?_) fun assigned => ?_
          · exact (exprSql_stopsInBuild hd h _ (mem_exprs_of_assignment hpair)).map _
          refine .bind (listClause_stopsInBuild " FROM " fun other hother => ?_) fun others => ?_
          · obtain ⟨t, label⟩ := other
            have ht : t ∈ s.tables := (List.of_mem_zip (List.mem_of_mem_drop hother)).1
            exact tableSql_stopsInBuild h (mem_allTables_of_table ht) label
          exact (clauseSql_stopsInBuild hd h _ " WHERE " fun e => mem_exprs_of_filter).map _

theorem deleteSql_stopsInBuild : (s.deleteSql d).StopsInBuild := by
  unfold deleteSql
  cases htarget : target "DELETE FROM" s.tables with
  | error fault => exact target_onlyBuildFaults _ _ fault htarget
  | ok found =>
      obtain ⟨table, name⟩ := found
      have htable : table ∈ s.tables := (target_spec htarget).1
      change StopsInBuild (if _ then _ else _)
      split
      · exact rfl
      · cases hfilter : s.filter with
        | none => exact rfl
        | some filter =>
            change StopsInBuild (if _ then _ else _)
            split
            · exact rfl
            · refine (StopsInBuild.ofExcept (resolve_onlyBuildFaults s)).bind fun labels => ?_
              refine (tableSql_stopsInBuild h (mem_allTables_of_table htable) _).bind fun _ => ?_
              exact (exprSql_stopsInBuild hd h _ (mem_exprs_of_filter hfilter)).map _

theorem sql_stopsInBuild : (s.sql d).StopsInBuild := by
  unfold Statement.sql
  cases s.kind with
  | select => exact selectSql_stopsInBuild hd h
  | insert => exact insertSql_stopsInBuild hd h
  | update => exact updateSql_stopsInBuild hd h
  | delete => exact deleteSql_stopsInBuild hd h

end Statement

namespace Query

theorem reserve_stopsInBuild (bags : List Bag) : (reserve bags).StopsInBuild := by
  induction bags with
  | nil => exact .pure ()
  | cons bag rest ih => exact ih

variable (hd : d.BuildsSafely)

include hd

/-- A nested query stops no other way than the query around it. -/
theorem nestedStep_stopsInBuild (q : Query) : (q.fold (nestedStep d)).StopsInBuild := by
  induction q using Query.induct with
  | step q ih =>
      rw [fold_eq]
      refine (StopsInBuild.merge q.bound).bind fun _ => Statement.sql_stopsInBuild hd ?_
      rw [Statement.subqueries_map]
      exact List.forall_mem_map.mpr ih

theorem statementSteps_stopsInBuild (q : Query) :
    ((prepared d q.statement).sql d).StopsInBuild := by
  refine Statement.sql_stopsInBuild hd ?_
  rw [prepared, foldStatement_eq_map, Statement.subqueries_map]
  exact List.forall_mem_map.mpr fun inner _ => nestedStep_stopsInBuild hd inner

theorem compileSteps_stopsInBuild (q : Query) : (compileSteps d q).StopsInBuild :=
  (reserve_stopsInBuild q.nestedBags).bind fun _ => statementSteps_stopsInBuild hd q

/-- A query that is refused is refused with a fault of compilation. -/
theorem compileWith_onlyBuildFaults (q : Query) :
    FailsWith (fun fault => fault.isBuildFault = true) (q.compileWith d) := by
  have hrun := (compileSteps_stopsInBuild hd q).run (Binder.ofBag q.bound)
  rw [compileWith, written]
  split
  · exact .ok _
  · rename_i fault after heq
    rw [heq] at hrun
    exact .error (hrun fault rfl)

end Query

end QueryCompiler
