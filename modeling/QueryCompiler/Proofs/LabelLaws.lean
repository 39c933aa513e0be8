import QueryCompiler.Compile.Select
import QueryCompiler.Proofs.DataErasure

/-!
# What does not depend on nested queries

Labels, the target of a statement, the columns of a wildcard and the test for an empty condition
look at names only: they are the same when nested queries are replaced or other values are put in.
-/
namespace QueryCompiler

variable {ν μ : Type} (g : ν → μ) (r : Revision)

namespace TableRef

@[simp]
theorem label_map (t : TableRef ν) : (t.map g).label = t.label := by
  obtain ⟨source, label, info⟩ := t
  cases source <;> rfl

@[simp]
theorem info_map (t : TableRef ν) : (t.map g).info = t.info := by
  obtain ⟨source, label, info⟩ := t
  cases source <;> rfl

@[simp]
theorem name?_map (t : TableRef ν) : (t.map g).name? = t.name? := by
  obtain ⟨source, label, info⟩ := t
  cases source <;> rfl

@[simp]
theorem attributes_map (t : TableRef ν) : (t.map g).attributes = t.attributes := by
  rw [attributes, attributes, info_map]

end TableRef

namespace Labels

@[simp]
theorem baseName_map (t : TableRef ν) : baseName (t.map g) = baseName t := by
  obtain ⟨source, label, info⟩ := t
  cases source <;> rfl

@[simp]
theorem needsLabel_map (multi : Bool) (t : TableRef ν) :
    needsLabel multi (t.map g) = needsLabel multi t := by
  rw [needsLabel, needsLabel, TableRef.name?_map]

theorem reserve_map (taken : List String) (tables : List (TableRef ν)) :
    reserve taken (tables.map (TableRef.map g)) = reserve taken tables := by
  induction tables generalizing taken with
  | nil => rfl
  | cons t rest ih => simp only [List.map_cons, reserve, TableRef.label_map, ih]

theorem assign_map (multi : Bool) (taken : List String) (tables : List (TableRef ν)) :
    assign multi taken (tables.map (TableRef.map g)) = assign multi taken tables := by
  induction tables generalizing taken with
  | nil => rfl
  | cons t rest ih =>
      simp only [List.map_cons, assign, TableRef.label_map, needsLabel_map, baseName_map, ih]

theorem resolve_map (s : Statement ν) : resolve (s.map g) = resolve s := by
  have htables : (s.map g).tables.length = s.tables.length := List.length_map _
  have hjoins : (s.map g).joins.isEmpty = s.joins.isEmpty := List.isEmpty_map
  simp only [resolve, Statement.allTables_map, reserve_map, assign_map, htables, hjoins]

theorem resolve_revise (s : Statement ν) : resolve (s.revise r) = resolve s := by
  have htables : (s.revise r).tables = s.tables := rfl
  have hjoins : (s.revise r).joins.isEmpty = s.joins.isEmpty := List.isEmpty_map
  simp only [resolve, Statement.allTables_revise, htables, hjoins]

theorem resolve_withoutData (s : Statement ν) : resolve s.withoutData = resolve s := by
  rw [Statement.withoutData_eq, resolve_revise]

end Labels

theorem target_map (verb : String) (tables : List (TableRef ν)) :
    target verb (tables.map (TableRef.map g)) =
      (target verb tables).map fun (t, name) => (t.map g, name) := by
  cases tables with
  | nil => rfl
  | cons t rest =>
      simp only [List.map_cons, target, TableRef.name?_map]
      cases t.name? <;> rfl

theorem target_spec {verb : String} {tables : List (TableRef ν)} {t : TableRef ν} {name : String}
    (h : target verb tables = .ok (t, name)) : t ∈ tables ∧ t.name? = some name := by
  cases tables with
  | nil => cases h
  | cons first rest =>
      rw [target] at h
      split at h
      · cases h
      · rename_i found hfound
        cases h
        exact ⟨List.mem_cons_self, hfound⟩

namespace JoinCondition

variable (primary : Option String) (joined : String)

theorem toExpr_map (condition : JoinCondition ν) :
    (condition.map g).toExpr primary joined = (condition.toExpr primary joined).map g := by
  cases condition with
  | expr e => rfl
  | fields pairs =>
      simp only [map, toExpr, Expr.conj, Expr.map, Expr.maps_eq_map, List.map_map]
      rfl

theorem toExpr_revise (condition : JoinCondition ν) :
    (condition.revise r).toExpr primary joined = (condition.toExpr primary joined).revise r := by
  cases condition with
  | expr e => rfl
  | fields pairs =>
      simp only [revise, toExpr, Expr.conj, Expr.revise, Expr.reviseAll_eq_map, List.map_map]
      rfl

theorem toExpr_withoutData (condition : JoinCondition ν) :
    condition.withoutData.toExpr primary joined = (condition.toExpr primary joined).withoutData := by
  rw [withoutData_eq, Expr.withoutData_eq, toExpr_revise]

/-- Pairs of fields nest no query. -/
theorem mem_subqueries_toExpr {condition : JoinCondition ν} {q : ν}
    (h : q ∈ (condition.toExpr primary joined).subqueries) :
    ∃ e, condition = .expr e ∧ q ∈ e.subqueries := by
  cases condition with
  | expr e => exact ⟨e, rfl, h⟩
  | fields pairs =>
      simp only [toExpr, Expr.conj, Expr.subqueries, Expr.subqueriesOf_eq_flatMap,
        List.mem_flatMap, List.mem_map] at h
      obtain ⟨_, ⟨pair, _, rfl⟩, hq⟩ := h
      exact absurd hq List.not_mem_nil

end JoinCondition

theorem isWildcard_map (items : List (SelectItem ν)) :
    isWildcard (items.map (SelectItem.map g)) = isWildcard items := by
  match items with
  | [] => rfl
  | _ :: _ :: _ => simp [isWildcard]
  | [⟨e, label⟩] =>
      cases e with
      | field name written => cases label <;> cases written <;> rfl
      | literal | param | op | call | subquery | shorthand => cases label <;> rfl

theorem isWildcard_revise (items : List (SelectItem ν)) :
    isWildcard (items.map (SelectItem.revise r)) = isWildcard items := by
  match items with
  | [] => rfl
  | _ :: _ :: _ => simp [isWildcard]
  | [⟨e, label⟩] =>
      cases e with
      | field name written => cases label <;> cases written <;> rfl
      | param name =>
          simp only [List.map_cons, List.map_nil, SelectItem.revise, Expr.revise]
          cases r.param name <;> cases label <;> rfl
      | literal | op | call | subquery | shorthand => cases label <;> rfl

theorem isWildcard_withoutData (items : List (SelectItem ν)) :
    isWildcard (items.map SelectItem.withoutData) = isWildcard items := by
  rw [List.map_congr_left fun item _ => item.withoutData_eq, isWildcard_revise]

theorem allColumns_map (d : Dialect) (multi : Bool) (seen : List String)
    (tables : List (TableRef ν × Option String)) :
    allColumns d multi seen (tables.map (Prod.map (TableRef.map g) id)) =
      allColumns d multi seen tables := by
  induction tables generalizing seen with
  | nil => rfl
  | cons table rest ih =>
      obtain ⟨t, label⟩ := table
      simp only [List.map_cons, Prod.map, id, allColumns, TableRef.name?_map,
        TableRef.attributes_map, ih]

theorem wildcardText_map (d : Dialect) (s : Statement ν) (labels : Labels) :
    wildcardText d (s.map g) labels = wildcardText d s labels := by
  have hall : ((s.map g).allTables.all fun t => t.attributes.isEmpty) =
      s.allTables.all fun t => t.attributes.isEmpty := by
    simp [Statement.allTables_map, Function.comp_def]
  rw [wildcardText, wildcardText, hall, Statement.allTables_map, List.zip_map_left, allColumns_map]

theorem wildcardText_revise (d : Dialect) (s : Statement ν) (labels : Labels) :
    wildcardText d (s.revise r) labels = wildcardText d s labels := by
  rw [wildcardText, wildcardText, Statement.allTables_revise]

theorem wildcardText_withoutData (d : Dialect) (s : Statement ν) (labels : Labels) :
    wildcardText d s.withoutData labels = wildcardText d s labels := by
  rw [Statement.withoutData_eq, wildcardText_revise]

namespace Expr

theorem areVacuous_eq_all (es : List (Expr ν)) : areVacuous es = es.all isVacuous := by
  induction es with
  | nil => rfl
  | cons e rest ih => rw [areVacuous, ih, List.all_cons]

theorem all_congr_mem {es : List (Expr ν)} {p q : Expr ν → Bool} (h : ∀ e ∈ es, p e = q e) :
    es.all p = es.all q := by
  rw [Bool.eq_iff_iff, List.all_eq_true, List.all_eq_true]
  exact forall₂_congr fun e he => by rw [h e he]

theorem isVacuous_map (e : Expr ν) : (e.map g).isVacuous = e.isVacuous := by
  induction e using Expr.induct with
  | literal | field | param | call | subquery => rfl
  | op name operands ih =>
      simp only [map, isVacuous, maps_eq_map, areVacuous_eq_all, List.all_map, Function.comp_def,
        all_congr_mem ih]
  | shorthand pairs => simp [map, isVacuous]

theorem isVacuous_revise (e : Expr ν) : (e.revise r).isVacuous = e.isVacuous := by
  induction e using Expr.induct with
  | literal | field | call | subquery => rfl
  | param name =>
      simp only [revise]
      cases r.param name <;> rfl
  | op name operands ih =>
      simp only [revise, isVacuous, reviseAll_eq_map, areVacuous_eq_all, List.all_map,
        Function.comp_def, all_congr_mem ih]
  | shorthand pairs => simp [revise, isVacuous]

theorem isVacuous_withoutData (e : Expr ν) : e.withoutData.isVacuous = e.isVacuous := by
  rw [withoutData_eq, isVacuous_revise]

end Expr

end QueryCompiler
