import QueryCompiler.Compile.Expr
import QueryCompiler.Proofs.BuildAlike
import QueryCompiler.Proofs.DataErasure

/-!
# Expressions are compiled alike without their data

An expression and the one without its data have alike compilations, if the nested queries have.
-/
namespace QueryCompiler

open Build (Alike)

/-- Fragments that are written alike in every context. -/
structure Fragment.Alike (allowed : Bag → Prop) (f f' : Fragment) : Prop where
  atomic : f.atomic = f'.atomic
  isQuery : f.isQuery = f'.isQuery
  sql : ∀ context, Build.Alike allowed Eq (f.sql context) (f'.sql context)

variable {allowed : Bag → Prop}

theorem Fragment.Alike.leaf {x y : Build Sql} (h : Build.Alike allowed Eq x y) :
    Fragment.Alike allowed (.leaf x) (.leaf y) :=
  ⟨rfl, rfl, fun _ => h⟩

theorem Fragment.Alike.nested {x y : Build Sql} (h : Build.Alike allowed Eq x y) :
    Fragment.Alike allowed ⟨true, true, fun _ => parenthesized x⟩
      ⟨true, true, fun _ => parenthesized y⟩ :=
  ⟨rfl, rfl, fun _ => h.bindEq fun _ => .pure rfl⟩

section Operators

variable {fs fs' : List Fragment} (h : List.Forall₂ (Fragment.Alike allowed) fs fs')

include h

theorem Fragment.alone_alike : Build.Alike allowed Eq (alone fs) (alone fs') :=
  .mapM_eq (h.imp fun _ _ hf => hf.sql _)

theorem keptOperands_alike (op : Operator) :
    Alike allowed Eq (keptOperands op fs) (keptOperands op fs') := by
  induction h with
  | nil => exact .pure rfl
  | cons hf _ ih =>
      simp only [keptOperands, hf.atomic]
      refine (hf.sql _).bindEq fun sql => ?_
      split
      · exact .pure rfl
      · exact ih.bindEq fun _ => .pure rfl

theorem variadicSql_alike (d : Dialect) (op : Operator) (context : Nat) :
    Alike allowed Eq (variadicSql d op fs context) (variadicSql d op fs' context) := by
  refine (Alike.ofExcept _).bindEq fun name => (keptOperands_alike h op).bindEq fun kept => ?_
  cases kept <;> exact .pure rfl

theorem membersSql_alike : Alike allowed Eq (membersSql fs) (membersSql fs') := by
  cases h with
  | nil => exact (Fragment.alone_alike .nil).bindEq fun _ => .pure rfl
  | cons hf hrest =>
      cases hrest with
      | nil =>
          simp only [membersSql, hf.isQuery]
          exact (hf.sql _).bindEq fun _ => .pure rfl
      | cons hnext hrest =>
          exact (Fragment.alone_alike (.cons hf (.cons hnext hrest))).bindEq fun _ => .pure rfl

theorem inListSql_alike (d : Dialect) (op : Operator) {subject subject' : Fragment}
    (hsubject : subject.Alike allowed subject') (context : Nat) :
    Alike allowed Eq (inListSql d op subject fs context) (inListSql d op subject' fs' context) := by
  refine (Alike.ofExcept _).bindEq fun name => ?_
  cases h with
  | nil => exact .pure rfl
  | cons hf hrest =>
      exact (hsubject.sql _).bindEq fun left =>
        (membersSql_alike (.cons hf hrest)).bindEq fun _ => .pure rfl

theorem vendorSql_alike (d : Dialect) (op : Operator) (shown shown' : String) (context : Nat) :
    Alike allowed Eq (vendorSql d op shown fs context) (vendorSql d op shown' fs' context) := by
  refine (Alike.mapM_eq (h.imp fun _ _ hf => hf.sql _)).bindEq fun operands => ?_
  match d.markedVendorOperator op.name operands with
  | none => exact .fail _ _
  | some (.error _) => exact .fail _ _
  | some (.ok _) => exact .pure rfl

theorem operatorSql_alike (d : Dialect) (op : Operator) (shown shown' : String) (context : Nat) :
    Alike allowed Eq (operatorSql d op shown fs context) (operatorSql d op shown' fs' context) := by
  unfold operatorSql
  cases op.arity with
  | nullary =>
      cases h with
      | nil => exact (Alike.ofExcept _).bindEq fun _ => .pure rfl
      | cons _ _ => exact .fail _ _
  | unaryPrefix =>
      match fs, fs', h with
      | [], [], _ | _ :: _ :: _, _ :: _ :: _, _ => exact .fail _ _
      | [_], [_], .cons hf .nil =>
          exact (Alike.ofExcept _).bindEq fun _ => (hf.sql _).bindEq fun _ => .pure rfl
  | unaryPostfix =>
      match fs, fs', h with
      | [], [], _ | _ :: _ :: _, _ :: _ :: _, _ => exact .fail _ _
      | [_], [_], .cons hf .nil =>
          exact (Alike.ofExcept _).bindEq fun _ => (hf.sql _).bindEq fun _ => .pure rfl
  | binary =>
      match fs, fs', h with
      | [], [], _ | [_], [_], _ | _ :: _ :: _ :: _, _ :: _ :: _ :: _, _ => exact .fail _ _
      | [_, _], [_, _], .cons hl (.cons hr .nil) =>
          exact (Alike.ofExcept _).bindEq fun _ => (hl.sql _).bindEq fun _ =>
            (hr.sql _).bindEq fun _ => .pure rfl
  | ternary =>
      match fs, fs', h with
      | [], [], _ | [_], [_], _ | [_, _], [_, _], _ => exact .fail _ _
      | _ :: _ :: _ :: _ :: _, _ :: _ :: _ :: _ :: _, _ => exact .fail _ _
      | [_, _, _], [_, _, _], .cons hs (.cons hl (.cons hh .nil)) =>
          exact (Alike.ofExcept _).bindEq fun _ => (hs.sql _).bindEq fun _ =>
            (hl.sql _).bindEq fun _ => (hh.sql _).bindEq fun _ => .pure rfl
  | variadic => exact variadicSql_alike h d op context
  | inList =>
      cases h with
      | nil => exact .fail _ _
      | cons hf hrest => exact inListSql_alike hrest d op hf context
  | vendor => exact vendorSql_alike h d op shown shown' context

theorem applicationSql_alike (d : Dialect) (name shown shown' : String) (context : Nat) :
    Alike allowed Eq (applicationSql d name shown fs context)
      (applicationSql d name shown' fs' context) := by
  unfold applicationSql
  cases Operator.find? name with
  | none => exact .fail _ _
  | some op => exact operatorSql_alike h d op shown shown' context

theorem application_alike (d : Dialect) (name shown shown' : String) :
    Fragment.Alike allowed (application d name shown fs) (application d name shown' fs') := by
  refine ⟨?_, rfl, fun context => applicationSql_alike h d name shown shown' context⟩
  cases h <;> rfl

theorem callSql_alike (name : String) : Alike allowed Eq (callSql name fs) (callSql name fs') := by
  unfold callSql
  split
  · exact .fail _ _
  · exact (Fragment.alone_alike h).bindEq fun _ => .pure rfl

end Operators

theorem liftPlaceholder_alike (v v' : Value) :
    Alike allowed Eq (liftPlaceholder v) (liftPlaceholder v') :=
  (Alike.lift v v').bindEq fun _ => .pure rfl

/-- A string without SQL is lifted, whatever it is. -/
theorem stringSql_of_data {s : String} (h : isDataText s = true) :
    stringSql s = liftPlaceholder (.text s) := by
  simp only [isDataText, Bool.and_eq_true, bne_iff_ne, Bool.not_eq_true'] at h
  obtain ⟨⟨hmark, hnamed⟩, hsql⟩ := h
  simp [stringSql, Mark.ofText?, hmark, hnamed, hsql]

theorem stringSql_refl (s : String) : Alike allowed Eq (stringSql s) (stringSql s) := by
  unfold stringSql
  split
  · exact .pure rfl
  · split
    · split
      · exact .pure rfl
      · exact .fail _ _
    · exact liftPlaceholder_alike _ _

theorem literalSql_alike (v : Value) :
    Alike allowed Eq (literalSql v) (literalSql v.withoutData) := by
  cases v with
  | null | bool | int => exact .pure rfl
  | float x =>
      simp only [Value.withoutData, literalSql]
      split
      · exact .pure rfl
      · exact .fail _ _
  | text s =>
      rw [Value.withoutData]
      split
      · rename_i hdata
        rw [literalSql, Value.erased, literalSql, stringSql_of_data hdata,
          stringSql_of_data (by decide)]
        exact liftPlaceholder_alike _ _
      · exact stringSql_refl s

theorem fieldSql_refl (d : Dialect) (scope : Scope) (name : String) :
    Alike allowed Eq (fieldSql d scope name) (fieldSql d scope name) :=
  (Alike.ofExcept _).bindEq fun _ => .pure rfl

theorem paramSql_refl (name : String) : Alike allowed Eq (paramSql name) (paramSql name) := by
  unfold paramSql
  split
  · exact .pure rfl
  · exact .fail _ _

variable {ν : Type} {g g' : ν → Build Sql}

theorem shorthandCondition_alike (d : Dialect) (scope : Scope) (name : String) (v : FieldValue ν)
    (hv : ∀ q ∈ v.subquery?, Alike allowed Eq (g q) (g' q)) :
    Alike allowed (Fragment.Alike allowed) (shorthandCondition d scope name (v.map g))
      (shorthandCondition d scope name (v.withoutData.map g')) := by
  have htarget : Fragment.Alike allowed (shorthandCondition.target d scope name)
      (shorthandCondition.target d scope name) := .leaf (fieldSql_refl d scope name)
  have hnull : Alike allowed (Fragment.Alike allowed)
      (pure (application d "IS NULL" name [shorthandCondition.target d scope name]))
      (pure (application d "IS NULL" name [shorthandCondition.target d scope name])) :=
    .pure (application_alike (.cons htarget .nil) d _ _ _)
  have hvalue : ∀ v v', Alike allowed (Fragment.Alike allowed)
      (liftPlaceholder v >>= fun placeholder => pure (application d "=" name
        [shorthandCondition.target d scope name, .leaf (pure placeholder)]))
      (liftPlaceholder v' >>= fun placeholder => pure (application d "=" name
        [shorthandCondition.target d scope name, .leaf (pure placeholder)])) := by
    intro v v'
    refine (liftPlaceholder_alike v v').bindEq fun placeholder => .pure ?_
    exact application_alike (.cons htarget (.cons (.leaf (.pure rfl)) .nil)) d _ _ _
  match v with
  | .null | .value .null | .list [] => exact hnull
  | .value (.bool _) | .value (.int _) | .value (.float _) | .value (.text _) => exact hvalue _ _
  | .list (first :: rest) =>
      have hitems : List.Forall₂ (fun v v' => Alike allowed Eq (liftPlaceholder v)
          (liftPlaceholder v')) (first :: rest) ((first :: rest).map fun _ => Value.erased) :=
        List.forall₂_map_right_iff.mpr (List.forall₂_same.mpr fun v _ => liftPlaceholder_alike v _)
      refine (Alike.mapM_eq hitems).bindEq fun placeholders => .pure ?_
      refine application_alike (.cons htarget ?_) d _ _ _
      exact List.forall₂_map_left_iff.mpr (List.forall₂_map_right_iff.mpr
        (List.forall₂_same.mpr fun _ _ => .leaf (.pure rfl)))
  | .subquery q =>
      have hq : Alike allowed Eq (g q) (g' q) := hv q rfl
      exact .pure (application_alike (.cons htarget (.cons (.nested hq) .nil)) d _ _ _)

theorem Expr.fragments_eq_map (d : Dialect) (scope : Scope) (es : List (Expr (Build Sql))) :
    fragments d scope es = es.map (fragment d scope) := by
  induction es with
  | nil => rfl
  | cons e rest ih => rw [fragments, ih, List.map_cons]

theorem Expr.fragment_alike (d : Dialect) (scope : Scope) (e : Expr ν)
    (h : ∀ q ∈ e.subqueries, Alike allowed Eq (g q) (g' q)) :
    Fragment.Alike allowed ((e.map g).fragment d scope)
      ((e.withoutData.map g').fragment d scope) := by
  induction e using Expr.induct with
  | literal v => exact .leaf (literalSql_alike v)
  | field name label => exact .leaf (fieldSql_refl d scope name)
  | param name => exact .leaf (paramSql_refl name)
  | subquery q => exact .nested (h q List.mem_cons_self)
  | op name operands ih =>
      simp only [map, withoutData, fragment, maps_eq_map, allWithoutData_eq_map, fragments_eq_map,
        List.map_map]
      refine application_alike ?_ d _ _ _
      rw [List.forall₂_map_left_iff, List.forall₂_map_right_iff, List.forall₂_same]
      intro e he
      refine ih e he fun q hq => h q ?_
      rw [subqueries, subqueriesOf_eq_flatMap]
      exact List.mem_flatMap.mpr ⟨e, he, hq⟩
  | call name args ih =>
      simp only [map, withoutData, fragment, maps_eq_map, allWithoutData_eq_map, fragments_eq_map,
        List.map_map]
      refine .leaf (callSql_alike ?_ name)
      rw [List.forall₂_map_left_iff, List.forall₂_map_right_iff, List.forall₂_same]
      intro e he
      refine ih e he fun q hq => h q ?_
      rw [subqueries, subqueriesOf_eq_flatMap]
      exact List.mem_flatMap.mpr ⟨e, he, hq⟩
  | shorthand pairs =>
      refine ⟨rfl, rfl, fun context => ?_⟩
      have hpairs : List.Forall₂ (fun pair pair' => Alike allowed (Fragment.Alike allowed)
          (shorthandCondition d scope pair.1 pair.2) (shorthandCondition d scope pair'.1 pair'.2))
          (pairs.map fun pair => (pair.1, pair.2.map g))
          (pairs.map fun pair => (pair.1, pair.2.withoutData.map g')) := by
        rw [List.forall₂_map_left_iff, List.forall₂_map_right_iff, List.forall₂_same]
        intro pair hpair
        refine shorthandCondition_alike d scope pair.1 pair.2 fun q hq => h q ?_
        exact List.mem_filterMap.mpr ⟨pair, hpair, hq⟩
      simp only [map, withoutData, fragment, List.map_map]
      exact (Alike.mapM hpairs).bind fun _ _ hfragments => applicationSql_alike hfragments d _ _ _ _

/-- Without its data an expression is compiled alike. -/
theorem Expr.sql_alike (d : Dialect) (scope : Scope) (e : Expr ν)
    (h : ∀ q ∈ e.subqueries, Alike allowed Eq (g q) (g' q)) :
    Alike allowed Eq ((e.map g).sql d scope) ((e.withoutData.map g').sql d scope) :=
  (e.fragment_alike d scope h).sql _

end QueryCompiler
