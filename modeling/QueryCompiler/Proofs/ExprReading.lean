import QueryCompiler.Compile.Expr
import QueryCompiler.Proofs.BuildEnsures
import QueryCompiler.Proofs.DialectReading
import QueryCompiler.Proofs.ExprAlike
import QueryCompiler.Proofs.IdentifierText
import QueryCompiler.Proofs.PlainNames

/-!
# Expressions are read back

A plain expression is written safely in a tame dialect: the scan for placeholders finds what the
compiler put there and nothing else.
-/
namespace QueryCompiler

open Sql (Safe safe_text)

/-! Names. -/

section Names

variable {d : Dialect} (hd : d.Tame)

include hd

theorem calm_dotted {name : String} (h : IsPlain name) : Calm (d.dotted name) :=
  hd.composes.dotted fun part hpart hverbatim => by simp [h.2 part hpart] at hverbatim

theorem calm_fieldName (scope : Scope) {name : String} (h : IsPlain name) :
    Calm (d.fieldName scope name) :=
  hd.composes.fieldName scope (fun hverbatim => by simp [h.1] at hverbatim)
    fun _ part hpart hverbatim => by simp [h.2 part hpart] at hverbatim

theorem calm_labelName {label : String} (h : Field.isVerbatim label = false) :
    Calm (d.labelName label) :=
  hd.composes.labelName fun hverbatim => by simp [h] at hverbatim

end Names

theorem calm_function {name : String} (h : (Text.dotParts name).all Text.isIdentifier = true) :
    Calm name.toUpper := by
  refine calm_of_harmless fun c hc => ?_
  obtain rfl | hpart := Text.mem_toUpper_function h hc
  · decide
  · exact harmless_of_identifierPart hpart

/-! Expressions. -/

/-- A fragment that is written safely in every context. -/
def Fragment.Safe (H : String → Value → Prop) (f : Fragment) : Prop :=
  ∀ context, (f.sql context).Ensures H (Sql.Safe H)

section Expressions

variable {H : String → Value → Prop} {d : Dialect} {fs : List Fragment}

theorem Fragment.safe_alone (h : ∀ f ∈ fs, f.Safe H) :
    (alone fs).Ensures H fun sqls => ∀ sql ∈ sqls, Sql.Safe H sql :=
  .mapM fun f hf => h f hf _

theorem safe_parenthesized {build : Build Sql} (h : build.Ensures H (Safe H)) :
    (parenthesized build).Ensures H (Safe H) :=
  h.bind fun _ hsql => .pure hsql.parenthesized

theorem ensures_spelling (hd : d.Tame) {op : Operator} (hop : op ∈ Operator.all) :
    (spelling d op).Ensures H Calm := by
  refine .ofExcept fun name hname => ?_
  unfold Dialect.spelling at hname
  split at hname
  · rename_i spelled hspelled
    cases hname
    exact hd.operatorName op hop _ hspelled
  · cases hname

theorem ensures_keptOperands (op : Operator) (h : ∀ f ∈ fs, f.Safe H) :
    (keptOperands op fs).Ensures H fun kept =>
      ∀ parts ∈ kept, ∀ part ∈ parts, Safe H part.1 := by
  induction fs with
  | nil => exact .pure (by simp)
  | cons f rest ih =>
      refine (h f List.mem_cons_self _).bind fun sql hsql => ?_
      split
      · exact .pure (by simp)
      · refine (ih fun f hf => h f (List.mem_cons_of_mem _ hf)).bind fun kept hkept => .pure ?_
        split
        · exact hkept
        · intro parts hparts part hpart
          obtain ⟨others, hothers, rfl⟩ := Option.map_eq_some_iff.mp hparts
          obtain rfl | hmem := List.mem_cons.mp hpart
          · exact hsql
          · exact hkept others hothers part hmem

theorem calm_identity (op : Operator) : Calm ((Operator.identity? op.name).getD "NULL") := by
  unfold Operator.identity?
  split <;> decide

theorem calm_absorbing (op : Operator) : Calm ((absorbing? op.name).getD "NULL") := by
  unfold absorbing?
  split <;> decide

theorem safe_joinOperands (op : Operator) {name : String} (hname : Calm name) (context : Nat)
    {parts : List (Sql × Bool)} (h : ∀ part ∈ parts, Safe H part.1) :
    Safe H (joinOperands op name context parts) := by
  match parts with
  | [] => exact safe_text (calm_identity op)
  | [(sql, atomic)] =>
      have hsql : Safe H sql := h (sql, atomic) List.mem_cons_self
      simp only [joinOperands]
      split
      · exact hsql
      · exact hsql.wrap _ _
  | first :: second :: rest =>
      have hseparator : Trailing (" " ++ name ++ " ") :=
        trailing_word (trailing_word (by decide) (by decide) hname) (by simp) (by decide)
      refine Safe.wrap (Sql.safe_intercalate hseparator.1 (by simp) hseparator.2 ?_) _ _
      intro sql hsql
      obtain ⟨part, hpart, rfl⟩ := List.mem_map.mp hsql
      exact h part hpart

theorem safe_variadicSql (hd : d.Tame) {op : Operator} (hop : op ∈ Operator.all)
    (h : ∀ f ∈ fs, f.Safe H) (context : Nat) :
    (variadicSql d op fs context).Ensures H (Safe H) := by
  refine (ensures_spelling hd hop).bind fun name hname => ?_
  refine (ensures_keptOperands op h).bind fun kept hkept => ?_
  cases kept with
  | none => exact .pure (safe_text (calm_absorbing op))
  | some parts => exact .pure (safe_joinOperands op hname context (hkept parts rfl))

theorem safe_membersSql (h : ∀ f ∈ fs, f.Safe H) : (membersSql fs).Ensures H (Safe H) := by
  have hlist : ∀ fs : List Fragment, (∀ f ∈ fs, f.Safe H) →
      (Fragment.alone fs >>= fun sqls =>
        pure ("(" ++ Sql.intercalate ", " sqls ++ ")") : Build Sql).Ensures H (Safe H) :=
    fun fs h => (Fragment.safe_alone h).bind fun sqls hsqls =>
      .pure (Sql.safe_commas hsqls).parenthesized
  match fs with
  | [] => exact hlist [] h
  | [f] =>
      refine (h f List.mem_cons_self _).bind fun sql hsql => .pure ?_
      split
      · exact hsql
      · exact hsql.parenthesized
  | first :: second :: rest => exact hlist _ h

theorem safe_between {left right : Sql} {name : String} (hleft : Safe H left) (hname : Calm name)
    (hright : Safe H right) : Safe H (left ++ " " ++ name ++ " " ++ right) := by
  simp only [Sql.append_assoc]
  refine hleft.append ?_ (Sql.breaks_text_append (by decide) (by decide))
  exact Safe.text_append (by decide) (Safe.text_append hname (Safe.text_append (by decide) hright))

theorem safe_inListSql (hd : d.Tame) {op : Operator} (hop : op ∈ Operator.all)
    {subject : Fragment} (hsubject : subject.Safe H) (h : ∀ f ∈ fs, f.Safe H) (context : Nat) :
    (inListSql d op subject fs context).Ensures H (Safe H) := by
  refine (ensures_spelling hd hop).bind fun name hname => ?_
  split
  · exact .pure (safe_text (calm_boolWord _))
  · refine (hsubject _).bind fun left hleft => (safe_membersSql h).bind fun right hright => ?_
    exact .pure ((safe_between hleft hname hright).wrap _ _)

theorem safe_vendorSql (hd : d.Tame) (op : Operator) (shown : String) (h : ∀ f ∈ fs, f.Safe H)
    (context : Nat) : (vendorSql d op shown fs context).Ensures H (Safe H) := by
  refine (Build.Ensures.mapM fun f hf => h f hf _).bind fun operands hoperands => ?_
  split
  · trivial
  · trivial
  · rename_i sql hsql
    exact .pure ((hd.markedVendorOperator H op.name operands sql hoperands hsql).wrap _ _)

theorem safe_operatorSql (hd : d.Tame) {op : Operator} (hop : op ∈ Operator.all) (shown : String)
    (h : ∀ f ∈ fs, f.Safe H) (context : Nat) :
    (operatorSql d op shown fs context).Ensures H (Safe H) := by
  unfold operatorSql
  split
  · exact (ensures_spelling hd hop).bind fun name hname => .pure (safe_text hname)
  · refine (ensures_spelling hd hop).bind fun name hname => ?_
    refine (h _ (by simp) _).bind fun sql hsql => .pure (Safe.wrap ?_ _ _)
    rw [Sql.append_assoc]
    exact Safe.text_append hname (Safe.text_append (by decide) hsql)
  · refine (ensures_spelling hd hop).bind fun name hname => ?_
    refine (h _ (by simp) _).bind fun sql hsql => .pure (Safe.wrap ?_ _ _)
    rw [Sql.append_assoc]
    refine hsql.append ?_ (Sql.breaks_text_append (by decide) (by decide))
    exact Safe.text_append (by decide) (safe_text hname)
  · refine (ensures_spelling hd hop).bind fun name hname => ?_
    refine (h _ (by simp) _).bind fun left hleft => (h _ (by simp) _).bind fun right hright => ?_
    exact .pure ((safe_between hleft hname hright).wrap _ _)
  · refine (ensures_spelling hd hop).bind fun name hname => ?_
    refine (h _ (by simp) _).bind fun subject hsubject => (h _ (by simp) _).bind fun low hlow =>
      (h _ (by simp) _).bind fun high hhigh => .pure (Safe.wrap ?_ _ _)
    rw [Sql.append_assoc]
    refine (safe_between hsubject hname hlow).append ?_
      (Sql.breaks_text_append (by decide) (by decide))
    exact Safe.text_append (by decide) hhigh
  · exact safe_variadicSql hd hop h context
  · exact safe_inListSql hd hop (h _ (by simp)) (fun f hf => h f (List.mem_cons_of_mem _ hf)) _
  · exact safe_vendorSql hd op shown h context
  · trivial

theorem safe_applicationSql (hd : d.Tame) (name shown : String) (h : ∀ f ∈ fs, f.Safe H)
    (context : Nat) : (applicationSql d name shown fs context).Ensures H (Safe H) := by
  unfold applicationSql
  split
  · trivial
  · rename_i op hop
    exact safe_operatorSql hd (Operator.find?_eq_some hop).1 shown h context

theorem safe_application (hd : d.Tame) (name shown : String) (h : ∀ f ∈ fs, f.Safe H) :
    (application d name shown fs).Safe H :=
  fun context => safe_applicationSql hd name shown h context

theorem safe_callSql (name : String) (h : ∀ f ∈ fs, f.Safe H) :
    (callSql name fs).Ensures H (Safe H) := by
  unfold callSql
  split
  · trivial
  · rename_i hname
    refine (Fragment.safe_alone h).bind fun args hargs => .pure ?_
    rw [Sql.append_assoc, Sql.append_assoc, ← Sql.append_assoc "("]
    exact Safe.text_append (calm_function (by simpa using hname))
      (Sql.safe_commas hargs).parenthesized

theorem safe_fieldSql (hd : d.Tame) (scope : Scope) {name : String} (h : IsPlainField name) :
    (fieldSql d scope name).Ensures H (Safe H) := by
  refine (Build.Ensures.ofExcept (P := fun field => IsPlain field.name)
    fun field hfield => (h field hfield).1).bind fun field hfield => ?_
  exact .pure (safe_text (calm_fieldName hd scope hfield))

theorem safe_paramSql (name : String) : (paramSql name).Ensures H (Safe H) := by
  unfold paramSql
  split
  · rename_i hname
    exact .pure (Sql.safe_mark hname)
  · trivial

variable (hH : ∀ name v, H name v → Text.isIdentifier name = true)

include hH

theorem safe_liftPlaceholder (v : Value) : (liftPlaceholder v).Ensures H (Safe H) :=
  (Build.Ensures.lift v).bind fun name hname =>
    .pure (Sql.safe_mark ⟨hH name v hname, v, hname⟩)

theorem safe_stringSql {s : String} (h : Text.startsWithAny ['\'', '('] s = false) :
    (stringSql s).Ensures H (Safe H) := by
  unfold stringSql
  split
  · rename_i mark hmark
    refine .pure (Sql.safe_mark ?_)
    unfold Mark.ofText? at hmark
    split at hmark
    · cases hmark
      trivial
    · split at hmark
      · rename_i hnamed
        cases hmark
        unfold Text.isNamedPlaceholder at hnamed
        split at hnamed
        · rename_i name hs
          simpa [Sql.Known, hs] using hnamed
        · cases hnamed
      · cases hmark
  · rw [h]
    exact safe_liftPlaceholder hH _

theorem safe_literalSql {v : Value}
    (h : ∀ s, v = .text s → Text.startsWithAny ['\'', '('] s = false) :
    (literalSql v).Ensures H (Safe H) := by
  cases v with
  | null => exact .pure (safe_text (by decide))
  | bool b => exact .pure (safe_text (calm_boolWord b))
  | int n => exact .pure (safe_text (calm_int n))
  | float x =>
      simp only [literalSql]
      split
      · exact .pure (safe_text (calm_floatText x))
      · trivial
  | text s => exact safe_stringSql hH (h s rfl)

variable {ν : Type} {g : ν → Build Sql} (hd : d.Tame)

include hd

theorem safe_shorthandCondition (scope : Scope) {name : String} (hname : IsPlainField name)
    (v : FieldValue ν) (hv : ∀ q ∈ v.subquery?, (g q).Ensures H (Safe H)) :
    (shorthandCondition d scope name (v.map g)).Ensures H (Fragment.Safe H) := by
  have htarget : (shorthandCondition.target d scope name).Safe H :=
    fun _ => safe_fieldSql hd scope hname
  have hleaf : ∀ sql, Safe H sql → (Fragment.leaf (pure sql)).Safe H :=
    fun sql hsql _ => .pure hsql
  have hnull : (pure (application d "IS NULL" name
      [shorthandCondition.target d scope name]) : Build Fragment).Ensures H (Fragment.Safe H) :=
    .pure (safe_application hd _ _ (by simpa using htarget))
  have hvalue : ∀ v, (liftPlaceholder v >>= fun placeholder => pure (application d "=" name
      [shorthandCondition.target d scope name, .leaf (pure placeholder)])).Ensures H
        (Fragment.Safe H) :=
    fun v => (safe_liftPlaceholder hH v).bind fun sql hsql =>
      .pure (safe_application hd _ _ (by simpa using ⟨htarget, hleaf sql hsql⟩))
  match v with
  | .null | .value .null | .list [] => exact hnull
  | .value (.bool _) | .value (.int _) | .value (.float _) | .value (.text _) => exact hvalue _
  | .list (first :: rest) =>
      refine (Build.Ensures.mapM fun v _ => safe_liftPlaceholder hH v).bind fun sqls hsqls => ?_
      refine .pure (safe_application hd _ _ (List.forall_mem_cons.mpr ⟨htarget, ?_⟩))
      intro f hf
      obtain ⟨sql, hsql, rfl⟩ := List.mem_map.mp hf
      exact hleaf sql (hsqls sql hsql)
  | .subquery q =>
      have hq : (g q).Ensures H (Safe H) := hv q rfl
      refine .pure (safe_application hd _ _ ?_)
      intro f hf
      obtain rfl | hf := List.mem_cons.mp hf
      · exact htarget
      · obtain rfl := List.mem_singleton.mp hf
        exact fun _ => safe_parenthesized hq

theorem Expr.safe_fragment (scope : Scope) {e : Expr ν} (he : e.Plain)
    (h : ∀ q ∈ e.subqueries, (g q).Ensures H (Sql.Safe H)) :
    ((e.map g).fragment d scope).Safe H := by
  induction e using Expr.induct with
  | literal v =>
      cases he with
      | literal hv => exact fun _ => safe_literalSql hH hv
  | field name label =>
      cases he with
      | field hname _ => exact fun _ => safe_fieldSql hd scope hname
  | param name => exact fun _ => safe_paramSql name
  | subquery q => exact fun _ => safe_parenthesized (h q List.mem_cons_self)
  | op name operands ih =>
      cases he with
      | op hoperands =>
          simp only [map, fragment, maps_eq_map, fragments_eq_map, List.map_map]
          refine safe_application hd _ _ fun f hf => ?_
          obtain ⟨e, he, rfl⟩ := List.mem_map.mp hf
          refine ih e he (hoperands e he) fun q hq => h q ?_
          rw [subqueries, subqueriesOf_eq_flatMap]
          exact List.mem_flatMap.mpr ⟨e, he, hq⟩
  | call name args ih =>
      cases he with
      | call hargs =>
          simp only [map, fragment, maps_eq_map, fragments_eq_map, List.map_map]
          refine fun _ => safe_callSql name fun f hf => ?_
          obtain ⟨e, he, rfl⟩ := List.mem_map.mp hf
          refine ih e he (hargs e he) fun q hq => h q ?_
          rw [subqueries, subqueriesOf_eq_flatMap]
          exact List.mem_flatMap.mpr ⟨e, he, hq⟩
  | shorthand pairs =>
      cases he with
      | shorthand hpairs =>
          intro context
          refine (Build.Ensures.mapM ?_).bind fun conditions hconditions =>
            safe_applicationSql hd _ _ hconditions context
          intro mapped hmapped
          obtain ⟨pair, hpair, rfl⟩ := List.mem_map.mp hmapped
          refine safe_shorthandCondition hH hd scope (hpairs pair hpair) pair.2 fun q hq => h q ?_
          exact List.mem_filterMap.mpr ⟨pair, hpair, hq⟩

theorem Expr.safe_sql (scope : Scope) {e : Expr ν} (he : e.Plain)
    (h : ∀ q ∈ e.subqueries, (g q).Ensures H (Sql.Safe H)) :
    ((e.map g).sql d scope).Ensures H (Sql.Safe H) :=
  Expr.safe_fragment hH hd scope he h _

end Expressions

end QueryCompiler
