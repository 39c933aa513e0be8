import Mathlib.Tactic.FinCases
import QueryCompiler.Compile.Query
import QueryCompiler.Proofs.ConstantFolding
import QueryCompiler.Proofs.FoldedConstant
import QueryCompiler.Proofs.IdentifierText
import QueryCompiler.Proofs.LabelLaws
import QueryCompiler.Proofs.OperatorName
import QueryCompiler.Proofs.SqlReading
import QueryCompiler.Query.Edit

/-!
# Appended conditions

A condition that is appended to a conjunction becomes its last operand, where any other condition is
joined with it by a new conjunction. Both are compiled alike: a conjunction that nothing surrounds
may take in the operands of the one that is its first operand. The guard of deletions sees no
difference either.
-/
namespace QueryCompiler

variable {ν : Type}

/-- Two continuations that agree on all answers of a compilation. -/
theorem Build.Ensures.bind_congr {α β : Type} {P : α → Prop} {x : Build α} {f g : α → Build β}
    (hx : x.Ensures (fun _ _ => True) P) (h : ∀ a, P a → f a = g a) : x >>= f = x >>= g := by
  change x.bind f = x.bind g
  induction x with
  | done a => exact h a hx
  | fail fault => rfl
  | bindValue value next ih =>
      exact congrArg (bindValue value) (funext fun name => ih name (hx name True.intro))
  | takeIn bag next ih => exact congrArg (takeIn bag) (ih hx)

theorem Sql.intercalate_append (separator : String) {parts others : List Sql} (hparts : parts ≠ [])
    (hothers : others ≠ []) : intercalate separator (parts ++ others) =
      intercalate separator parts ++ separator ++ intercalate separator others := by
  induction parts with
  | nil => exact absurd rfl hparts
  | cons part rest ih =>
      cases rest with
      | nil =>
          obtain ⟨other, others, rfl⟩ := List.exists_cons_of_ne_nil hothers
          rfl
      | cons next rest =>
          have htail := ih (List.cons_ne_nil _ _)
          rw [List.cons_append] at htail
          rw [List.cons_append, List.cons_append, intercalate, htail, intercalate]
          simp only [append_assoc]

/-! Operands of a connective that stands inside another one. -/

section Operands

variable {d : Dialect} {op : Operator} {decider : Bool} {name : String} {context : Nat}
variable {fs gs : List Fragment}

/-- The operands that remain of two lists, one after the other, unless the first is decided. -/
theorem keptOperands_append (op : Operator) (fs gs : List Fragment) :
    keptOperands op (fs ++ gs) = keptOperands op fs >>= fun
      | none => pure none
      | some kept => Option.map (kept ++ ·) <$> keptOperands op gs := by
  induction fs with
  | nil =>
      rw [List.nil_append, keptOperands, pure_bind]
      simp
  | cons f rest ih =>
      rw [List.cons_append, keptOperands, keptOperands, ih, bind_assoc]
      refine congrArg _ (funext fun sql => ?_)
      split
      · rfl
      · rw [bind_assoc, bind_assoc]
        refine congrArg _ (funext fun kept => ?_)
        by_cases hneutral : neutral? op.name = some sql.render <;> cases kept <;>
          simp [hneutral, Function.comp_def]

/-- An operand that remains is no constant. -/
theorem keptOperands_unfolded (hop : op.decider? = some decider) (fs : List Fragment) :
    (keptOperands op fs).Ensures (fun _ _ => True) fun kept =>
      ∀ parts, kept = some parts → ∀ part ∈ parts, ¬ IsConstant part.1.render := by
  induction fs with
  | nil => exact .pure fun _ h => Option.some.inj h ▸ fun _ hmem => absurd hmem List.not_mem_nil
  | cons f rest ih =>
      rw [keptOperands, op.absorbing_eq, op.neutral_eq, hop]
      refine (Build.Ensures.trivial _).bind fun sql _ => ?_
      split
      · refine .pure fun parts hparts => ?_
        cases hparts
      · rename_i habsorbing
        refine ih.bind fun kept hkept => .pure ?_
        split
        · exact hkept
        · rename_i hneutral
          intro parts hparts
          obtain ⟨others, rfl, rfl⟩ := Option.map_eq_some_iff.mp hparts
          refine List.forall_mem_cons.mpr ⟨?_, hkept _ rfl⟩
          rintro (htext | htext) <;> cases decider <;>
            simp_all [boolWord]

/-- The text of a connective, from what remains of its operands. -/
def wholeSql (op : Operator) (name : String) (context : Nat) : Option (List (Sql × Bool)) → Sql
  | none => (absorbing? op.name).getD "NULL"
  | some parts => joinOperands op name context parts

theorem variadicSql_eq (d : Dialect) (op : Operator) (fs : List Fragment) (context : Nat) :
    variadicSql d op fs context =
      spelling d op >>= fun name => wholeSql op name context <$> keptOperands op fs := by
  rw [variadicSql]
  refine congrArg _ (funext fun name => ?_)
  rw [map_eq_pure_bind]
  refine congrArg _ (funext fun kept => ?_)
  cases kept <;> rfl

/-- In a context that is no tighter there are no parentheses around the operands. -/
theorem joinOperands_loose (h : op.rank ≤ context) {parts : List (Sql × Bool)} (hne : parts ≠ []) :
    joinOperands op name context parts =
      Sql.intercalate (" " ++ name ++ " ") (parts.map (·.1)) := by
  have hwrap : ∀ sql, Operator.wrap op.rank context sql = sql :=
    fun _ => if_neg (Nat.not_lt.mpr h)
  match parts with
  | [] => exact absurd rfl hne
  | [(sql, atomic)] => simp [joinOperands, hwrap, Sql.intercalate]
  | _ :: _ :: _ => exact hwrap _

/-- Operands that are no constants are joined to none. -/
theorem joinOperands_unfolded {parts : List (Sql × Bool)} (hne : parts ≠ [])
    (hparts : ∀ part ∈ parts, ¬ IsConstant part.1.render) :
    ¬ IsConstant (joinOperands op name context parts).render := by
  match parts with
  | [] => exact absurd rfl hne
  | [(sql, atomic)] =>
      have hsql : ¬ IsConstant sql.render := hparts _ List.mem_cons_self
      rw [joinOperands]
      split
      · exact hsql
      · exact wrap_not_constant hsql _ _
  | part :: next :: rest => exact joinOperands_several op name context part next rest

/-- The operands of a connective may be joined first, if nothing tighter surrounds the whole. -/
theorem joinOperands_nested (h : op.rank ≤ context) {parts : List (Sql × Bool)} (hne : parts ≠ [])
    (atomic : Bool) (others : List (Sql × Bool)) :
    joinOperands op name context ((joinOperands op name op.rank parts, atomic) :: others) =
      joinOperands op name context (parts ++ others) := by
  rw [joinOperands_loose h (List.cons_ne_nil _ _), joinOperands_loose (Nat.le_refl _) hne,
    joinOperands_loose h (List.append_ne_nil_of_left_ne_nil hne _), List.map_cons, List.map_append]
  cases others with
  | nil => rw [List.map_nil, List.append_nil, Sql.intercalate]
  | cons other others =>
      rw [Sql.intercalate_append _ (by simpa using hne) (by simp)]
      rfl

/-- A connective that is the first operand of the same one passes its operands on, if nothing
tighter surrounds the whole. -/
theorem variadicSql_nested (hop : op.decider? = some decider) (h : op.rank ≤ context)
    {nested : Fragment} (hnested : nested.sql op.rank = variadicSql d op fs op.rank) :
    variadicSql d op (nested :: gs) context = variadicSql d op (fs ++ gs) context := by
  have habsorbing : absorbing? op.name = some (boolWord decider) := by
    rw [op.absorbing_eq, hop]
    rfl
  have hneutral : neutral? op.name = some (boolWord !decider) := by rw [op.neutral_eq, hop]; rfl
  rw [variadicSql_eq, variadicSql_eq, keptOperands, hnested, variadicSql_eq, keptOperands_append,
    habsorbing, hneutral]
  cases hspelling : d.spelling op.name with
  | error fault =>
      rw [spelling, hspelling]
      rfl
  | ok name =>
      have hname : spelling d op = pure name := by rw [spelling, hspelling]; rfl
      simp only [hname, pure_bind, map_eq_pure_bind, bind_assoc]
      refine (keptOperands_unfolded hop fs).bind_congr fun kept hkept => ?_
      cases kept with
      | none => simp [wholeSql, habsorbing]
      | some parts =>
          cases parts with
          | nil =>
              have hdistinct : boolWord decider ≠ boolWord !decider := by cases decider <;> decide
              simp [wholeSql, joinOperands_empty _ _ _ hop, hdistinct]
          | cons part rest =>
              have hconstant :
                  ¬ IsConstant (wholeSql op name op.rank (some (part :: rest))).render :=
                joinOperands_unfolded (List.cons_ne_nil part rest) (hkept _ rfl)
              have hother : ∀ v, some (boolWord v) ≠
                  some (wholeSql op name op.rank (some (part :: rest))).render := by
                intro v hv
                refine hconstant ?_
                rw [← Option.some.inj hv]
                cases v <;> decide
              simp only [if_neg (hother _), bind_assoc, pure_bind]
              refine congrArg _ (funext fun more => congrArg _ ?_)
              cases more with
              | none => rfl
              | some others => exact joinOperands_nested h (List.cons_ne_nil _ _) _ _

end Operands

/-! Conjunctions in upper or lower case. -/

namespace Operator

/-- A name that is the word for conjunctions, in upper or lower case, has no blanks. -/
theorem words_of_sameWord {name : String} (h : Text.sameWord name "AND" = true) :
    Text.words Text.isBlank name = [name] := by
  have hupper : name.toUpper = "AND" := (beq_iff_eq.mp h).trans (by decide +kernel)
  have hchars : name.toList.map Char.toUpper = ['A', 'N', 'D'] := by
    rw [← String.toList_map]
    exact congrArg String.toList hupper
  have hblank : ∀ c ∈ name.toList, Text.isBlank c = false := by
    intro c hc
    rw [← Bool.not_eq_true]
    intro hblank
    have hsame : c.toUpper = c := by
      refine Text.toUpper_of_not_lower fun hlower => ?_
      simp only [Text.isBlank, Bool.or_eq_true, Bool.and_eq_true, decide_eq_true_eq,
        beq_iff_eq] at hblank
      omega
    have hmem : c ∈ ['A', 'N', 'D'] := hsame ▸ hchars ▸ List.mem_map_of_mem hc
    revert hblank
    fin_cases hmem <;> decide
  have hne : name.toList.isEmpty = false := by
    rw [← List.isEmpty_map (f := Char.toUpper), hchars]
    rfl
  rw [Text.words, Text.partsWhere_of_uncut hblank, List.filter_singleton, hne]
  simp

theorem canonical_of_sameWord {name : String} (h : Text.sameWord name "AND" = true) :
    canonical name = "AND" := by
  rw [canonical, words_of_sameWord h, List.map_singleton, String.intercalate_singleton]
  exact (beq_iff_eq.mp h).trans (by decide +kernel)

end Operator

namespace Expr

variable {d : Dialect} {scope : Scope}

/-- A conjunction is compiled as a variadic operator, whatever the case of its name. -/
theorem conj_sqlIn {name : String} (h : Operator.canonical name = "AND")
    (operands : List (Expr (Build Sql))) (context : Nat) :
    (op name operands).sqlIn d scope context =
      variadicSql d Connective.conj.operator (operands.map (fragment d scope)) context := by
  have hfind : Operator.find? name = some Connective.conj.operator :=
    Operator.find?_of_canonical (by decide) h
  rw [sqlIn, fragment, fragments_eq_map]
  simp only [application, applicationSql, hfind]
  rfl

/-- The condition that a statement has after another one was appended. -/
theorem joined_some (e condition : Expr ν) :
    Statement.joined (some e) condition = conj [e, condition] ∨
      ∃ name operands, Text.sameWord name "AND" = true ∧ e = op name operands ∧
        Statement.joined (some e) condition = op name (operands ++ [condition]) := by
  cases e with
  | op name operands =>
      rw [Statement.joined]
      split
      · exact .inr ⟨name, operands, ‹_›, rfl, rfl⟩
      · exact .inl rfl
  | literal | field | param | call | subquery | shorthand => exact .inl rfl

theorem joined_sql (e condition : Expr (Build Sql)) :
    (Statement.joined (some e) condition).sql d scope = (conj [e, condition]).sql d scope := by
  obtain h | ⟨name, operands, hname, rfl, h⟩ := joined_some e condition
  · rw [h]
  · have hcanonical := Operator.canonical_of_sameWord hname
    rw [h, sql, sql, conj, conj_sqlIn hcanonical, conj_sqlIn (by decide +kernel), List.map_append]
    exact (variadicSql_nested rfl (by decide) (conj_sqlIn hcanonical operands _)).symm

theorem joined_isVacuous (e condition : Expr ν) :
    (Statement.joined (some e) condition).isVacuous = (conj [e, condition]).isVacuous := by
  obtain h | ⟨name, operands, hname, rfl, h⟩ := joined_some e condition
  · rw [h]
  · have htrim : Text.trim Text.isBlank name = name :=
      Text.trim_of_words (Operator.words_of_sameWord hname)
    have hconj : Text.sameWord (Text.trim Text.isBlank "AND") "AND" = true := by decide +kernel
    rw [h, conj]
    simp [isVacuous, areVacuous_eq_all, htrim, hname, hconj, List.all_append]

theorem joined_subqueries (e condition : Expr ν) :
    (Statement.joined (some e) condition).subqueries = (conj [e, condition]).subqueries := by
  obtain h | ⟨name, operands, hname, rfl, h⟩ := joined_some e condition
  · rw [h]
  · rw [h, conj]
    simp [subqueries, subqueriesOf_eq_flatMap]

theorem joined_map {μ : Type} (g : ν → μ) (e condition : Expr ν) :
    (Statement.joined (some e) condition).map g =
      Statement.joined (some (e.map g)) (condition.map g) := by
  cases e with
  | op name operands =>
      rw [map, Statement.joined, Statement.joined]
      split <;> simp [map, maps_eq_map, conj]
  | literal | field | param | call | subquery | shorthand =>
      simp [Statement.joined, map, maps, conj]

end Expr

namespace Statement

/-- A statement knows its condition only by its text and by whether it is empty. -/
theorem sql_setFilter_congr (d : Dialect) (s : Statement (Build Sql)) {e e' : Expr (Build Sql)}
    (hsql : ∀ scope, e.sql d scope = e'.sql d scope) (hvacuous : e.isVacuous = e'.isVacuous) :
    (s.setFilter e).sql d = (s.setFilter e').sql d := by
  have hclause : ∀ scope word, conditionClause d scope word (some e) =
      conditionClause d scope word (some e') := by
    intro scope word
    rw [conditionClause, conditionClause, hsql]
  obtain ⟨kind, _, _, _, _, _, _, _, _, _, _, _, _⟩ := s
  cases kind with
  | insert => rfl
  | select =>
      simp only [sql, setFilter, selectSql, hclause]
      rfl
  | update =>
      simp only [sql, setFilter, updateSql, hclause]
      rfl
  | delete =>
      simp only [sql, setFilter, deleteSql, hsql, hvacuous]
      rfl

end Statement

namespace Query

/-- What a query is compiled to depends on its condition by the queries nested in it, its text and
whether it is empty. -/
theorem compileWith_setFilter_congr (d : Dialect) (q : Query) {e e' : Expr Query}
    (hsubqueries : e.subqueries = e'.subqueries)
    (hsql : ∀ scope, (e.map (fold (nestedStep d))).sql d scope =
      (e'.map (fold (nestedStep d))).sql d scope) (hvacuous : e.isVacuous = e'.isVacuous) :
    (q.edit (·.setFilter e)).compileWith d = (q.edit (·.setFilter e')).compileWith d := by
  have hbags : (q.edit (·.setFilter e)).nestedBags = (q.edit (·.setFilter e')).nestedBags := by
    simp only [nestedBags, subqueries, edit, statement, Statement.setFilter, Statement.subqueries,
      Statement.allTables, Statement.exprs, List.flatMap_append, Option.toList_some,
      List.flatMap_singleton, hsubqueries]
  have hprepared : (prepared d (q.statement.setFilter e)).sql d =
      (prepared d (q.statement.setFilter e')).sql d := by
    rw [prepared, prepared, foldStatement_eq_map, foldStatement_eq_map]
    exact Statement.sql_setFilter_congr d (q.statement.map (fold (nestedStep d))) hsql
      (by rw [Expr.isVacuous_map, Expr.isVacuous_map, hvacuous])
  have hsteps : compileSteps d (q.edit (·.setFilter e)) =
      compileSteps d (q.edit (·.setFilter e')) := by
    rw [compileSteps, compileSteps, hbags]
    exact congrArg _ (funext fun _ => hprepared)
  rw [compileWith, compileWith, written, written, hsteps]
  rfl

/-- Appending a condition to the one of a query is compiled like joining both by a conjunction: to
the same text with the same parameters, or with the same fault. -/
theorem compile_andFilter_eq_conj (d : Dialect) {q : Query} {e : Expr Query}
    (h : q.statement.filter = some e) (condition : Expr Query) :
    (q.edit (·.andFilter condition)).compileWith d =
      (q.edit (·.setFilter (.conj [e, condition]))).compileWith d := by
  have happend : q.edit (·.andFilter condition) =
      q.edit (·.setFilter (Statement.joined (some e) condition)) := by
    rw [edit, edit, Statement.andFilter, h, Statement.setFilter]
  rw [happend]
  refine compileWith_setFilter_congr d q (Expr.joined_subqueries e condition) (fun scope => ?_)
    (Expr.joined_isVacuous e condition)
  rw [Expr.joined_map, Expr.joined_sql]
  simp only [Expr.map, Expr.conj, Expr.maps]

/-- A selection of tickets, with a condition of which one part is the constant. -/
def openTickets : Query :=
  mk Dialect.postgres Bag.empty
    { Statement.empty with
      tables := [.named "tickets"]
      filter := some (.op "and" [.plainField "seen", .truth]) }

theorem compile_andFilter_eq_conj_tickets :
    openTickets.statement.filter = some (.op "and" [.plainField "seen", .truth]) ∧
      (openTickets.edit (·.andFilter (.disj [.plainField "old", .param "all"]))).compileWith
          Dialect.mysql =
        (openTickets.edit (·.setFilter (.conj
          [.op "and" [.plainField "seen", .truth],
            .disj [.plainField "old", .param "all"]]))).compileWith Dialect.mysql ∧
      ((openTickets.edit (·.andFilter (.disj [.plainField "old", .param "all"]))).compileWith
          Dialect.mysql).toOption.map Compiled.sql =
        some "SELECT * FROM tickets WHERE seen AND (old OR :all)" := by
  have hfilter : openTickets.statement.filter =
      some (.op "and" [.plainField "seen", .truth]) := rfl
  have hsame := compile_andFilter_eq_conj Dialect.mysql hfilter
    (.disj [.plainField "old", .param "all"])
  refine ⟨hfilter, hsame, ?_⟩
  rw [hsame]
  decide +kernel

end Query

end QueryCompiler
