import QueryCompiler.Proofs.OperatorName
import QueryCompiler.Proofs.ParameterSafety
import QueryCompiler.Proofs.StatementAlike
import QueryCompiler.Proofs.TrueText

/-!
# Deleting every row

A deletion whose condition is the constant deletes every row. The compiler refuses the conditions
that are empty as a whole. Of the others without a constant, two kinds are folded to it all the
same: those that ask whether a value is missing from an empty list, and those that pass the text of
an empty condition on, as a disjunction does.
-/
namespace QueryCompiler

variable {ν μ : Type}

namespace Expr

/-- An expression, or one of its operands or arguments at any depth, has a property. -/
inductive Contains (P : Expr ν → Prop) : Expr ν → Prop
  | here {e : Expr ν} (h : P e) : Contains P e
  | operand {name : String} {operands : List (Expr ν)} {e : Expr ν} (he : e ∈ operands)
      (h : Contains P e) : Contains P (.op name operands)
  | argument {name : String} {args : List (Expr ν)} {e : Expr ν} (he : e ∈ args)
      (h : Contains P e) : Contains P (.call name args)

theorem contains_op {P : Expr ν → Prop} {name : String} {operands : List (Expr ν)} :
    (Expr.op name operands).Contains P ↔
      P (.op name operands) ∨ ∃ e ∈ operands, e.Contains P := by
  constructor
  · rintro (h | ⟨he, h⟩)
    · exact .inl h
    · exact .inr ⟨_, he, h⟩
  · rintro (h | ⟨e, he, h⟩)
    · exact .here h
    · exact .operand he h

/-- An expression without operands and arguments contains only itself. -/
theorem Contains.of_leaf {P : Expr ν → Prop} {e : Expr ν} (h : e.Contains P)
    (hop : ∀ name operands, e ≠ .op name operands) (hcall : ∀ name args, e ≠ .call name args) :
    P e := by
  cases h with
  | here h => exact h
  | operand => exact absurd rfl (hop _ _)
  | argument => exact absurd rfl (hcall _ _)

/-- The constant, as a value or as the operator without operands. -/
inductive IsTruth : Expr ν → Prop
  | literal : IsTruth (.literal (.bool true))
  | keyword {name : String} (h : Operator.canonical name = "TRUE") : IsTruth (.op name [])

/-- The test that a value is missing from an empty list. -/
inductive IsEmptyNotIn : Expr ν → Prop
  | intro {name : String} {subject : Expr ν} (h : Operator.canonical name = "NOT IN") :
      IsEmptyNotIn (.op name [subject])

/-- An operator that passes the text of an empty condition on: a disjunction with such an operand, or
an operator of arithmetic that has no other. -/
inductive PassesEmpty : Expr ν → Prop
  | disj {name : String} {operands : List (Expr ν)} {e : Expr ν}
      (h : Operator.canonical name = "OR") (he : e ∈ operands) (hempty : e.isVacuous = true) :
      PassesEmpty (.op name operands)
  | single {name : String} {e : Expr ν} (h : Operator.canonical name ∈ ["*", "+", "||"])
      (hempty : e.isVacuous = true) : PassesEmpty (.op name [e])

/-- There is no constant, and nothing that hides one. -/
structure Guarded (e : Expr ν) : Prop where
  truth : ¬ e.Contains IsTruth
  notIn : ¬ e.Contains IsEmptyNotIn
  passes : ¬ e.Contains PassesEmpty

theorem Guarded.operand {name : String} {operands : List (Expr ν)} {e : Expr ν}
    (h : (Expr.op name operands).Guarded) (he : e ∈ operands) : e.Guarded where
  truth hcontains := h.truth (.operand he hcontains)
  notIn hcontains := h.notIn (.operand he hcontains)
  passes hcontains := h.passes (.operand he hcontains)

/-- Where nothing hides a constant, only an empty condition is folded to it. -/
theorem FoldsToTrue.isVacuous {e : Expr ν} (h : e.FoldsToTrue) (hguarded : e.Guarded) :
    e.isVacuous = true := by
  induction h with
  | literal => exact absurd (.here .literal) hguarded.truth
  | keyword hname => exact absurd (.here (.keyword hname)) hguarded.truth
  | empty => rfl
  | notIn hname => exact absurd (.here (.intro hname)) hguarded.notIn
  | conj hname _ ih =>
      -- the name that is looked up as a conjunction is one for the guard, too
      have hword := Operator.trim_of_canonical hname (by decide) (by decide)
      rw [Expr.isVacuous, areVacuous_eq_all, Bool.and_eq_true, List.all_eq_true]
      refine ⟨by rw [Text.sameWord, hword]; decide +kernel, fun e he => ?_⟩
      exact ih e he (hguarded.operand he)
  | disj hname he _ ih =>
      exact absurd (.here (.disj hname he (ih (hguarded.operand he)))) hguarded.passes
  | single hname _ ih =>
      exact absurd (.here (.single hname (ih (hguarded.operand List.mem_cons_self)))) hguarded.passes

theorem FoldsToTrue.of_map {g : ν → μ} {e : Expr ν} (h : (e.map g).FoldsToTrue) :
    e.FoldsToTrue := by
  induction e using Expr.induct with
  | literal v =>
      cases h
      exact .literal
  | field name label | param name | call name args | subquery q => nomatch h
  | shorthand pairs =>
      generalize hmapped : (Expr.shorthand pairs).map g = mapped at h
      cases h with
      | empty =>
          obtain rfl : pairs = [] := by simpa [map] using hmapped
          exact .empty
      | literal | keyword | notIn | conj | disj | single => cases hmapped
  | op name operands ih =>
      rw [map, maps_eq_map] at h
      generalize hmapped : operands.map (map g) = mapped at h
      cases h with
      | keyword hname =>
          obtain rfl := List.map_eq_nil_iff.mp hmapped
          exact .keyword hname
      | notIn hname =>
          obtain ⟨e, rfl, -⟩ := List.map_eq_singleton_iff.mp hmapped
          exact .notIn hname
      | conj hname hall =>
          subst hmapped
          exact .conj hname fun e he => ih e he (hall _ (List.mem_map_of_mem he))
      | disj hname he htrue =>
          subst hmapped
          obtain ⟨e, hmem, rfl⟩ := List.mem_map.mp he
          exact .disj hname hmem (ih e hmem htrue)
      | single hname htrue =>
          obtain ⟨e, rfl, rfl⟩ := List.map_eq_singleton_iff.mp hmapped
          exact .single hname (ih e List.mem_cons_self htrue)

end Expr

/-- How a table is introduced under its label. -/
def Dialect.tableText (d : Dialect) (name : String) (label : Option String) : String :=
  match label with
  | some label => if label = name then d.dotted name else d.dotted name ++ " " ++ d.labelName label
  | none => d.dotted name

theorem TableRef.sql_of_name (d : Dialect) {t : TableRef (Build Sql)} {name : String}
    (h : t.name? = some name) (label : Option String) :
    ∃ sql : Sql, t.sql d label = pure sql ∧ sql.render = d.tableText name label := by
  obtain ⟨source, written, info⟩ := t
  cases source with
  | subquery build => cases h
  | table _ =>
      cases h
      match label with
      | none => exact ⟨_, rfl, Sql.render_ofString _⟩
      | some label =>
          simp only [TableRef.sql, Dialect.tableText]
          split
          · exact ⟨_, rfl, Sql.render_ofString _⟩
          · exact ⟨_, rfl, by simp⟩

namespace Labels

/-- A named table that is alone keeps the label that was written, or has none. -/
theorem primary_of_single {s : Statement ν} {t : TableRef ν} {name : String} {labels : Labels}
    (htables : s.tables = [t]) (hjoins : s.joins = []) (hname : t.name? = some name)
    (h : resolve s = .ok labels) : labels.primary = t.label := by
  have hall : s.allTables = [t] := by rw [Statement.allTables, htables, hjoins]; rfl
  have hassign : ∀ taken, assign false taken [t] = [t.label] := by
    intro taken
    cases hlabel : t.label <;> simp [assign, hlabel, needsLabel, hname]
  cases htaken : reserve [] [t] with
  | error fault => simp [resolve, hall, htaken, bind, Except.bind] at h
  | ok taken =>
      have hlabels : (⟨[t.label], [], false⟩ : Labels) = labels := by
        simpa [resolve, hall, htables, hjoins, htaken, hassign, bind, Except.bind, pure,
          Except.pure] using h
      rw [← hlabels]
      rfl

end Labels

namespace Statement

/-- A deletion is compiled only with a condition that is not empty, and is the table and the text of
that condition. -/
theorem deleteSql_ensures (b : Builtin) (s : Statement (Build Sql)) :
    (s.deleteSql b.dialect).Ensures (fun _ _ => True) fun sql =>
      ∃ t name filter condition, s.tables = [t] ∧ t.name? = some name ∧ s.filter = some filter ∧
        filter.isVacuous = false ∧ (condition = "TRUE" → filter.FoldsToTrue) ∧
        sql.render = "DELETE FROM " ++ b.dialect.tableText name t.label ++ " WHERE " ++ condition := by
  refine (Build.Ensures.ofExcept fun _ h => target_spec h).bind ?_
  rintro ⟨t, name⟩ ⟨hmem, hname⟩
  dsimp only
  split
  · exact True.intro
  · rename_i hsingle
    simp only [Bool.or_eq_true, decide_eq_true_eq, Bool.not_eq_true', not_or, Nat.not_lt,
      Bool.not_eq_false, List.isEmpty_iff] at hsingle
    obtain ⟨htables, hjoins⟩ := hsingle
    split
    · exact True.intro
    · rename_i filter hfilter
      split
      · exact True.intro
      · rename_i hvacuous
        refine (Build.Ensures.ofExcept fun _ h => h).bind fun labels hlabels => ?_
        obtain ⟨table, htable, htext⟩ := TableRef.sql_of_name b.dialect hname labels.primary
        have hsingle : s.tables = [t] := by
          obtain ⟨first, hfirst⟩ := List.length_eq_one_iff.mp
            (Nat.le_antisymm htables (List.length_pos_of_mem hmem))
          rw [hfirst, List.mem_singleton] at hmem
          rw [hfirst, ← hmem]
        rw [htable]
        rw [Labels.primary_of_single hsingle hjoins hname hlabels] at htext
        refine (filter.fragment_true b labels.scope Operator.loosest).bind fun condition htrue => ?_
        refine .pure ⟨t, name, filter, condition.render, hsingle, hname, hfilter,
          by simpa using hvacuous, htrue, ?_⟩
        simp [htext]

end Statement

namespace Query

/-- A deletion whose condition neither contains the constant nor hides one is never compiled to a
statement whose condition is the constant. -/
theorem compile_delete_condition (b : Builtin) {q : Query} {filter : Expr Query} {c : Compiled}
    (hkind : q.statement.kind = .delete) (hfilter : q.statement.filter = some filter)
    (htruth : ¬ filter.Contains Expr.IsTruth) (hnotIn : ¬ filter.Contains Expr.IsEmptyNotIn)
    (hpasses : ¬ filter.Contains Expr.PassesEmpty) (h : q.compileWith b.dialect = .ok c) :
    ∃ t name condition, q.statement.tables = [t] ∧ t.name? = some name ∧ condition ≠ "TRUE" ∧
      c.sql = "DELETE FROM " ++ b.dialect.tableText name t.label ++ " WHERE " ++ condition := by
  obtain ⟨sql, hwritten, hsql⟩ := written_of_compileWith h
  obtain ⟨reserved, after, -, hrun, -⟩ := run_compileSteps hwritten
  have hprepared : (prepared b.dialect q.statement).sql b.dialect =
      (q.statement.map (fold (nestedStep b.dialect))).deleteSql b.dialect := by
    rw [prepared, foldStatement_eq_map, Statement.sql]
    simp only [Statement.map, hkind]
  rw [hprepared] at hrun
  obtain ⟨t', name, filter', condition, htables, hname, hfilter', hvacuous, htrue, htext⟩ :=
    (Statement.deleteSql_ensures b _).run (fun _ _ => True.intro) (by rw [hrun])
  obtain ⟨t, ht, rfl⟩ := List.map_eq_singleton_iff.mp htables
  rw [TableRef.name?_map] at hname
  rw [TableRef.label_map] at htext
  rw [Statement.map, hfilter, Option.map_some, Option.some.injEq] at hfilter'
  subst hfilter'
  refine ⟨t, name, condition, ht, hname, fun hcondition => ?_, hsql.trans htext⟩
  have hfolds := (htrue hcondition).of_map.isVacuous ⟨htruth, hnotIn, hpasses⟩
  rw [Expr.isVacuous_map, hfolds] at hvacuous
  cases hvacuous

/-- A deletion from a table of sessions. -/
def deletingSessions (filter : Expr Query) : Query :=
  mk Dialect.postgres Bag.empty
    { Statement.empty with
      kind := .delete
      tables := [.named "sessions"]
      filter := some filter }

theorem compile_delete_condition_session :
    ∃ c, (deletingSessions (.equal (.plainField "id") (.param "session"))).compileWith
        Builtin.sqlite.dialect = .ok c ∧
      ∃ (t : TableRef Query) (name condition : String), [TableRef.named "sessions"] = [t] ∧
        t.name? = some name ∧ condition ≠ "TRUE" ∧ c.sql = "DELETE FROM " ++
          Builtin.sqlite.dialect.tableText name t.label ++ " WHERE " ++ condition := by
  have hlacks : ∀ P : Expr Query → Prop,
      ¬ P (.equal (.plainField "id") (.param "session")) → ¬ P (.plainField "id") →
      ¬ P (.param "session") →
      ¬ (Expr.equal (.plainField "id") (.param "session")).Contains P := by
    intro P hequal hfield hparam hcontains
    obtain h | ⟨e, he, h⟩ := Expr.contains_op.mp hcontains
    · exact hequal h
    · obtain rfl | rfl : e = .plainField "id" ∨ e = .param "session" := by simpa using he
      · exact hfield (h.of_leaf nofun nofun)
      · exact hparam (h.of_leaf nofun nofun)
  cases hcompile : (deletingSessions (.equal (.plainField "id") (.param "session"))).compileWith
      Builtin.sqlite.dialect with
  | error fault =>
      have hok : ((deletingSessions (.equal (.plainField "id") (.param "session"))).compileWith
          Builtin.sqlite.dialect).isOk = true := by
        with_unfolding_all rfl
      rw [hcompile] at hok
      cases hok
  | ok c =>
      refine ⟨c, rfl, compile_delete_condition .sqlite rfl rfl ?_ ?_ ?_ hcompile⟩
      · exact hlacks _ nofun nofun nofun
      · exact hlacks _ nofun nofun nofun
      · refine hlacks _ (fun h => ?_) nofun nofun
        cases h with
        | disj h _ _ => exact absurd h (by decide +kernel)

/-- A disjunction of an empty condition, and a test for a value that is missing from an empty list,
delete every row without a constant. -/
theorem deletingSessions_sweeps :
    ¬ (Expr.disj [.shorthand []] : Expr Query).Contains Expr.IsTruth ∧
      (deletingSessions (.disj [.shorthand []])).compile.map (·.sql) =
        .ok "DELETE FROM sessions WHERE TRUE" ∧
      ¬ (Expr.op "NOT IN" [.plainField "id"] : Expr Query).Contains Expr.IsTruth ∧
      (deletingSessions (.op "NOT IN" [.plainField "id"])).compile.map (·.sql) =
        .ok "DELETE FROM sessions WHERE TRUE" := by
  refine ⟨fun h => ?_, by with_unfolding_all rfl, fun h => ?_, by with_unfolding_all rfl⟩
  · obtain h | ⟨e, he, h⟩ := Expr.contains_op.mp h
    · cases h
    · obtain rfl := List.mem_singleton.mp he
      cases h.of_leaf nofun nofun
  · obtain h | ⟨e, he, h⟩ := Expr.contains_op.mp h
    · cases h
    · obtain rfl := List.mem_singleton.mp he
      cases h.of_leaf nofun nofun

end Query

end QueryCompiler
