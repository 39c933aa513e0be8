import QueryCompiler.Compile.Expr
import QueryCompiler.Dialect.Builtin
import QueryCompiler.Proofs.BuildAlike

/-!
# What the context of an expression decides

An expression is compiled in the same way wherever it stands: it asks the same of its binder, fails
with the same fault and comes out with the same text. What surrounds it only decides whether
parentheses are put around the whole of that text, and does so by a rank: the text is parenthesized
in the contexts that are tighter than its rank.
-/
namespace QueryCompiler

theorem Build.run_map {α β : Type} (f : α → β) (build : Build α) (binder : Binder) :
    (f <$> build).run binder = ((build.run binder).1.map f, (build.run binder).2) := by
  rw [map_eq_pure_bind, run_bind]
  obtain ⟨_ | _, _⟩ := build.run binder <;> rfl

theorem Operator.rank_le_loosest {op : Operator} (hop : op ∈ all) : op.rank ≤ loosest := by
  have hall : all.all (fun op => decide (op.rank ≤ loosest)) = true := by decide
  simpa using List.all_eq_true.mp hall op hop

/-- A text with its rank. Nothing is looser than the loosest context. -/
structure RankedSql where
  sql : Sql
  rank : Nat
  rank_le : rank ≤ Operator.loosest

namespace RankedSql

def inContext (context : Nat) (ranked : RankedSql) : Sql :=
  Operator.wrap ranked.rank context ranked.sql

theorem inContext_loosest (ranked : RankedSql) :
    ranked.inContext Operator.loosest = ranked.sql :=
  if_neg (Nat.not_lt.mpr ranked.rank_le)

/-- A text that never takes parentheses. -/
def tight (sql : Sql) : RankedSql := ⟨sql, 0, Nat.zero_le _⟩

@[simp]
theorem inContext_tight (context : Nat) (sql : Sql) : (tight sql).inContext context = sql := by
  simp [inContext, tight, Operator.wrap]

end RankedSql

/-- Compilations for all contexts that put parentheses around the text of one, or do not. -/
def OnlyWraps (sql : Nat → Build Sql) : Prop :=
  ∃ ranked : Build RankedSql, ∀ context, sql context = RankedSql.inContext context <$> ranked

namespace OnlyWraps

variable {d : Dialect} {op : Operator}

/-- What does not depend on the context is never parenthesized. -/
theorem const (build : Build Sql) : OnlyWraps fun _ => build :=
  ⟨RankedSql.tight <$> build, fun context => by simp⟩

theorem wrap {rank : Nat} (h : rank ≤ Operator.loosest) (sql : Sql) :
    OnlyWraps fun context => pure (Operator.wrap rank context sql) :=
  ⟨pure ⟨sql, rank, h⟩, fun context => by rw [map_pure]; rfl⟩

/-- What goes before does not depend on the context, and the rank may depend on what goes before. -/
theorem bind {α : Type} (first : Build α) {next : α → Nat → Build Sql}
    (h : ∀ a, OnlyWraps (next a)) : OnlyWraps fun context => first >>= fun a => next a context := by
  choose ranked hranked using h
  exact ⟨first >>= ranked, fun context => by simp only [hranked, map_bind]⟩

/-- A single operand that stands for the whole is parenthesized like the whole, but for one that
needs no parentheses or brings its own. -/
theorem joinOperands (hop : op ∈ Operator.all) (name : String) (parts : List (Sql × Bool)) :
    OnlyWraps fun context => pure (joinOperands op name context parts) := by
  have hrank := Operator.rank_le_loosest hop
  unfold QueryCompiler.joinOperands
  split
  · exact const _
  · rename_i sql atomic
    split
    · exact const _
    · exact wrap hrank sql
  · exact wrap hrank _

theorem variadicSql (hop : op ∈ Operator.all) (operands : List Fragment) :
    OnlyWraps (variadicSql d op operands) := by
  refine bind _ fun name => bind _ fun kept => ?_
  cases kept with
  | none => exact const _
  | some parts => exact joinOperands hop name parts

theorem inListSql (hop : op ∈ Operator.all) (subject : Fragment) (items : List Fragment) :
    OnlyWraps (inListSql d op subject items) := by
  refine bind _ fun name => ?_
  split
  · exact const _
  · exact bind _ fun left => bind _ fun right => wrap (Operator.rank_le_loosest hop) _

theorem vendorSql (hop : op ∈ Operator.all) (shown : String) (operands : List Fragment) :
    OnlyWraps (vendorSql d op shown operands) := by
  refine bind _ fun texts => ?_
  split
  · exact const _
  · exact const _
  · exact wrap (Operator.rank_le_loosest hop) _

theorem operatorSql (hop : op ∈ Operator.all) (shown : String) (operands : List Fragment) :
    OnlyWraps (operatorSql d op shown operands) := by
  have hrank := Operator.rank_le_loosest hop
  unfold QueryCompiler.operatorSql
  split
  · exact const _
  · exact bind _ fun name => bind _ fun sql => wrap hrank _
  · exact bind _ fun name => bind _ fun sql => wrap hrank _
  · exact bind _ fun name => bind _ fun left => bind _ fun right => wrap hrank _
  · exact bind _ fun name => bind _ fun subject => bind _ fun low => bind _ fun high => wrap hrank _
  · exact variadicSql hop _
  · exact inListSql hop _ _
  · exact vendorSql hop shown _
  · exact const _

theorem applicationSql (name shown : String) (operands : List Fragment) :
    OnlyWraps (applicationSql d name shown operands) := by
  unfold QueryCompiler.applicationSql
  cases hop : Operator.find? name with
  | none => exact const _
  | some op => exact operatorSql (Operator.find?_eq_some hop).1 shown operands

/-- The operands of an expression are compiled for contexts of their own, so what surrounds the
expression concerns its outermost operator only. -/
theorem fragment (d : Dialect) (scope : Scope) (e : Expr (Build Sql)) :
    OnlyWraps (e.fragment d scope).sql := by
  cases e with
  | literal | field | param | call | subquery => exact const _
  | op name operands => exact applicationSql name _ _
  | shorthand pairs => exact bind _ fun conditions => applicationSql "AND" "" conditions

end OnlyWraps

/-- The context of an expression decides on its outer parentheses only. Whatever the binder and
whatever the nested queries compile to, in every context the compilation ends as it does where
nothing surrounds the expression, with the same fault or text and the same binder, but that the text
is put in one pair of parentheses in the contexts below a certain rank. -/
theorem Expr.context_only_wraps (d : Dialect) (scope : Scope) (e : Expr (Build Sql))
    (binder : Binder) : ∃ rank, ∀ context, (e.sqlIn d scope context).run binder =
      (((e.sql d scope).run binder).1.map fun text =>
          (if context < rank then "(" ++ text ++ ")" else text : Sql),
        ((e.sql d scope).run binder).2) := by
  obtain ⟨ranked, hranked⟩ := OnlyWraps.fragment d scope e
  have hrun : ∀ context, (e.sqlIn d scope context).run binder =
      ((ranked.run binder).1.map (RankedSql.inContext context), (ranked.run binder).2) :=
    fun context => by rw [sqlIn, hranked, Build.run_map]
  simp only [sql, hrun]
  obtain ⟨fault | found, after⟩ := ranked.run binder
  · exact ⟨0, fun _ => rfl⟩
  · refine ⟨found.rank, fun context => ?_⟩
    simp only [Except.map, found.inContext_loosest]
    rfl

/-- A disjunction of two operands takes its parentheses in a conjunction, one that is folded down to a
single operand does not. -/
example :
    let either (right : Expr (Build Sql)) : Expr (Build Sql) := .disj [.plainField "a", right]
    let textIn (context : Nat) (e : Expr (Build Sql)) :=
      ((e.textIn Dialect.sqlite Scope.none context).run (Binder.ofBag Bag.empty)).1.toOption
    [41, 42].map (fun context => textIn context (either (.plainField "b"))) =
        [some "(\"a\" OR \"b\")", some "\"a\" OR \"b\""] ∧
      [41, 42].map (fun context => textIn context (either (.literal (.bool false)))) =
        [some "\"a\"", some "\"a\""] := by
  decide +kernel

end QueryCompiler
