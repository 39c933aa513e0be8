import QueryCompiler.Proofs.ClauseText
import QueryCompiler.Proofs.Parenthesization
import QueryCompiler.Proofs.RangeText

/-!
# Range tests keep their bounds

The compiler writes the bounds of a range test for the rank of the test itself. A comparison, a
membership test or a range test that is not looser than that gets no parentheses there, and its
words are then read as going on behind the whole range test. Where no bound is such a test, the text
is parsed as the range test with its subject and both bounds.
-/
namespace QueryCompiler

namespace Tree

/-- The tree that an operator is written as: membership in an empty list is a constant. -/
def applied (name : String) (operands : List Tree) : Tree :=
  if (name == "IN" || name == "NOT IN") && operands.length == 1 then
    op (boolWord (name == "NOT IN")) []
  else op name operands

mutual
/-- Replace the tests for membership in an empty list by constants. -/
def settled : Tree → Tree
  | field path => field path
  | param name => param name
  | call path args => call path (allSettled args)
  | op name operands => applied name (allSettled operands)

def allSettled : List Tree → List Tree
  | [] => []
  | t :: rest => settled t :: allSettled rest
end

theorem allSettled_eq_map (ts : List Tree) : allSettled ts = ts.map settled := by
  induction ts with
  | nil => rfl
  | cons t rest ih => rw [allSettled, ih, List.map_cons]

end Tree

/-- Prefix, postfix, binary, membership and range operators with as many operands as they take. -/
def Operator.isPlain (op : Operator) (count : Nat) : Bool :=
  match op.arity with
  | .unaryPrefix | .unaryPostfix | .binary | .inList | .ternary => op.arity.accepts count
  | .nullary | .variadic | .vendor => false

namespace Expr

variable {ν : Type}

mutual
/-- Whether an expression of fields, parameters and operators passes a test at each of them. -/
def passes (field param : String → Bool) (node : Operator → List (Expr ν) → Bool) :
    Expr ν → Bool
  | .field name _ => field name
  | .param name => param name
  | op name operands =>
    (Operator.find? name).any (node · operands) && allPass field param node operands
  | literal _ => false
  | call _ _ => false
  | subquery _ => false
  | shorthand _ => false

def allPass (field param : String → Bool) (node : Operator → List (Expr ν) → Bool) :
    List (Expr ν) → Bool
  | [] => true
  | e :: rest => passes field param node e && allPass field param node rest
end

theorem allPass_eq_all (field param : String → Bool) (node : Operator → List (Expr ν) → Bool)
    (es : List (Expr ν)) : allPass field param node es = es.all (passes field param node) := by
  induction es with
  | nil => rfl
  | cons e rest ih => rw [allPass, ih, List.all_cons]

theorem passes_op {field param : String → Bool} {node : Operator → List (Expr ν) → Bool}
    {name : String} {operands : List (Expr ν)} :
    passes field param node (op name operands) = true ↔
      ∃ found, Operator.find? name = some found ∧ node found operands = true ∧
        ∀ e ∈ operands, passes field param node e = true := by
  rw [passes, Bool.and_eq_true, Option.any_eq_true, allPass_eq_all, List.all_eq_true]
  tauto

/-- Expressions of plain fields, parameters and the prefix, postfix, binary, membership and range
operators. -/
def isPlain : Expr ν → Bool :=
  passes (fun name => Text.isIdentifier name && !isOperatorWord name) (fun _ => true)
    fun op operands => op.isPlain operands.length

/-- The compiler accepts all names, and the dialect has all operators. -/
def isWritable (b : Builtin) : Expr ν → Bool :=
  passes (fun name => !Field.isAs name) Text.isIdentifier
    fun op _ => (b.dialect.operatorName op.name).isSome

/-- The rank at which an expression may need parentheses. -/
def rank? : Expr ν → Option Nat
  | op name operands => (Operator.find? name).bind fun op =>
    if op.arity = .inList ∧ operands.length = 1 then none else some op.rank
  | _ => none

/-- A bound needs parentheses for the rank of its range test if it needs them as a subject of it. -/
def isClear (rank : Nat) (bound : Expr ν) : Bool :=
  bound.rank?.all fun r => decide (Operator.leftContext rank < r → rank < r)

/-- No bound of a range test is a comparison or a predicate that gets no parentheses there. -/
def hasClearBounds : Expr ν → Bool :=
  passes (fun _ => true) (fun _ => true) fun op operands =>
    op.arity != .ternary || (operands.drop 1).all (isClear op.rank)

end Expr

namespace Fragment

/-- A fragment whose text is legible in every context. -/
structure LegibleAs (b : Builtin) (refused : Prop) (f : Fragment) (t : Tree) : Prop where
  isQuery : f.isQuery = false
  sql : ∀ context, (f.sql context).Settles refused fun sql => Legible b context t sql.chars

variable {b : Builtin} {refused : Prop}

theorem legibleAs_leaf {build : Build Sql} {t : Tree}
    (h : build.Settles refused fun sql => Legible b 0 t sql.chars) :
    (leaf build).LegibleAs b refused t where
  isQuery := rfl
  sql context := h.mono id fun _ hsql => hsql.mono (Nat.zero_le context)

theorem LegibleAs.mono {refused' : Prop} {f : Fragment} {t : Tree} (h : f.LegibleAs b refused t)
    (hrefused : refused → refused') : f.LegibleAs b refused' t where
  isQuery := h.isQuery
  sql context := (h.sql context).mono hrefused fun _ hsql => hsql

end Fragment

section Operators

variable {b : Builtin} {refused : Prop} {op : Operator}

theorem spelling_settles (hrefused : b.dialect.operatorName op.name = none → refused) :
    (spelling b.dialect op).Settles refused fun name =>
      b.dialect.operatorName op.name = some name := by
  cases hname : b.dialect.operatorName op.name with
  | none =>
      rw [spelling, Dialect.spelling, hname]
      exact hrefused hname
  | some name =>
      rw [spelling_eq hname]
      exact .pure rfl

/-- Where an operator needs no parentheses, its context does not matter. -/
theorem operatorSql_congr {d : Dialect} {shown : String} {operands : List Fragment} {c c' : Nat}
    (h : ¬ (op.arity = .inList ∧ operands.length = 1) → (c < op.rank ↔ c' < op.rank)) :
    operatorSql d op shown operands c = operatorSql d op shown operands c' := by
  by_cases hempty : op.arity = .inList ∧ operands.length = 1
  · -- membership in an empty list is a constant in every context
    obtain ⟨harity, hlength⟩ := hempty
    obtain ⟨subject, rfl⟩ := List.length_eq_one_iff.mp hlength
    simp [operatorSql, inListSql, harity]
  · have hwrap : ∀ sql, Operator.wrap op.rank c sql = Operator.wrap op.rank c' sql := by
      intro sql
      simp only [Operator.wrap, h hempty]
    have hjoin : ∀ name parts, joinOperands op name c parts = joinOperands op name c' parts := by
      intro name parts
      unfold joinOperands
      split <;> simp only [hwrap]
    unfold operatorSql
    split <;> simp only [variadicSql, inListSql, vendorSql, hwrap, hjoin]

theorem Tree.applied_of_ne {op : Operator} (hop : op ∈ Operator.all) (harity : op.arity ≠ .inList)
    (ts : List Tree) : Tree.applied op.name ts = .op op.name ts := by
  have hall : ∀ op ∈ Operator.all, op.arity ≠ .inList →
      (op.name == "IN" || op.name == "NOT IN") = false := by decide +kernel
  rw [Tree.applied, hall op hop harity]
  rfl

theorem membersSql_legible {items : List Fragment} {ts : List Tree}
    (h : List.Forall₂ (Fragment.LegibleAs b refused) items ts) :
    (membersSql items).Settles refused fun sql => ∃ sqls,
      List.Forall₂ (fun sql t => Legible b Operator.loosest t sql.chars) sqls ts ∧
        sql.chars = '(' :: ((Sql.intercalate ", " sqls).chars ++ [')']) := by
  have hlist : ∀ sqls : List Sql, ("(" ++ Sql.intercalate ", " sqls ++ ")" : Sql).chars =
      '(' :: ((Sql.intercalate ", " sqls).chars ++ [')']) := fun sqls => by simp
  unfold membersSql
  split
  · rename_i item
    cases h with
    | cons hitem hrest =>
        cases hrest
        refine (hitem.sql Operator.loosest).bind fun sql hsql => .pure ?_
        rw [hitem.isQuery]
        exact ⟨[sql], .cons hsql .nil, hlist [sql]⟩
  · have halone := Build.Settles.mapM (h.imp fun _ _ hitem => hitem.sql Operator.loosest)
    exact halone.bind fun sqls hsqls => .pure ⟨sqls, hsqls, hlist sqls⟩

theorem inListSql_legible (hop : op ∈ Operator.all) (harity : op.arity = .inList)
    (hrefused : b.dialect.operatorName op.name = none → refused) {subject : Fragment} {t : Tree}
    (hsubject : subject.LegibleAs b refused t) {items : List Fragment} {ts : List Tree}
    (hitems : List.Forall₂ (Fragment.LegibleAs b refused) items ts) (context : Nat) :
    (inListSql b.dialect op subject items context).Settles refused fun sql =>
      Legible b context (Tree.applied op.name (t :: ts)) sql.chars := by
  have hmember : ∀ op ∈ Operator.all, op.arity = .inList →
      (op.name == "IN" || op.name == "NOT IN") = true := by decide +kernel
  rw [inListSql, Tree.applied, hmember op hop harity, Bool.true_and]
  refine (spelling_settles hrefused).bind fun name hname => ?_
  cases hitems with
  | nil =>
      refine .pure (Legible.mono ?_ (Nat.zero_le context))
      rw [Sql.chars_ofString]
      exact Legible.constant _
  | @cons item u items us hitem hrest =>
      have htail : op.tail? = some .items := by simp [Operator.tail?, harity]
      obtain ⟨words, hs⟩ := suffixed hop htail hname
      refine (hsubject.sql _).bind fun left hleft => ?_
      refine (membersSql_legible (.cons hitem hrest)).bind fun right hright =>
        .pure (Legible.wrap ?_ context)
      obtain ⟨sqls, hsqls, hlist⟩ := hright
      have hne : sqls ≠ [] := by
        rintro rfl
        cases hsqls
      have hlisted := Legible.listed hop harity hs hleft hsqls hne
      simpa [hlist] using hlisted

theorem operatorSql_legible (hop : op ∈ Operator.all)
    (hrefused : b.dialect.operatorName op.name = none → refused) (shown : String)
    {fs : List Fragment} {ts : List Tree} (hplain : op.isPlain fs.length = true)
    (h : List.Forall₂ (Fragment.LegibleAs b refused) fs ts)
    (hbounds : op.arity = .ternary → ∀ f ∈ fs.drop 1,
      f.sql op.rank = f.sql (Operator.leftContext op.rank)) (context : Nat) :
    (operatorSql b.dialect op shown fs context).Settles refused fun sql =>
      Legible b context (Tree.applied op.name ts) sql.chars := by
  have happlied : op.arity ≠ .inList → Tree.applied op.name ts = .op op.name ts :=
    fun hother => Tree.applied_of_ne hop hother ts
  have hspelled : ∀ tail, op.tail? = some tail → ∀ name, b.dialect.operatorName op.name = some name →
      ∃ words, Suffixed b op tail name words := fun tail htail name hname => suffixed hop htail hname
  unfold Operator.isPlain at hplain
  unfold Operator.tail? at hspelled
  cases harity : op.arity with
  | nullary | variadic | vendor => simp [harity] at hplain
  | unaryPrefix =>
      simp only [harity, Arity.accepts, beq_iff_eq] at hplain
      rw [happlied (by simp [harity])]
      obtain ⟨f, rfl⟩ := List.length_eq_one_iff.mp hplain
      cases h with
      | cons hoperand hrest =>
          cases hrest
          have hform : op.form? = some .leading := by simp [Operator.form?, harity]
          simp only [operatorSql, harity]
          refine (spelling_settles hrefused).bind fun name hname => ?_
          obtain ⟨words, hs⟩ := spelled hop hform hname
          refine (hoperand.sql op.rank).bind fun sql hsql => .pure (Legible.wrap ?_ context)
          simpa using Legible.leading hop hs hsql
  | unaryPostfix =>
      simp only [harity, Arity.accepts, beq_iff_eq] at hplain hspelled
      rw [happlied (by simp [harity])]
      obtain ⟨f, rfl⟩ := List.length_eq_one_iff.mp hplain
      cases h with
      | cons hoperand hrest =>
          cases hrest
          simp only [operatorSql, harity]
          refine (spelling_settles hrefused).bind fun name hname => ?_
          obtain ⟨words, hs⟩ := hspelled .nothing rfl name hname
          refine (hoperand.sql _).bind fun sql hsql => .pure (Legible.wrap ?_ context)
          simpa using Legible.trailing hop harity hs hsql
  | binary =>
      simp only [harity, Arity.accepts, beq_iff_eq] at hplain hspelled
      rw [happlied (by simp [harity])]
      obtain ⟨f, g, rfl⟩ := List.length_eq_two.mp hplain
      cases h with
      | cons hleft hrest =>
          cases hrest with
          | cons hright hrest =>
              cases hrest
              simp only [operatorSql, harity]
              refine (spelling_settles hrefused).bind fun name hname => ?_
              obtain ⟨words, hs⟩ := hspelled .operand rfl name hname
              refine (hleft.sql _).bind fun left hleft => ?_
              refine (hright.sql _).bind fun right hright => .pure (Legible.wrap ?_ context)
              simpa using Legible.binary hop harity hs hleft hright
  | ternary =>
      simp only [harity, Arity.accepts, beq_iff_eq] at hplain hspelled
      rw [happlied (by simp [harity])]
      obtain ⟨f, g, g', rfl⟩ := List.length_eq_three.mp hplain
      cases h with
      | cons hsubject hrest =>
          cases hrest with
          | cons hlow hrest =>
              cases hrest with
              | cons hhigh hrest =>
                  cases hrest
                  have hlow' := hbounds harity g (by simp)
                  have hhigh' := hbounds harity g' (by simp)
                  simp only [operatorSql, harity, hlow', hhigh']
                  refine (spelling_settles hrefused).bind fun name hname => ?_
                  obtain ⟨words, hs⟩ := hspelled .bounds rfl name hname
                  refine (hsubject.sql _).bind fun subject hsubject => ?_
                  refine (hlow.sql _).bind fun low hlow => ?_
                  refine (hhigh.sql _).bind fun high hhigh => .pure (Legible.wrap ?_ context)
                  simpa using Legible.between hop harity hs hsubject hlow hhigh
  | inList =>
      simp only [harity, Arity.accepts, decide_eq_true_eq] at hplain
      cases h with
      | nil => simp at hplain
      | cons hsubject hitems =>
          simp only [operatorSql, harity]
          exact inListSql_legible hop harity hrefused hsubject hitems context

end Operators

section Expressions

variable {b : Builtin} (scope : Scope)

theorem applicationSql_found {d : Dialect} {name : String} {op : Operator}
    (h : Operator.find? name = some op) (shown : String) (operands : List Fragment)
    (context : Nat) :
    applicationSql d name shown operands context = operatorSql d op shown operands context := by
  rw [applicationSql.eq_def, h]

namespace Expr

theorem fragment_sql_clear {d : Dialect} {e : Expr (Build Sql)} (hplain : e.isPlain = true)
    {rank : Nat} (hle : Operator.leftContext rank ≤ rank) (hclear : e.isClear rank = true) :
    (e.fragment d scope).sql rank = (e.fragment d scope).sql (Operator.leftContext rank) := by
  cases e with
  | field | param => rfl
  | literal | call | subquery | shorthand => cases hplain
  | op name operands =>
      obtain ⟨found, hfound, _, _⟩ := passes_op.mp hplain
      have hlength : (fragments d scope operands).length = operands.length := by
        rw [fragments_eq_map, List.length_map]
      rw [fragment]
      simp only [application, applicationSql_found hfound]
      refine operatorSql_congr fun hsome => ?_
      rw [hlength] at hsome
      have hrank : (op name operands).rank? = some found.rank := by
        rw [rank?, hfound, Option.bind_some, if_neg hsome]
      rw [isClear, hrank, Option.all_some, decide_eq_true_eq] at hclear
      exact ⟨fun hlt => by omega, hclear⟩

theorem not_isWritable_of_operator {name : String} {operands : List (Expr (Build Sql))}
    {found : Operator} (hfound : Operator.find? name = some found)
    (hnone : b.dialect.operatorName found.name = none) :
    (op name operands).isWritable b = false := by
  refine Bool.eq_false_iff.mpr fun hwritable => ?_
  obtain ⟨found', hfound', hsome, _⟩ := passes_op.mp hwritable
  obtain rfl := Option.some.inj (hfound.symm.trans hfound')
  rw [hnone] at hsome
  cases hsome

theorem not_isWritable_of_operand {name : String} {operands : List (Expr (Build Sql))}
    {e : Expr (Build Sql)} (he : e ∈ operands) (hnot : e.isWritable b = false) :
    (op name operands).isWritable b = false := by
  refine Bool.eq_false_iff.mpr fun hwritable => ?_
  obtain ⟨_, _, _, hall⟩ := passes_op.mp hwritable
  exact absurd (hall e he) (Bool.eq_false_iff.mp hnot)

/-- Clear bounds are written like the subject of their range test. -/
theorem fragment_sql_bound {d : Dialect} {name : String} {operands : List (Expr (Build Sql))}
    (hplain : (op name operands).isPlain = true) (hclear : (op name operands).hasClearBounds = true)
    {found : Operator} (hfound : Operator.find? name = some found)
    (hternary : found.arity = .ternary) :
    ∀ f ∈ (fragments d scope operands).drop 1,
      f.sql found.rank = f.sql (Operator.leftContext found.rank) := by
  obtain ⟨_, _, _, hoperands⟩ := passes_op.mp hplain
  obtain ⟨found', hfound', hbounds, _⟩ := passes_op.mp hclear
  obtain rfl := Option.some.inj (hfound.symm.trans hfound')
  have hmem := (Operator.find?_eq_some hfound).1
  have hle : Operator.leftContext found.rank ≤ found.rank :=
    (Operator.level_of_tail hmem (by rw [Operator.tail?, hternary])).1
  rw [hternary, bne_self_eq_false, Bool.false_or, List.all_eq_true] at hbounds
  rw [fragments_eq_map, ← List.map_drop]
  intro f hf
  obtain ⟨bound, hbound, rfl⟩ := List.mem_map.mp hf
  exact fragment_sql_clear scope (hoperands bound (List.mem_of_mem_drop hbound)) hle
    (hbounds bound hbound)

/-- The text of a plain expression with clear bounds is legible in every context. -/
theorem fragment_legible {e : Expr (Build Sql)} (hplain : e.isPlain = true)
    (hclear : e.hasClearBounds = true) :
    (e.fragment b.dialect scope).LegibleAs b (e.isWritable b = false) (e.tree b scope).settled := by
  induction e using Expr.induct with
  | literal | call | subquery | shorthand => cases hplain
  | field name label =>
      obtain ⟨hname, hword⟩ := (Bool.and_eq_true _ _).mp hplain
      have hsettles := fieldSql_word (b := b) scope hname ((Bool.not_eq_true' _).mp hword)
      refine Fragment.legibleAs_leaf (hsettles.mono (fun has => ?_) fun sql hsql => ?_)
      · simp [isWritable, passes, has]
      · obtain ⟨s, hchars, hs⟩ := hsql
        rw [hchars]
        exact Legible.of_word hs (fun _ => .field) (by simp)
  | param name =>
      refine Fragment.legibleAs_leaf ((paramSql_word name).mono id fun sql hsql => ?_)
      obtain ⟨s, hchars, hs⟩ := hsql
      rw [hchars]
      exact Legible.of_word hs (fun _ => .param) (by simp)
  | op name operands ih =>
      obtain ⟨found, hfound, htakes, hoperands⟩ := passes_op.mp hplain
      obtain ⟨_, _, _, hclears⟩ := passes_op.mp hclear
      obtain ⟨hmem, hcanonical⟩ := Operator.find?_eq_some hfound
      have hlegible : List.Forall₂ (Fragment.LegibleAs b ((op name operands).isWritable b = false))
          (fragments b.dialect scope operands) (operands.map fun e => (e.tree b scope).settled) := by
        rw [fragments_eq_map, List.forall₂_map_left_iff, List.forall₂_map_right_iff,
          List.forall₂_same]
        exact fun e he => (ih e he (hoperands e he) (hclears e he)).mono
          (not_isWritable_of_operand he)
      rw [fragment, tree, hcanonical, Tree.settled, Tree.allSettled_eq_map, trees_eq_map,
        List.map_map, application]
      refine ⟨rfl, fun context => ?_⟩
      simp only [applicationSql_found hfound]
      exact operatorSql_legible hmem (not_isWritable_of_operator hfound) _
        (by rwa [fragments_eq_map, List.length_map]) hlegible
        (fragment_sql_bound scope hplain hclear hfound) context

/-- A plain expression with clear bounds is written unless a name is refused or the dialect lacks an
operator, and whatever is written is parsed as exactly one tree, that of the expression. -/
theorem sql_parses {e : Expr (Build Sql)} (hplain : e.isPlain = true)
    (hclear : e.hasClearBounds = true) (binder : Binder) :
    (e.isWritable b = true → ∃ sql, (e.sql b.dialect scope).run binder = (.ok sql, binder)) ∧
      ∀ sql, ((e.sql b.dialect scope).run binder).1 = .ok sql →
        ∀ t, b.ParsesText sql.render t ↔ t = (e.tree b scope).settled := by
  have hsettles := (fragment_legible scope hplain hclear (b := b)).sql Operator.loosest
  obtain ⟨sql, hrun, hlegible⟩ | ⟨hnot, fault, hrun⟩ := hsettles.run binder
  · refine ⟨fun _ => ⟨sql, hrun⟩, fun sql' hsql' t => ?_⟩
    rw [Expr.sql, Expr.sqlIn, hrun] at hsql'
    obtain rfl := Except.ok.inj hsql'
    have htext : b.ParsesText sql.render (e.tree b scope).settled := by
      have hwhole := hlegible.parses []
      rw [List.append_nil] at hwhole
      exact hwhole
    refine ⟨fun ht => ht.unique htext, ?_⟩
    rintro rfl
    exact htext
  · refine ⟨fun hwritable => ?_, fun sql' hsql' => ?_⟩
    · rw [hnot] at hwritable
      cases hwritable
    · rw [Expr.sql, Expr.sqlIn, hrun] at hsql'
      cases hsql'

theorem settled_between {name : String} {found : Operator} (hfound : Operator.find? name = some found)
    (hternary : found.arity = .ternary) (operands : List (Expr (Build Sql))) :
    ((op name operands).tree b scope).settled =
      .op found.name (operands.map fun e => (e.tree b scope).settled) := by
  obtain ⟨hmem, hcanonical⟩ := Operator.find?_eq_some hfound
  rw [tree, hcanonical, Tree.settled, Tree.allSettled_eq_map, trees_eq_map, List.map_map,
    Tree.applied_of_ne hmem (by simp [hternary])]
  rfl

/-- A range test keeps its subject and its bounds. Its text is written unless a name is refused or
the dialect lacks an operator, and whatever is written is parsed as exactly one tree, which is that
of the range test, if no bound is a comparison or a predicate without parentheses. -/
theorem between_reads_back {name : String} {found : Operator}
    (hfound : Operator.find? name = some found) (hternary : found.arity = .ternary)
    {subject low high : Expr (Build Sql)} (hplain : ∀ e ∈ [subject, low, high], e.isPlain = true)
    (hclear : (op name [subject, low, high]).hasClearBounds = true) (binder : Binder) :
    ((op name [subject, low, high]).isWritable b = true →
      ∃ sql, ((op name [subject, low, high]).sql b.dialect scope).run binder = (.ok sql, binder)) ∧
    ∀ sql, (((op name [subject, low, high]).sql b.dialect scope).run binder).1 = .ok sql →
      ∀ t, b.ParsesText sql.render t ↔
        t = .op found.name [(subject.tree b scope).settled, (low.tree b scope).settled,
          (high.tree b scope).settled] := by
  have htakes : found.isPlain [subject, low, high].length = true := by
    rw [Operator.isPlain, hternary]
    rfl
  have hparses := sql_parses scope (passes_op.mpr ⟨found, hfound, htakes, hplain⟩) hclear binder
    (b := b)
  rwa [settled_between scope hfound hternary] at hparses

/-- A range test over a range test, a difference and a predicate. -/
def nestedRange : Expr (Build Sql) :=
  .op "not between" [.op "BETWEEN" [.field "a" none, .param "least", .param "most"],
    .op "-" [.field "b" none, .op "-" [.field "c" none, .field "d" none]],
    .op "IS NULL" [.field "e" none]]

theorem between_reads_back_nestedRange : nestedRange.isPlain = true ∧
    nestedRange.hasClearBounds = true ∧ nestedRange.isWritable .postgres = true ∧ ∃ sql,
      (nestedRange.sql Builtin.postgres.dialect ⟨none, false⟩).run (Binder.ofBag Bag.empty) =
        (.ok sql, Binder.ofBag Bag.empty) ∧
      sql.render = "(a BETWEEN :least AND :most) NOT BETWEEN b - (c - d) AND (e IS NULL)" ∧
      ∀ t, Builtin.postgres.ParsesText sql.render t ↔
        t = .op "NOT BETWEEN" [.op "BETWEEN" [.field ["a"], .param "least", .param "most"],
          .op "-" [.field ["b"], .op "-" [.field ["c"], .field ["d"]]],
          .op "IS NULL" [.field ["e"]]] := by
  have hfound : Operator.find? "not between" = some ⟨"NOT BETWEEN", .ternary, 33⟩ := by
    decide +kernel
  have hplain : nestedRange.isPlain = true := by decide +kernel
  have hclear : nestedRange.hasClearBounds = true := by decide +kernel
  have hwritable : nestedRange.isWritable .postgres = true := by decide +kernel
  have htext : ((nestedRange.sql Builtin.postgres.dialect ⟨none, false⟩).run
      (Binder.ofBag Bag.empty)).1.toOption.map Sql.render =
        some "(a BETWEEN :least AND :most) NOT BETWEEN b - (c - d) AND (e IS NULL)" := by
    decide +kernel
  obtain ⟨_, _, _, hoperands⟩ := passes_op.mp hplain
  obtain ⟨hwritten, hreads⟩ := between_reads_back (b := .postgres) ⟨none, false⟩ hfound rfl
    hoperands hclear (Binder.ofBag Bag.empty)
  obtain ⟨sql, hrun⟩ := hwritten hwritable
  have hparses := hreads sql (congrArg Prod.fst hrun)
  rw [nestedRange, hrun] at htext
  refine ⟨hplain, hclear, hwritable, sql, hrun, Option.some.inj htext, fun t => ?_⟩
  have hpaths : ∀ name ∈ ["a", "b", "c", "d", "e"],
      Builtin.postgres.path ⟨none, false⟩ name = [name] := by decide +kernel
  have hnames : ∀ name ∈ ["BETWEEN", "-", "IS NULL"], Operator.canonical name = name := by
    decide +kernel
  rw [hparses]
  simp [tree, trees, Tree.settled, Tree.allSettled, Tree.applied, hpaths, hnames]

/-- A comparison as a bound. -/
def comparedBound : Expr (Build Sql) :=
  .op "BETWEEN" [.field "x" none, .field "y" none, .op "=" [.field "z" none, .field "w" none]]

/-- A comparison in a bound is read as a comparison with the whole range test. -/
theorem comparedBound_misread : ∃ sql,
    ((comparedBound.sql Builtin.postgres.dialect ⟨none, false⟩).run (Binder.ofBag Bag.empty)).1 =
      .ok sql ∧ sql.render = "x BETWEEN y AND z = w" ∧
    (∀ t, Builtin.postgres.ParsesText sql.render t ↔
      t = .op "=" [.op "BETWEEN" [.field ["x"], .field ["y"], .field ["z"]], .field ["w"]]) ∧
    ¬ Builtin.postgres.ParsesText sql.render
      (comparedBound.tree .postgres ⟨none, false⟩).settled := by
  have hrender : ((comparedBound.sql Builtin.postgres.dialect ⟨none, false⟩).run
      (Binder.ofBag Bag.empty)).1.toOption.map Sql.render = some "x BETWEEN y AND z = w" := by
    decide +kernel
  obtain ⟨sql, hsql, htext⟩ := Except.exists_of_toOption hrender
  have hlexemes : Lexeme.ofText "x BETWEEN y AND z = w" =
      [.name ["x"], .key "BETWEEN", .name ["y"], .key "AND", .name ["z"], .key "=",
        .name ["w"]] := by decide +kernel
  have hparses : Builtin.postgres.ParsesText sql.render
      (.op "=" [.op "BETWEEN" [.field ["x"], .field ["y"], .field ["z"]], .field ["w"]]) := by
    have hbetween : (⟨"BETWEEN", 6, .bounds⟩, [.key "BETWEEN"]) ∈ Builtin.postgres.suffixes := by
      decide +kernel
    have hequal : (⟨"=", 6, .operand⟩, [.key "="]) ∈ Builtin.postgres.suffixes := by decide +kernel
    have hname : ∀ path r, Parses .postgres (.expr 5) (.name path :: r) [.field path] r :=
      fun path r => Parses.field.mono (Nat.zero_le 5)
    have hsix : Parses .postgres (.expr 6) (Lexeme.ofText "x BETWEEN y AND z = w")
        [.op "=" [.op "BETWEEN" [.field ["x"], .field ["y"], .field ["z"]], .field ["w"]]] [] := by
      rw [hlexemes]
      refine .tighter (hname _ _) (.behind hbetween rfl rfl (.bounds (hname _ _) (hname _ _)) ?_)
      exact .behind hequal rfl rfl (.operand (hname _ _)) .stop
    rw [Builtin.ParsesText, htext]
    exact hsix.mono (by decide)
  refine ⟨sql, hsql, htext, fun t => ⟨fun ht => ht.unique hparses, ?_⟩, fun hnode => ?_⟩
  · rintro rfl
    exact hparses
  · have hfound : Operator.find? "BETWEEN" = some ⟨"BETWEEN", .ternary, 32⟩ := by decide +kernel
    have hsame := hnode.unique hparses
    rw [comparedBound, settled_between _ hfound rfl] at hsame
    have hname : "BETWEEN" = "=" := (Tree.op.inj hsame).1
    exact absurd hname (by decide)

end Expr

end Expressions

end QueryCompiler
