import QueryCompiler.Compile.Expr
import QueryCompiler.Proofs.BuildSettles
import QueryCompiler.Proofs.ExprAlike
import QueryCompiler.Proofs.ReadableExpr
import QueryCompiler.Proofs.WrittenOperator

/-!
# Parenthesization preserves structure

The text of an expression of fields, parameters, calls and operators is read by the reference
grammar as exactly one tree, that of the expression, up to what `Tree.merged` forgets.
-/
namespace QueryCompiler

namespace Fragment

/-- A fragment whose text fits into every context, and in parentheses of its own or without need
for them even into the tightest one. -/
structure FitsAs (b : Builtin) (refused : Prop) (f : Fragment) (t : Tree) : Prop where
  isQuery : f.isQuery = false
  fits : ∀ context, (f.sql context).Settles refused fun sql =>
    Fits b context t sql.chars ∧ (f.atomic = true → Fits b 0 t sql.chars)

variable {b : Builtin} {refused : Prop}

theorem fitsAs_leaf {build : Build Sql} {t : Tree}
    (h : build.Settles refused fun sql => Fits b 0 t sql.chars) : (leaf build).FitsAs b refused t where
  isQuery := rfl
  fits context := h.mono id fun _ hsql => ⟨hsql.mono (Nat.zero_le context), fun _ => hsql⟩

theorem FitsAs.mono {refused' : Prop} {f : Fragment} {t : Tree} (h : f.FitsAs b refused t)
    (hrefused : refused → refused') : f.FitsAs b refused' t where
  isQuery := h.isQuery
  fits context := (h.fits context).mono hrefused fun _ hsql => hsql

theorem FitsAs.sql {f : Fragment} {t : Tree} (h : f.FitsAs b refused t) (context : Nat) :
    (f.sql context).Settles refused fun sql => Fits b context t sql.chars :=
  (h.fits context).mono id fun _ hsql => hsql.1

theorem settles_alone {fs : List Fragment} {ts : List Tree}
    (h : List.Forall₂ (FitsAs b refused) fs ts) :
    (alone fs).Settles refused fun sqls =>
      List.Forall₂ (fun sql t => Fits b Operator.loosest t sql.chars) sqls ts :=
  .mapM (h.imp fun _ _ hf => hf.sql Operator.loosest)

end Fragment

section Operators

variable {b : Builtin} {refused : Prop} {op : Operator} {name : String} {words : List Lexeme}

/-- All operands of a variadic operator are kept. -/
theorem keptOperands_settles {fs : List Fragment} {ts : List Tree}
    (h : List.Forall₂ (Fragment.FitsAs b refused) fs ts) :
    (keptOperands op fs).Settles refused fun kept => ∃ parts, kept = some parts ∧
      List.Forall₂ (fun part t => Fits b op.rank t part.1.chars ∧
        (part.2 = true → Fits b 0 t part.1.chars)) parts ts := by
  induction h with
  | nil => exact ⟨[], rfl, .nil⟩
  | @cons f t fs ts hfirst hrest ih =>
      refine (hfirst.fits op.rank).bind fun sql hsql => ?_
      have hconstant : ∀ w ∈ ["TRUE", "FALSE"], sql.render ≠ w := fun w hw hrender =>
        hsql.1.ne_constant hw (by rw [Sql.chars, hrender])
      have habsorbing : absorbing? op.name ≠ some sql.render := by
        unfold absorbing?
        split
        · exact fun heq => hconstant "FALSE" (by simp) (Option.some.inj heq).symm
        · exact fun heq => hconstant "TRUE" (by simp) (Option.some.inj heq).symm
        · simp
      have hneutral : neutral? op.name ≠ some sql.render := by
        unfold neutral?
        split
        · exact fun heq => hconstant "TRUE" (by simp) (Option.some.inj heq).symm
        · exact fun heq => hconstant "FALSE" (by simp) (Option.some.inj heq).symm
        · simp
      rw [if_neg habsorbing]
      refine ih.bind fun kept hkept => ?_
      obtain ⟨parts, rfl, hparts⟩ := hkept
      rw [if_neg hneutral]
      exact ⟨_, rfl, .cons hsql hparts⟩

theorem joinOperands_fits (hop : op ∈ Operator.all) (harity : op.arity = .variadic)
    (hs : Spelled b op .chained name words) (context : Nat) {parts : List (Sql × Bool)}
    {ts : List Tree} (hne : ts ≠ [])
    (h : List.Forall₂ (fun part t => Fits b op.rank t part.1.chars ∧
      (part.2 = true → Fits b 0 t part.1.chars)) parts ts) :
    Fits b context (.op op.name ts) (joinOperands op name context parts).chars := by
  cases h with
  | nil => exact absurd rfl hne
  | @cons part t parts ts hfirst hrest =>
      obtain ⟨sql, atomic⟩ := part
      obtain ⟨hfits, hatomic⟩ := hfirst
      cases hrest with
      | nil =>
          rw [joinOperands]
          split
          · rename_i hwhole
            have hzero : Fits b 0 t sql.chars := by
              obtain hatom | henclosed := (Bool.or_eq_true _ _).mp hwhole
              · exact hatomic hatom
              · exact hfits.of_enclosed ((isEnclosed_eq _).symm.trans henclosed)
            exact (hzero.mono (Nat.zero_le context)).alone hop harity
          · exact (hfits.alone hop harity).wrap context
      | @cons next u parts ts hnext hrest =>
          have hsqls : List.Forall₂ (fun sql tree => Fits b op.rank tree sql.chars)
              (((sql, atomic) :: next :: parts).map (·.1)) (t :: u :: ts) := by
            refine List.forall₂_map_left_iff.mpr (.cons hfits (.cons hnext.1 ?_))
            exact hrest.imp fun _ _ hpart => hpart.1
          exact (Fits.chain_of_forall hop harity hs hsqls (by simp)).wrap context

theorem membersSql_settles {items : List Fragment} {ts : List Tree}
    (h : List.Forall₂ (Fragment.FitsAs b refused) items ts) :
    (membersSql items).Settles refused fun sql => ∃ sqls,
      List.Forall₂ (fun sql t => Fits b Operator.loosest t sql.chars) sqls ts ∧
        sql.chars = '(' :: ((Sql.intercalate ", " sqls).chars ++ [')']) := by
  have hlist : ∀ sqls : List Sql, ("(" ++ Sql.intercalate ", " sqls ++ ")" : Sql).chars =
      '(' :: ((Sql.intercalate ", " sqls).chars ++ [')']) := fun sqls => by simp
  unfold membersSql
  split
  · rename_i item
    cases h with
    | cons hitem hrest =>
        cases hrest
        refine (hitem.sql Operator.loosest).bind fun sql hsql => .pure ?_
        rw [hitem.isQuery]
        exact ⟨[sql], .cons hsql .nil, hlist [sql]⟩
  · exact (Fragment.settles_alone h).bind fun sqls hsqls => .pure ⟨sqls, hsqls, hlist sqls⟩

theorem spelling_eq (hname : b.dialect.operatorName op.name = some name) :
    spelling b.dialect op = pure name := by
  rw [spelling, Dialect.spelling, hname]
  rfl

theorem variadicSql_settles (hop : op ∈ Operator.all) (harity : op.arity = .variadic)
    (hname : b.dialect.operatorName op.name = some name) {fs : List Fragment} {ts : List Tree}
    (hne : ts ≠ []) (h : List.Forall₂ (Fragment.FitsAs b refused) fs ts) (context : Nat) :
    (variadicSql b.dialect op fs context).Settles refused fun sql =>
      Fits b context (.op op.name ts) sql.chars := by
  have hform : op.form? = some .chained := by simp [Operator.form?, harity]
  obtain ⟨words, hs⟩ := spelled hop hform hname
  rw [variadicSql, spelling_eq hname, pure_bind]
  refine (keptOperands_settles h).bind fun kept hkept => ?_
  obtain ⟨parts, rfl, hparts⟩ := hkept
  exact .pure (joinOperands_fits hop harity hs context hne hparts)

theorem inListSql_settles (hop : op ∈ Operator.all) (harity : op.arity = .inList)
    (hname : b.dialect.operatorName op.name = some name) {subject : Fragment} {t : Tree}
    (hsubject : subject.FitsAs b refused t) {items : List Fragment} {ts : List Tree}
    (hne : ts ≠ []) (hitems : List.Forall₂ (Fragment.FitsAs b refused) items ts) (context : Nat) :
    (inListSql b.dialect op subject items context).Settles refused fun sql =>
      Fits b context (.op op.name (t :: ts)) sql.chars := by
  have hform : op.form? = some .listed := by simp [Operator.form?, harity]
  obtain ⟨words, hs⟩ := spelled hop hform hname
  have hsome : items.isEmpty = false := by
    cases hitems with
    | nil => exact absurd rfl hne
    | cons => rfl
  rw [inListSql, spelling_eq hname, pure_bind, hsome, if_neg Bool.false_ne_true]
  refine (hsubject.sql _).bind fun left hleft => ?_
  refine (membersSql_settles hitems).bind fun right hright => .pure (Fits.wrap ?_ context)
  obtain ⟨sqls, hsqls, hlist⟩ := hright
  have hsqlsNe : sqls ≠ [] := by
    rintro rfl
    cases hsqls
    exact hne rfl
  have hlisted := Fits.listed hop harity hs hleft hsqls hsqlsNe
  simpa [hlist] using hlisted

theorem operatorSql_settles (hop : op ∈ Operator.all)
    (hname : b.dialect.operatorName op.name = some name) (shown : String) {fs : List Fragment}
    {ts : List Tree} (htakes : op.Takes fs.length)
    (h : List.Forall₂ (Fragment.FitsAs b refused) fs ts) (context : Nat) :
    (operatorSql b.dialect op shown fs context).Settles refused fun sql =>
      Fits b context (.op op.name ts) sql.chars := by
  have hform : ∀ form, op.form? = some form → ∃ words, Spelled b op form name words :=
    fun form hform => spelled hop hform hname
  unfold Operator.Takes at htakes
  unfold Operator.form? at hform
  cases harity : op.arity with
  | nullary | ternary | vendor =>
      rw [harity] at htakes
      exact htakes.elim
  | unaryPrefix =>
      simp only [harity] at htakes hform
      obtain ⟨words, hs⟩ := hform .leading rfl
      obtain ⟨f, rfl⟩ := List.length_eq_one_iff.mp htakes
      cases h with
      | cons hoperand hrest =>
          cases hrest
          simp only [operatorSql, harity, spelling_eq hname, pure_bind]
          refine (hoperand.sql op.rank).bind fun sql hsql => .pure (Fits.wrap ?_ context)
          simpa using Fits.leading hop harity hs hsql
  | unaryPostfix =>
      simp only [harity] at htakes hform
      obtain ⟨words, hs⟩ := hform .trailing rfl
      obtain ⟨f, rfl⟩ := List.length_eq_one_iff.mp htakes
      cases h with
      | cons hoperand hrest =>
          cases hrest
          simp only [operatorSql, harity, spelling_eq hname, pure_bind]
          refine (hoperand.sql _).bind fun sql hsql => .pure (Fits.wrap ?_ context)
          simpa using Fits.trailing hop harity hs hsql
  | binary =>
      simp only [harity] at htakes hform
      obtain ⟨words, hs⟩ := hform _ rfl
      obtain ⟨f, g, rfl⟩ := List.length_eq_two.mp htakes
      cases h with
      | cons hleft hrest =>
          cases hrest with
          | cons hright hrest =>
              cases hrest
              simp only [operatorSql, harity, spelling_eq hname, pure_bind]
              refine (hleft.sql _).bind fun left hleft => ?_
              refine (hright.sql _).bind fun right hright => .pure (Fits.wrap ?_ context)
              have hbinary := Fits.binary hop harity (by simp [Operator.form?, harity]) hs hleft hright
              simpa using hbinary
  | variadic =>
      simp only [harity] at htakes
      simp only [operatorSql, harity]
      refine variadicSql_settles hop harity hname ?_ h context
      rintro rfl
      cases h
      simp at htakes
  | inList =>
      simp only [harity] at htakes
      cases h with
      | nil => simp at htakes
      | cons hsubject hitems =>
          simp only [operatorSql, harity]
          refine inListSql_settles hop harity hname hsubject ?_ hitems context
          rintro rfl
          cases hitems
          simp at htakes

end Operators

section Expressions

variable {b : Builtin} (scope : Scope)

/-- A plain field is written as one word. -/
theorem fieldSql_word {name : String} (hname : Text.isIdentifier name = true)
    (hword : isOperatorWord name = false) :
    (fieldSql b.dialect scope name).Settles (Field.isAs name = true) fun sql =>
      ∃ s, sql.chars = s.toList ∧ IsWord s (.name (b.path scope name)) := by
  rw [fieldSql, parse_identifier hname]
  split
  · exact ‹_›
  · exact .pure ⟨_, Sql.chars_ofString _, b.isWord_fieldName scope hname hword⟩

theorem fieldSql_settles {name : String} (hname : Text.isIdentifier name = true)
    (hword : isOperatorWord name = false) :
    (fieldSql b.dialect scope name).Settles (Field.isAs name = true) fun sql =>
      Fits b 0 (.field (b.path scope name)) sql.chars := by
  refine (fieldSql_word scope hname hword).mono id fun sql hsql => ?_
  obtain ⟨s, hchars, hs⟩ := hsql
  rw [hchars]
  exact Fits.of_word hs (.field _) rfl (by simp)

/-- A parameter is written as one word. -/
theorem paramSql_word (name : String) :
    (paramSql name).Settles (Text.isIdentifier name = false) fun sql =>
      ∃ s, sql.chars = s.toList ∧ IsWord s (.param name) := by
  unfold paramSql
  split
  · rename_i hname
    have hchars : (Sql.ofMark (.reference name)).chars = (":" ++ name).toList := by
      simp [Sql.chars, Sql.render, Sql.ofMark, Chunk.render, Mark.text]
    exact .pure ⟨_, hchars, isWord_param hname⟩
  · exact Bool.eq_false_iff.mpr ‹_›

theorem paramSql_settles (name : String) :
    (paramSql name).Settles (Text.isIdentifier name = false) fun sql =>
      Fits b 0 (.param name) sql.chars := by
  refine (paramSql_word name).mono id fun sql hsql => ?_
  obtain ⟨s, hchars, hs⟩ := hsql
  rw [hchars]
  exact Fits.of_word hs (.param name) rfl (by simp)

theorem callSql_settles {refused : Prop} {name : String} (hword : isOperatorWord name = false)
    (hrefused : (Text.dotParts name).all Text.isIdentifier = false → refused)
    {fs : List Fragment} {ts : List Tree} (h : List.Forall₂ (Fragment.FitsAs b refused) fs ts) :
    (callSql name fs).Settles refused fun sql =>
      Fits b 0 (.call (Text.dotParts name.toUpper) ts) sql.chars := by
  unfold callSql
  split
  · rename_i hname
    exact hrefused ((Bool.not_eq_true' _).mp hname)
  · rename_i hname
    refine (Fragment.settles_alone h).bind fun sqls hsqls => .pure ?_
    have hcall := Fits.call (by simpa using hname) hword hsqls
    simpa using hcall

theorem fitsAs_all {refused : Prop} {es : List (Expr (Build Sql))}
    (h : ∀ e ∈ es, (e.fragment b.dialect scope).FitsAs b refused (e.tree b scope)) :
    List.Forall₂ (Fragment.FitsAs b refused) (Expr.fragments b.dialect scope es)
      (Expr.trees b scope es) := by
  rw [Expr.fragments_eq_map, Expr.trees_eq_map, List.forall₂_map_left_iff,
    List.forall₂_map_right_iff, List.forall₂_same]
  exact h

/-- The text of a readable expression fits into every context. -/
theorem fragment_fitsAs {e : Expr (Build Sql)} (h : e.Readable b) :
    (e.fragment b.dialect scope).FitsAs b e.Refused (e.tree b scope) := by
  induction e using Expr.induct with
  | literal | subquery | shorthand => cases h
  | field name label =>
      cases h with
      | field hname hword =>
          exact Fragment.fitsAs_leaf ((fieldSql_settles scope hname hword).mono .field fun _ h => h)
  | param name => exact Fragment.fitsAs_leaf ((paramSql_settles name).mono .param fun _ h => h)
  | call name args ih =>
      cases h with
      | call hword hargs =>
          refine Fragment.fitsAs_leaf (callSql_settles hword .call (fitsAs_all scope ?_))
          exact fun e he => (ih e he (hargs e he)).mono (.argument he)
  | op name operands ih =>
      cases h with
      | @op _ found _ hop hname htakes hoperands =>
          obtain ⟨spelled, hname⟩ := Option.isSome_iff_exists.mp hname
          obtain ⟨hmem, hcanonical⟩ := Operator.find?_eq_some hop
          have hfits : ∀ e ∈ operands, (e.fragment b.dialect scope).FitsAs b
              (Expr.op name operands).Refused (e.tree b scope) :=
            fun e he => (ih e he (hoperands e he)).mono (.operand he)
          have hlength : (Expr.fragments b.dialect scope operands).length = operands.length := by
            rw [Expr.fragments_eq_map, List.length_map]
          rw [Expr.fragment, Expr.tree, hcanonical, application]
          refine ⟨rfl, fun context => ?_⟩
          have happlication : ∀ shown, applicationSql b.dialect name shown
              (Expr.fragments b.dialect scope operands) context =
                operatorSql b.dialect found shown (Expr.fragments b.dialect scope operands)
                  context := by
            intro shown
            rw [applicationSql.eq_def, hop]
          refine (happlication _ ▸ operatorSql_settles hmem hname _ (hlength ▸ htakes)
            (fitsAs_all scope hfits) context).mono id fun sql hsql => ⟨hsql, fun hatomic => ?_⟩
          -- there is no operand to do without
          have hnone : operands = [] := by
            rw [Expr.fragments_eq_map] at hatomic
            simpa using hatomic
          subst hnone
          exact absurd htakes found.not_takes_zero

/-- Parenthesization preserves structure. A readable expression is written unless it holds a refused
name, and whatever is written for it is read as exactly one tree, which is that of the expression up
to merging nested applications of a variadic operator and dropping those to one operand. -/
theorem Expr.sql_reads_back {e : Expr (Build Sql)} (h : e.Readable b) (binder : Binder) :
    (¬ e.Refused → ∃ sql, (e.sql b.dialect scope).run binder = (.ok sql, binder)) ∧
      ∀ sql, ((e.sql b.dialect scope).run binder).1 = .ok sql →
        ∃ t, (∀ t', b.ReadsText sql.render t' ↔ t' = t) ∧
          t.merged = (e.tree b scope).merged := by
  have hsettles := (fragment_fitsAs scope h).sql Operator.loosest
  obtain ⟨sql, hrun, hfits⟩ | ⟨hrefused, fault, hrun⟩ := hsettles.run binder
  · refine ⟨fun _ => ⟨sql, hrun⟩, fun sql' hsql' => ?_⟩
    rw [Expr.sql, Expr.sqlIn, hrun] at hsql'
    obtain rfl := Except.ok.inj hsql'
    obtain ⟨t, hreads, hmerged⟩ := hfits.reads
    have htext : b.ReadsText sql.render t := by
      have hwhole := hreads []
      rw [List.append_nil] at hwhole
      exact hwhole
    refine ⟨t, fun t' => ⟨fun ht' => ht'.unique htext, ?_⟩, hmerged⟩
    rintro rfl
    exact htext
  · refine ⟨fun hnot => absurd hrefused hnot, fun sql' hsql' => ?_⟩
    rw [Expr.sql, Expr.sqlIn, hrun] at hsql'
    cases hsql'

end Expressions

namespace Expr

/-- A negation around nested and lone chains, a list and a test of a negation. -/
def grouped : Expr (Build Sql) :=
  .op "not" [.op "OR"
    [.op "AND" [.field "open" none, .op "AND"
      [.op "in" [.op "-" [.field "total" none, .op "-" [.field "paid" none, .param "due"]],
        .call "lower" [.field "kind" none], .param "other"]]],
      .op "is null" [.op "NOT" [.op "OR" [.field "done" none]]]]]

theorem sql_reads_back_grouped :
    grouped.Readable .postgres ∧ ¬ grouped.Refused ∧ ∃ sql t,
      (grouped.sql Builtin.postgres.dialect ⟨some "t", true⟩).run (Binder.ofBag Bag.empty) =
        (.ok sql, Binder.ofBag Bag.empty) ∧
      sql.render = "NOT (t.open AND t.total - (t.paid - :due) IN (LOWER(t.kind), :other)" ++
        " OR (NOT t.done) IS NULL)" ∧
      (∀ t', Builtin.postgres.ReadsText sql.render t' ↔ t' = t) ∧
      t.merged = (grouped.tree .postgres ⟨some "t", true⟩).merged := by
  have hreadable : grouped.Readable .postgres := by decide +kernel
  have hnot : ¬ grouped.Refused := by decide +kernel
  have hback := sql_reads_back ⟨some "t", true⟩ hreadable (Binder.ofBag Bag.empty)
  obtain ⟨sql, hrun⟩ := hback.1 hnot
  have htext : ((grouped.sql Builtin.postgres.dialect ⟨some "t", true⟩).run
      (Binder.ofBag Bag.empty)).1.toOption.map Sql.render =
        some ("NOT (t.open AND t.total - (t.paid - :due) IN (LOWER(t.kind), :other)" ++
          " OR (NOT t.done) IS NULL)") := by
    decide +kernel
  rw [hrun] at htext
  obtain ⟨t, hreads, hmerged⟩ := hback.2 sql (congrArg Prod.fst hrun)
  exact ⟨hreadable, hnot, sql, t, hrun, Option.some.inj htext, hreads, hmerged⟩

end Expr

end QueryCompiler
