import QueryCompiler.Proofs.ConditionExpr
import QueryCompiler.Proofs.ConditionText
import QueryCompiler.Proofs.Parenthesization

/-!
# Constants are folded faithfully

Conjunctions and disjunctions drop operands and decide by their texts, and a single operand that is
left stands for the whole. What is written for a condition, in a context as tight as a negation or
looser, is read back as a condition with the value of the original under every assignment of true,
false and unknown to the atoms.
-/
namespace QueryCompiler

open Build (Settles)

theorem Sql.render_eq {sql : Sql} {s : String} : sql.render = s ↔ sql.chars = s.toList :=
  String.toList_inj.symm

namespace Connective

variable (op : Connective)

theorem absorbing_eq : absorbing? op.word = some (boolWord !op.unit) := by
  cases op <;> rfl

theorem neutral_eq : neutral? op.word = some (boolWord op.unit) := by
  cases op <;> rfl

theorem identity_eq : Operator.identity? op.word = some (boolWord op.unit) := by
  cases op <;> rfl

theorem operatorName_word (b : Builtin) : b.dialect.operatorName op.word = some op.word := by
  cases b <;> cases op <;> decide +kernel

theorem negation_le_rank : 38 ≤ op.rank := by
  cases op <;> decide

end Connective

/-- The operator of the table that a name is looked up as. -/
theorem Operator.find?_of_canonical {name : String} {op : Operator} (hop : op ∈ all)
    (h : canonical name = op.name) : find? name = some op := by
  have hall : ∀ op ∈ all, all.find? (·.name == op.name) = some op := by decide +kernel
  rw [find?, h]
  exact hall op hop

/-- A fragment that is written with a value in every context as tight as a negation or looser, or
has a reason to fail. -/
def Fragment.MeansAs (b : Builtin) (refused : Prop) (m : Meaning) (f : Fragment) : Prop :=
  ∀ context, 38 ≤ context → (f.sql context).Settles refused fun sql =>
    Means b (conditionLevel context) m sql.chars ∧ (f.atomic = true → Means b 0 m sql.chars)

section Fragments

variable {b : Builtin} {refused refused' : Prop} {m : Meaning} {f : Fragment}

theorem Fragment.MeansAs.mono (h : f.MeansAs b refused m) (himp : refused → refused') :
    f.MeansAs b refused' m :=
  fun context hcontext => (h context hcontext).mono himp fun _ hsql => hsql

/-- A text that is read on level 0 has its value in every context. -/
theorem meansAs_of_zero (h : ∀ context, 38 ≤ context → (f.sql context).Settles refused fun sql =>
    Means b 0 m sql.chars) : f.MeansAs b refused m :=
  fun context hcontext => (h context hcontext).mono id fun _ hsql =>
    ⟨hsql.mono (Nat.zero_le _) (conditionLevel_le context), fun _ => hsql⟩

variable {op : Connective} {fs : List Fragment} {ms : List Meaning}

/-- What remains of the operands: none of them if one decides the whole, else some that have the
value of all of them. -/
def Remains (b : Builtin) (op : Connective) (ms : List Meaning) :
    Option (List (Sql × Bool)) → Prop
  | none => ∀ v, op.all (ms.map (· v)) = .ofBool !op.unit
  | some parts => ∃ kept : List Meaning,
    List.Forall₂ (fun part m => Means b op.level m part.1.chars ∧
      (part.2 = true → Means b 0 m part.1.chars)) parts kept ∧
    ∀ v, op.all (kept.map (· v)) = op.all (ms.map (· v))

theorem keptOperands_remains (h : List.Forall₂ (fun f m => f.MeansAs b refused m) fs ms) :
    (keptOperands op.operator fs).Settles refused (Remains b op ms) := by
  induction h with
  | nil => exact .pure ⟨[], .nil, fun _ => rfl⟩
  | @cons f m fs ms hf _ ih =>
      have hrank : op.operator.rank = op.rank := rfl
      have hname : op.operator.name = op.word := rfl
      rw [keptOperands, hrank, hname, op.absorbing_eq, op.neutral_eq]
      refine (hf op.rank op.negation_le_rank).bind fun sql hsql => ?_
      obtain ⟨hmeans, hatomic⟩ := hsql
      rw [conditionLevel_rank] at hmeans
      have hloosest : op.level ≤ Connective.loosest := by cases op <;> decide
      have hconstant : ∀ value, some (boolWord value) = some sql.render →
          ∀ v, m v = .ofBool value := by
        intro value heq
        rw [Sql.render_eq.mp (Option.some.inj heq).symm] at hmeans
        exact hmeans.eq_constant hloosest
      split
      · rename_i hdecided
        refine .pure fun v => ?_
        rw [List.map_cons, Connective.all_cons, hconstant _ hdecided, Connective.decided_join]
      · refine ih.bind fun kept hkept => .pure ?_
        split
        · rename_i hdropped
          have hsame : ∀ v, op.all ((m :: ms).map (· v)) = op.all (ms.map (· v)) := by
            intro v
            rw [List.map_cons, Connective.all_cons, hconstant _ hdropped, Connective.unit_join]
          cases kept with
          | none => exact fun v => (hsame v).trans (hkept v)
          | some parts =>
              obtain ⟨ms', hparts, hvalue⟩ := hkept
              exact ⟨ms', hparts, fun v => (hvalue v).trans (hsame v).symm⟩
        · cases kept with
          | none =>
              intro v
              rw [List.map_cons, Connective.all_cons, hkept v, Connective.join_decided]
          | some parts =>
              obtain ⟨ms', hparts, hvalue⟩ := hkept
              refine ⟨m :: ms', .cons ⟨hmeans, hatomic⟩ hparts, fun v => ?_⟩
              rw [List.map_cons, Connective.all_cons, hvalue, List.map_cons, Connective.all_cons]

theorem joinOperands_unit (op : Connective) (context : Nat) :
    joinOperands op.operator op.word context [] = Sql.ofString (boolWord op.unit) := by
  have htext : (Operator.identity? op.operator.name).getD "NULL" = boolWord op.unit :=
    congrArg (Option.getD · "NULL") op.identity_eq
  rw [joinOperands, htext]

/-- Joining what remains. A single operand stands for the whole, in parentheses unless it brings
its own or needs none. -/
theorem joinOperands_means {kept : List Meaning} {parts : List (Sql × Bool)}
    (h : List.Forall₂ (fun part m => Means b op.level m part.1.chars ∧
      (part.2 = true → Means b 0 m part.1.chars)) parts kept) (context : Nat) :
    Means b (conditionLevel context) (fun v => op.all (kept.map (· v)))
      (joinOperands op.operator op.word context parts).chars := by
  have hloosest := conditionLevel_le context
  cases h with
  | nil =>
      rw [joinOperands_unit, Sql.chars_ofString]
      exact (Means.constant op.unit).mono (Nat.zero_le _) hloosest
  | @cons part m parts kept hfirst hrest =>
      obtain ⟨sql, atomic⟩ := part
      obtain ⟨hmeans, hatomic⟩ := hfirst
      cases hrest with
      | nil =>
          simp only [List.map_cons, List.map_nil, Connective.all_cons, Connective.all_nil,
            Connective.join_unit]
          rw [joinOperands]
          split
          · rename_i hwhole
            have hzero : Means b 0 m sql.chars := by
              obtain hatom | henclosed := (Bool.or_eq_true _ _).mp hwhole
              · exact hatomic hatom
              · exact hmeans.of_enclosed ((isEnclosed_eq _).symm.trans henclosed)
            exact hzero.mono (Nat.zero_le _) hloosest
          · exact hmeans.wrap context
      | @cons next m' parts kept hnext hrest =>
          have hsqls : List.Forall₂ (fun sql m => Means b op.level m sql.chars)
              (((sql, atomic) :: next :: parts).map (·.1)) (m :: m' :: kept) := by
            refine List.forall₂_map_left_iff.mpr (.cons hmeans (.cons hnext.1 ?_))
            exact hrest.imp fun _ _ hpart => hpart.1
          exact (Means.chain hsqls (by simp)).wrap context

theorem spelling_connective (b : Builtin) (op : Connective) :
    spelling b.dialect op.operator = pure op.word :=
  @spelling_eq b op.operator op.word (op.operatorName_word b)

/-- Without operands a connective is written as its unit. -/
theorem variadicSql_unit (context : Nat) :
    (variadicSql b.dialect op.operator [] context).Settles False fun sql =>
      Means b 0 (fun _ => .ofBool op.unit) sql.chars := by
  rw [variadicSql, spelling_connective, pure_bind, keptOperands, pure_bind]
  refine .pure ?_
  rw [joinOperands_unit, Sql.chars_ofString]
  exact .constant op.unit

theorem variadicSql_means (h : List.Forall₂ (fun f m => f.MeansAs b refused m) fs ms)
    (context : Nat) :
    (variadicSql b.dialect op.operator fs context).Settles refused fun sql =>
      Means b (conditionLevel context) (fun v => op.all (ms.map (· v))) sql.chars := by
  rw [variadicSql, spelling_connective, pure_bind]
  refine (keptOperands_remains h).bind fun kept hkept => ?_
  cases kept with
  | none =>
      have htext : (absorbing? op.operator.name).getD "NULL" = boolWord !op.unit :=
        congrArg (Option.getD · "NULL") op.absorbing_eq
      have hvalue : (fun v => op.all (ms.map (· v))) = fun _ => Truth.ofBool !op.unit :=
        funext hkept
      refine .pure ?_
      rw [htext, Sql.chars_ofString, hvalue]
      exact (Means.constant _).mono (Nat.zero_le _) (conditionLevel_le context)
  | some parts =>
      obtain ⟨ms', hparts, hvalue⟩ := hkept
      refine .pure ?_
      simp only [← hvalue]
      exact joinOperands_means hparts context

theorem applicationSql_eq {name : String} {op : Operator} (hop : op ∈ Operator.all)
    (h : Operator.canonical name = op.name) (shown : String) (context : Nat) :
    applicationSql b.dialect name shown fs context = operatorSql b.dialect op shown fs context := by
  rw [applicationSql.eq_def, Operator.find?_of_canonical hop h]

theorem keywordSql_means {name : String} {value : Bool}
    (h : Operator.canonical name = boolWord value) (shown : String) (context : Nat) :
    (applicationSql b.dialect name shown [] context).Settles refused fun sql =>
      Means b 0 (fun _ => .ofBool value) sql.chars := by
  obtain ⟨op, hop, hname, harity⟩ :
      ∃ op ∈ Operator.all, op.name = boolWord value ∧ op.arity = .nullary := by
    cases value <;> decide
  have hspelled : b.dialect.operatorName op.name = some (boolWord value) := by
    rw [hname]
    cases b <;> cases value <;> decide +kernel
  rw [applicationSql_eq hop (h.trans hname.symm)]
  simp only [operatorSql, harity, spelling_eq hspelled, pure_bind]
  refine .pure ?_
  rw [Sql.chars_ofString]
  exact .constant value

/-- A test for membership in an empty list is a constant, whatever its subject. -/
theorem memberSql_means {name : String} (h : Operator.canonical name ∈ ["IN", "NOT IN"])
    (subject : Fragment) (shown : String) (context : Nat) :
    (applicationSql b.dialect name shown [subject] context).Settles refused fun sql =>
      Means b 0 (fun _ => .ofBool (Operator.canonical name == "NOT IN")) sql.chars := by
  obtain ⟨op, hop, hname, harity⟩ :
      ∃ op ∈ Operator.all, op.name = Operator.canonical name ∧ op.arity = .inList := by
    revert h
    generalize Operator.canonical name = word
    revert word
    decide
  have hall : ∀ b : Builtin, ∀ word ∈ ["IN", "NOT IN"], b.dialect.operatorName word = some word := by
    intro b
    cases b <;> decide +kernel
  have hspelled := hall b _ h
  rw [← hname] at hspelled ⊢
  rw [applicationSql_eq hop hname.symm]
  simp only [operatorSql, harity, inListSql, spelling_eq hspelled, pure_bind, List.isEmpty_nil,
    if_true]
  refine .pure ?_
  rw [Sql.chars_ofString]
  exact .constant _

/-- A negation needs no parentheses in a context that is no tighter. -/
theorem negationSql_means {name : String} (h : Operator.canonical name = "NOT")
    (hoperand : f.MeansAs b refused m) (shown : String) {context : Nat} (hcontext : 38 ≤ context) :
    (applicationSql b.dialect name shown [f] context).Settles refused fun sql =>
      Means b (conditionLevel context) (fun v => (m v).not) sql.chars := by
  obtain ⟨op, hop, hname, harity, hrank⟩ :
      ∃ op ∈ Operator.all, op.name = "NOT" ∧ op.arity = .unaryPrefix ∧ op.rank = 38 := by
    decide
  have hspelled : b.dialect.operatorName op.name = some "NOT" := by
    rw [hname]
    cases b <;> decide +kernel
  rw [applicationSql_eq hop (h.trans hname.symm)]
  simp only [operatorSql, harity, spelling_eq hspelled, pure_bind, hrank]
  refine (hoperand 38 (Nat.le_refl _)).bind fun sql hsql => .pure ?_
  rw [Operator.wrap, if_neg (Nat.not_lt.mpr hcontext)]
  have hneg := (hsql.1.neg).mono (one_le_conditionLevel context) (conditionLevel_le context)
  simpa using hneg

/-- A comparison of words. -/
theorem comparisonSql_means {name : String} (h : Operator.canonical name ∈ comparisonNames)
    (hrefused : b.dialect.operatorName (Operator.canonical name) = none → refused)
    {left right : Build Sql} {l r : List String}
    (hleft : left.Settles refused fun sql => ∃ s, sql = Sql.ofString s ∧ IsWord s (.name l))
    (hright : right.Settles refused fun sql => ∃ s, sql = Sql.ofString s ∧ IsWord s (.name r))
    (shown : String) {context : Nat} (hcontext : 38 ≤ context) :
    (applicationSql b.dialect name shown [.leaf left, .leaf right] context).Settles refused
      fun sql => Means b 0 (fun v => v (.comparison (Operator.canonical name) l r)) sql.chars := by
  have hall : ∀ word ∈ comparisonNames, ∃ op ∈ Operator.all, op.name = word ∧
      op.arity = .binary ∧ op.rank < 38 ∧ op.form? = some .between := by
    decide +kernel
  obtain ⟨op, hop, hname, harity, hrank, hform⟩ := hall _ h
  rw [applicationSql_eq hop hname.symm]
  rw [← hname] at hrefused ⊢
  simp only [operatorSql, harity]
  cases hspelled : b.dialect.operatorName op.name with
  | none =>
      have hfail : spelling b.dialect op = .fail (.unsupported op.name b.dialect.name) := by
        rw [spelling, Dialect.spelling, hspelled]
        rfl
      rw [hfail]
      exact hrefused hspelled
  | some spelled' =>
      obtain ⟨words, hs⟩ := spelled hop hform hspelled
      rw [spelling_eq hspelled, pure_bind]
      refine hleft.bind fun _ hsql => ?_
      obtain ⟨s, rfl, hs⟩ := hsql
      refine hright.bind fun _ hsql => .pure ?_
      obtain ⟨t, rfl, ht⟩ := hsql
      rw [Operator.wrap, if_neg (by omega)]
      have hcompared := Means.comparison (b := b) hs ht ‹_›
      simpa using hcompared

end Fragments

section Expressions

variable {b : Builtin} {scope : Scope}

theorem plainField_settles {name : String} (h : b.PlainField scope name) :
    (fieldSql b.dialect scope name).Settles (Field.isAs name = true) fun sql =>
      ∃ s, sql = Sql.ofString s ∧ IsWord s (.name (b.fieldPath scope name)) := by
  rw [fieldSql, parse_dotted h.identifiers]
  split
  · exact ‹_›
  · exact .pure ⟨_, rfl, b.isWord_fieldName_of_written scope h.identifiers h.written⟩

/-- The text of a condition has its value. -/
theorem Expr.fragment_means {e : Expr (Build Sql)} (h : e.IsCondition b scope) :
    (e.fragment b.dialect scope).MeansAs b (e.Unwritable b) fun v => e.value b scope v := by
  induction h with
  | @literal value =>
      refine meansAs_of_zero fun context _ => .pure ?_
      rw [Sql.chars_ofString]
      exact .constant value
  | @keyword name value hname =>
      refine meansAs_of_zero fun context _ => ?_
      simp only [value_keyword hname]
      exact keywordSql_means hname _ context
  | @field name label hplain =>
      refine meansAs_of_zero fun context _ => ?_
      refine (plainField_settles hplain).mono .field fun sql hsql => ?_
      obtain ⟨s, rfl, hword⟩ := hsql
      rw [Sql.chars_ofString]
      exact Means.of_word hword (.field _) fun _ => rfl
  | @comparison name left right l r hname hleft hright =>
      refine meansAs_of_zero fun context hcontext => ?_
      simp only [value_comparison hname]
      refine comparisonSql_means hname .operator ?_ ?_ _ hcontext
      · exact (plainField_settles hleft).mono (fun h => .operand List.mem_cons_self (.field h))
          fun _ hsql => hsql
      · exact (plainField_settles hright).mono
          (fun h => .operand (List.mem_cons_of_mem _ List.mem_cons_self) (.field h))
          fun _ hsql => hsql
  | @neg name operand hname _ ih =>
      intro context hcontext
      simp only [value_neg hname]
      have hoperand : (operand.fragment b.dialect scope).MeansAs b
          ((Expr.op name [operand]).Unwritable b) fun v => operand.value b scope v :=
        ih.mono (.operand List.mem_cons_self)
      refine (negationSql_means hname hoperand _ hcontext).mono id fun _ hsql => ⟨hsql, ?_⟩
      rintro ⟨⟩
  | @joined name c operands hname _ ih =>
      have happlied : ∀ shown context, applicationSql b.dialect name shown
          (Expr.fragments b.dialect scope operands) context =
            variadicSql b.dialect c.operator (Expr.fragments b.dialect scope operands) context := by
        intro shown context
        have harity : c.operator.arity = .variadic := rfl
        rw [applicationSql_eq c.operator_mem hname]
        simp only [operatorSql, harity]
      have hmeans : List.Forall₂ (fun f m => f.MeansAs b ((Expr.op name operands).Unwritable b) m)
          (Expr.fragments b.dialect scope operands)
          (operands.map fun e v => e.value b scope v) := by
        rw [Expr.fragments_eq_map, List.forall₂_map_left_iff, List.forall₂_map_right_iff,
          List.forall₂_same]
        exact fun e he => (ih e he).mono (.operand he)
      intro context _
      simp only [value_joined hname]
      rw [Expr.fragment, application]
      dsimp only
      rw [happlied]
      cases operands with
      | nil =>
          have hunit : (variadicSql b.dialect c.operator [] context).Settles False fun sql =>
              Means b 0 (fun _ => .ofBool c.unit) sql.chars := variadicSql_unit context
          exact hunit.mono False.elim fun sql hsql =>
            ⟨hsql.mono (Nat.zero_le _) (conditionLevel_le context), fun _ => hsql⟩
      | cons first rest =>
          refine (variadicSql_means hmeans context).mono id fun sql hsql => ⟨?_, ?_⟩
          · simpa [List.map_map, Function.comp_def] using hsql
          · rintro ⟨⟩
  | @member name subject hname =>
      refine meansAs_of_zero fun context _ => ?_
      simp only [value_member hname]
      exact memberSql_means hname _ _ context

namespace Expr

/-- Folding keeps the value. In a context as tight as a negation or looser a condition is written
unless it holds what the compiler refuses. Whatever is written is read on the level of the context,
and as one condition only, which under every assignment to the atoms has the value of the original. -/
theorem sqlIn_keeps_value {e : Expr (Build Sql)} (h : e.IsCondition b scope) {context : Nat}
    (hcontext : 38 ≤ context) (binder : Binder) :
    (¬ e.Unwritable b → ∃ sql, (e.sqlIn b.dialect scope context).run binder = (.ok sql, binder)) ∧
      ∀ sql, ((e.sqlIn b.dialect scope context).run binder).1 = .ok sql →
        ∃ c, b.ReadsCondition (conditionLevel context) sql.render c ∧
          (∀ c', b.ReadsCondition Connective.loosest sql.render c' ↔ c' = c) ∧
          ∀ v, c.value v = e.value b scope v := by
  obtain ⟨sql, hrun, hmeans, -⟩ | ⟨hrefused, fault, hrun⟩ :=
    ((fragment_means h) context hcontext).run binder
  · refine ⟨fun _ => ⟨sql, hrun⟩, fun sql' hsql' => ?_⟩
    rw [sqlIn, hrun] at hsql'
    obtain rfl := Except.ok.inj hsql'
    obtain ⟨c, hread, hvalue⟩ := hmeans.reads
    have hloose := hread.mono (conditionLevel_le context) (Nat.le_refl _)
    refine ⟨c, hread.read, fun c' => ⟨fun h' => (h'.unique hloose.read).1, ?_⟩, hvalue⟩
    rintro rfl
    exact hloose.read
  · refine ⟨fun hnot => absurd hrefused hnot, fun sql' hsql' => ?_⟩
    rw [sqlIn, hrun] at hsql'
    cases hsql'

/-- A negation of a disjunction, of which a field and a comparison are left. -/
def foldable : Expr (Build Sql) :=
  .op "not" [.op "OR"
    [.op "AND" [.op "true" [], .field "open" none, .op "and" []],
      .op "IN" [.field "kind" none],
      .op "and" [.op "or" [.op "<" [.field "paid" none, .field "total" none]],
        .literal (.bool true)]]]

theorem isCondition_foldable : foldable.IsCondition .postgres Scope.none := by
  have hplain : ∀ name ∈ ["open", "paid", "total"], Builtin.postgres.PlainField Scope.none name := by
    have hall : ∀ name ∈ ["open", "paid", "total"],
        (Text.dotParts name).all Text.isIdentifier = true ∧
          isOperatorWord (Builtin.postgres.dialect.fieldName Scope.none name) = false := by
      decide +kernel
    exact fun name hname => ⟨(hall name hname).1, (hall name hname).2⟩
  have hcompared : (Expr.op "<" [.field "paid" none, .field "total" none] :
      Expr (Build Sql)).IsCondition .postgres Scope.none :=
    .comparison (by decide +kernel) (hplain _ (by decide)) (hplain _ (by decide))
  have hleft : (Expr.op "AND" [.op "true" [], .field "open" none, .op "and" []] :
      Expr (Build Sql)).IsCondition .postgres Scope.none := by
    refine .joined (c := Connective.conj) (by decide +kernel) ?_
    simp only [List.mem_cons, List.not_mem_nil, or_false, forall_eq_or_imp, forall_eq]
    have htrue : Operator.canonical "true" = boolWord true := by decide +kernel
    exact ⟨.keyword htrue, .field (hplain _ (by decide)),
      .joined (c := Connective.conj) (by decide +kernel) (List.forall_mem_nil _)⟩
  have hright : (Expr.op "and" [.op "or" [.op "<" [.field "paid" none, .field "total" none]],
      .literal (.bool true)] : Expr (Build Sql)).IsCondition .postgres Scope.none := by
    refine .joined (c := Connective.conj) (by decide +kernel) ?_
    simp only [List.mem_cons, List.not_mem_nil, or_false, forall_eq_or_imp, forall_eq]
    refine ⟨.joined (c := Connective.disj) (by decide +kernel) ?_, .literal⟩
    simpa using hcompared
  refine .neg (by decide +kernel) (.joined (c := Connective.disj) (by decide +kernel) ?_)
  simp only [List.mem_cons, List.not_mem_nil, or_false, forall_eq_or_imp, forall_eq]
  exact ⟨hleft, .member (by decide +kernel), hright⟩

theorem sqlIn_keeps_value_foldable :
    foldable.IsCondition .postgres Scope.none ∧ 38 ≤ 41 ∧ ∃ sql c,
      ((foldable.sqlIn Builtin.postgres.dialect Scope.none 41).run (Binder.ofBag Bag.empty)).1 =
        .ok sql ∧
      sql.render = "NOT (open OR (paid < total))" ∧
      (∀ c', Builtin.postgres.ReadsCondition Connective.loosest sql.render c' ↔ c' = c) ∧
      ∀ v, c.value v = foldable.value .postgres Scope.none v := by
  have hback := sqlIn_keeps_value isCondition_foldable (by decide : 38 ≤ 41)
    (Binder.ofBag Bag.empty)
  have htext : ((foldable.sqlIn Builtin.postgres.dialect Scope.none 41).run
      (Binder.ofBag Bag.empty)).1.toOption.map Sql.render = some "NOT (open OR (paid < total))" := by
    decide +kernel
  cases hrun : ((foldable.sqlIn Builtin.postgres.dialect Scope.none 41).run
      (Binder.ofBag Bag.empty)).1 with
  | error fault => simp [hrun, Except.toOption] at htext
  | ok sql =>
      rw [hrun] at htext
      obtain ⟨c, -, hreads, hvalue⟩ := hback.2 sql hrun
      exact ⟨isCondition_foldable, by decide, sql, c, rfl, Option.some.inj htext, hreads, hvalue⟩

end Expr

end Expressions

end QueryCompiler
