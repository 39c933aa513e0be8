import QueryCompiler.Proofs.BuildEnsures
import QueryCompiler.Proofs.DocumentNodes
import QueryCompiler.Proofs.ExprAlike
import QueryCompiler.Proofs.ParameterSafety

/-!
# Strings of a document as data

A string that a document gives as a value, by `$value` or as a column of an inserted row, is lifted
out of the text: the text holds a generated placeholder, and the string is bound to it. Strings that
look like SQL are not always kept out of it: where a value goes through the compiler as a literal,
a placeholder, a quoted text or a parenthesized text is written as it stands. A row of scalars does
not go that way, so its strings are data whatever they look like.
-/
namespace QueryCompiler

/-- What is written for a string that looks like SQL: the placeholder that it is, or the text itself
if it closes what it opens. -/
def asItStands (s : String) : Except Fault Sql :=
  match Mark.ofText? s with
  | some mark => .ok (.ofMark mark)
  | none => if Field.isBalanced s then .ok s else .error (.invalidValue (.unbalanced s))

theorem stringSql_of_sql {s : String} (h : isDataText s = false) :
    stringSql s = Build.ofExcept (asItStands s) := by
  unfold stringSql asItStands
  cases hmark : Mark.ofText? s with
  | some mark => rfl
  | none =>
      have hstart : Text.startsWithAny ['\'', '('] s = true := by
        unfold Mark.ofText? at hmark
        split at hmark
        · cases hmark
        · rename_i hpositional
          split at hmark
          · cases hmark
          · rename_i hnamed
            simpa [isDataText, hpositional, hnamed] using h
      simp only [hstart, if_true]
      split <;> rfl

namespace Build

variable {α : Type}

/-- Answers that are found item by item stand in the relation of the items to other things. -/
theorem Ensures.mapM_related {ι κ : Type} {H : String → Value → Prop} {R : κ → α → Prop}
    {f : ι → Build α} {ks : List κ} {xs : List ι}
    (h : List.Forall₂ (fun k x => (f x).Ensures H (R k)) ks xs) :
    (xs.mapM f).Ensures H (List.Forall₂ R ks) := by
  induction h with
  | nil => exact .pure .nil
  | cons hfirst _ ih =>
      rw [List.mapM_cons]
      exact hfirst.bind fun a ha => ih.bind fun answers hanswers => .pure (.cons ha hanswers)

end Build

namespace Document

/-- A string given by `$value` is lifted under the first free generated name, so that no part of it
is written, exactly if it does not look like SQL. Anything else is written as it stands, and
nothing is bound. -/
theorem value_is_data (d : Dialect) (scope : Scope) (context : Nat) (binder : Binder) :
    ∃ n, Search binder.bag.contains Binder.generatedName (binder.count + 1) n ∧
      ∀ (members : List (String × Json)) (v : String),
        Json.member? "$value" members = some (.text v) →
        ∃ e, Document.expr d (.object members) = .ok e ∧
          let build := (Query.foldExpr (Query.nestedStep d) e).sqlIn d scope context
          (isDataText v = true →
            build.run binder = (.ok (.ofMark (.lifted (Binder.generatedName n))),
              ⟨binder.bag.insert (Binder.generatedName n) (.text v), n⟩) ∧
            build.lifts binder = [(Binder.generatedName n, .text v)]) ∧
          (isDataText v = false →
            build.run binder = (asItStands v, binder) ∧ build.lifts binder = []) := by
  obtain ⟨n, hsearch, hnull⟩ := binder.lift_search .null
  refine ⟨n, hsearch, fun members v hmember => ?_⟩
  refine ⟨.literal (.text v), expr_of_value d hmember rfl, ?_⟩
  -- The number of a generated name depends on the names in use, not on the value.
  have hlift : binder.lift (.text v) =
      (Binder.generatedName n, ⟨binder.bag.insert (Binder.generatedName n) (.text v), n⟩) := by
    have hcount := congrArg (fun lifted => lifted.2.count) hnull
    simp only [Binder.lift] at hcount ⊢
    rw [hcount]
  change (_ → (stringSql v).run binder = _ ∧ (stringSql v).lifts binder = _) ∧
    (_ → (stringSql v).run binder = _ ∧ (stringSql v).lifts binder = _)
  constructor
  · intro hdata
    rw [stringSql_of_data hdata]
    change (Except.ok (Sql.ofMark (.lifted (binder.lift (.text v)).1)),
      (binder.lift (.text v)).2) = _ ∧
      [((binder.lift (.text v)).1, Value.text v)] = _
    rw [hlift]
    exact ⟨rfl, rfl⟩
  · intro hsql
    rw [stringSql_of_sql hsql]
    exact Build.run_ofExcept _ binder

theorem value_is_data_ada : ∃ n e,
    Document.expr Dialect.postgres (.object [("$value", .text "ada")]) = .ok e ∧
      ((Query.foldExpr (Query.nestedStep Dialect.postgres) e).sqlIn Dialect.postgres Scope.none
        Operator.loosest).run (Binder.ofBag Bag.empty) =
          (.ok (.ofMark (.lifted (Binder.generatedName n))),
            ⟨Bag.empty.insert (Binder.generatedName n) (.text "ada"), n⟩) := by
  obtain ⟨n, -, hread⟩ :=
    value_is_data Dialect.postgres Scope.none Operator.loosest (Binder.ofBag Bag.empty)
  obtain ⟨e, he, hdata, -⟩ := hread [("$value", .text "ada")] "ada" rfl
  exact ⟨n, e, he, (hdata (by decide)).1⟩

/-- A string in parentheses is written as a query of its own, and nothing is bound. -/
theorem value_is_written : ∃ e,
    Document.expr Dialect.postgres
        (.object [("$value", .text "(SELECT password FROM users)")]) = .ok e ∧
      ((Query.foldExpr (Query.nestedStep Dialect.postgres) e).sqlIn Dialect.postgres Scope.none
        Operator.loosest).run (Binder.ofBag Bag.empty) =
          (.ok (.ofString "(SELECT password FROM users)"), Binder.ofBag Bag.empty) ∧
      ∀ name, Sql.ofString "(SELECT password FROM users)" ≠ .ofMark (.lifted name) := by
  refine ⟨.literal (.text "(SELECT password FROM users)"), rfl, by with_unfolding_all rfl, ?_⟩
  intro name h
  cases h

end Document

namespace Query

/-- A name was generated for a value that it stands for, and is not bound in the query. -/
structure Generates (q : Query) (params : Bag) (name : String) (v : Value) : Prop where
  generated : ∃ n, name = Binder.generatedName n
  bound : params.get? name = some v
  unbound : ∀ value, ¬ q.Binds name value

/-- What the statement of a query ensures of its text, the compiled query has. -/
theorem compiled_ensures {d : Dialect} {q : Query} {c : Compiled} {P : Sql → Prop}
    (hc : q.compileWith d = .ok c)
    (h : ((prepared d q.statement).sql d).Ensures (q.Generates c.params) P) :
    ∃ sql, P sql ∧ c.sql = sql.render := by
  obtain ⟨sql, hwritten, hsql⟩ := written_of_compileWith hc
  obtain ⟨reserved, after, hreserve, hrun, -⟩ := run_compileSteps hwritten
  refine ⟨sql, h.run (fun lifted hlifted => ?_) (by rw [hrun]), hsql⟩
  have hgenerated := Build.lifts_generated _ _ lifted hlifted
  rw [← lifts_eq hreserve] at hlifted
  obtain ⟨hunbound, hbound⟩ := (written_params hwritten).2 lifted hlifted
  exact ⟨hgenerated, hbound, hunbound⟩

end Query

/-! Insertions. -/

section Insertion

variable {H : String → Value → Prop} {d : Dialect}

theorem liftPlaceholder_ensures (v : Value) :
    (liftPlaceholder v).Ensures H fun item => ∃ name, item = .ofMark (.lifted name) ∧ H name v :=
  (Build.Ensures.lift v).bind fun name hname => .pure ⟨name, rfl, hname⟩

/-- A literal string is lifted or written as it stands. -/
theorem stringSql_ensures (s : String) : (stringSql s).Ensures H fun item =>
    (isDataText s = true → ∃ name, item = .ofMark (.lifted name) ∧ H name (.text s)) ∧
      (isDataText s = false → asItStands s = .ok item) := by
  cases hdata : isDataText s with
  | true =>
      rw [stringSql_of_data hdata]
      exact (liftPlaceholder_ensures _).mono fun item hitem => ⟨fun _ => hitem, nofun⟩
  | false =>
      rw [stringSql_of_sql hdata]
      exact .ofExcept fun item hitem => ⟨nofun, fun _ => hitem⟩

/-- What an insertion writes in its columns, given what its source writes in them. -/
theorem Statement.insertSql_ensures {s : Statement (Build Sql)} {source : InsertSource (Build Sql)}
    {P : Sql → Prop} (hsource : s.source = some source)
    (h : ∀ attributes, (source.sql d attributes).Ensures H P) :
    (s.insertSql d).Ensures H fun sql =>
      ∃ table row, P row ∧ sql = "INSERT INTO " ++ d.dotted table ++ row := by
  rw [insertSql]
  refine (Build.Ensures.ofExcept fun _ _ => trivial).bind (P := fun _ => True) ?_
  rintro ⟨table, name⟩ -
  rw [hsource]
  exact (h table.attributes).bind fun row hrow => .pure ⟨name, row, hrow, rfl⟩

variable {κ : Type} {R : κ → Sql → Prop} {columns : List κ}

theorem exprRowSql_ensures {pairs : List (String × Expr (Build Sql))}
    (h : List.Forall₂ (fun column pair => (pair.2.sql d Scope.none).Ensures H (R column))
      columns pairs) :
    (exprRowSql d pairs).Ensures H fun row =>
      ∃ items, List.Forall₂ R columns items ∧ row = rowSql d (pairs.map (·.1)) items := by
  unfold exprRowSql
  split
  · trivial
  · exact (Build.Ensures.mapM_related h).bind fun items hitems => .pure ⟨items, hitems, rfl⟩

theorem valueRowSql_ensures {pairs : List (String × Value)}
    (h : List.Forall₂ (fun column pair => (liftPlaceholder pair.2).Ensures H (R column))
      columns pairs) :
    (valueRowSql d pairs).Ensures H fun row =>
      ∃ items, List.Forall₂ R columns items ∧ row = rowSql d (pairs.map (·.1)) items := by
  unfold valueRowSql
  split
  · trivial
  · exact (Build.Ensures.mapM_related h).bind fun items hitems => .pure ⟨items, hitems, rfl⟩

end Insertion

namespace Document

/-- What an insertion writes in a column that the document gives as a string. -/
def InsertedAs (q : Query) (params : Bag) (values : List (String × Json))
    (value : String × Json) (item : Sql) : Prop :=
  ∀ s, value.2 = .text s →
    ((∀ other ∈ values, isScalar other.2 = true) ∨ isDataText s = true →
        ∃ name, item = .ofMark (.lifted name) ∧ q.Generates params name (.text s)) ∧
      ((∃ other ∈ values, isScalar other.2 = false) ∧ isDataText s = false →
        asItStands s = .ok item)

/-- Either way of writing a row writes its strings as described. -/
theorem insertedRow_ensures {d : Dialect} {q : Query} {params : Bag}
    {values : List (String × Json)} {row : InsertSource Query}
    (hrow : insertedRow (Node.ofMembers d values) = .ok row) (g : Query → Build Sql)
    (attributes : List String) :
    ((row.map g).sql d attributes).Ensures (q.Generates params) fun sql =>
      ∃ items, List.Forall₂ (InsertedAs q params values) values items ∧
        sql = rowSql d (values.map (·.1)) items := by
  obtain ⟨pairs, rfl, hscalars, hpairs⟩ | ⟨pairs, rfl, ⟨other, hother, hmixed⟩, hpairs⟩ :=
    insertedRow_ok d hrow
  · have hnames : values.map (·.1) = pairs.map (·.1) := by
      refine List.forall₂_eq_eq_eq ▸ ?_
      rw [List.forall₂_map_left_iff, List.forall₂_map_right_iff]
      exact hpairs.imp fun _ _ hpair => hpair.1.symm
    rw [hnames]
    refine valueRowSql_ensures (hpairs.imp fun value pair hpair => ?_)
    refine (liftPlaceholder_ensures pair.2).mono fun item hitem s hs => ⟨fun _ => ?_, ?_⟩
    · rw [hs, Value.ofJson?, Option.some.injEq] at hpair
      rwa [hpair.2]
    · rintro ⟨⟨other, hother, hmixed⟩, -⟩
      rw [hscalars other hother] at hmixed
      cases hmixed
  · have hnames : values.map (·.1) = (pairs.map (mapPair g)).map (·.1) := by
      refine List.forall₂_eq_eq_eq ▸ ?_
      rw [List.forall₂_map_left_iff, List.forall₂_map_right_iff, List.forall₂_map_right_iff]
      exact hpairs.imp fun _ _ hpair => hpair.1.symm
    rw [hnames]
    refine exprRowSql_ensures (List.forall₂_map_right_iff.mpr (hpairs.imp fun value pair hpair => ?_))
    by_cases htext : ∃ s, value.2 = .text s
    · obtain ⟨s, hs⟩ := htext
      have hliteral : (mapPair g pair).2 = .literal (.text s) := by
        rw [mapPair, hpair.2 (.text s) (by rw [hs]; rfl), Expr.map]
      rw [hliteral]
      refine (stringSql_ensures s).mono fun item hitem s' hs' => ?_
      obtain rfl : s = s' := Json.text.inj (hs.symm.trans hs')
      refine ⟨?_, fun hsql => hitem.2 hsql.2⟩
      rintro (hscalars | hdata)
      · rw [hscalars other hother] at hmixed
        cases hmixed
      · exact hitem.1 hdata
    · exact (Build.Ensures.trivial _).mono fun item _ s hs => absurd ⟨s, hs⟩ htext

/-- The strings of an inserted row are data, each bound to a generated placeholder in its column, if
all columns are scalars or the string does not look like SQL. Beside a column that is no scalar, a
string that looks like SQL is written as it stands. -/
theorem inserted_strings_are_data {b : Builtin} {members values : List (String × Json)}
    {kind : String} {q : Query} {c : Compiled}
    (hq : Document.query b.dialect (.object members) = .ok q)
    (hkind : Json.member? "type" members = some (.text kind)) (hinsert : kind.toLower = "insert")
    (hvalues : Json.member? "values" members = some (.object values)) (hc : q.compile = .ok c) :
    ∃ table items, List.Forall₂ (InsertedAs q c.params values) values items ∧
      c.sql = ("INSERT INTO " ++ b.dialect.dotted table ++
        rowSql b.dialect (values.map (·.1)) items : Sql).render := by
  obtain ⟨hdialect, hkindq, row, hrow, hsource⟩ := insertion_of_query _ hq hkind hinsert hvalues
  rw [Query.compile, hdialect] at hc
  have hprepared : (Query.prepared b.dialect q.statement).sql b.dialect =
      (q.statement.map (Query.fold (Query.nestedStep b.dialect))).insertSql b.dialect := by
    rw [Query.prepared, Query.foldStatement_eq_map, Statement.sql]
    simp only [Statement.map, hkindq]
  have hmapped : (q.statement.map (Query.fold (Query.nestedStep b.dialect))).source =
      some (row.map (Query.fold (Query.nestedStep b.dialect))) := by
    rw [Statement.map, hsource, Option.map_some]
  obtain ⟨sql, ⟨table, text, ⟨items, hitems, rfl⟩, rfl⟩, hsql⟩ := Query.compiled_ensures hc (by
    rw [hprepared]
    exact Statement.insertSql_ensures hmapped (insertedRow_ensures hrow _))
  exact ⟨table, items, hitems, hsql⟩

/-- The members of a document that inserts a user. -/
def insertingUser (name : String) (age : Json) : List (String × Json) :=
  [("type", .text "INSERT"), ("from", .text "users"),
    ("values", .object [("name", .text name), ("age", age)])]

/-- The text and the number of parameters that come of a document. -/
def outcome (d : Dialect) (j : Json) : Except Fault (String × Nat) := do
  let c ← (← Document.query d j).compile
  return (c.sql, c.params.size)

theorem inserted_strings_are_data_ada : ∃ q c name,
    Document.query Dialect.mysql
        (.object (insertingUser "ada" (.list [.text "+", .int 35, .int 1]))) = .ok q ∧
      q.compile = .ok c ∧ c.params.get? name = some (.text "ada") := by
  have hok : (outcome Dialect.mysql
      (.object (insertingUser "ada" (.list [.text "+", .int 35, .int 1])))).toOption =
        some ("INSERT INTO users (name, age) VALUES (:p1, 35 + 1)", 1) := by
    decide +kernel
  obtain ⟨answer, hanswer, -⟩ := Except.exists_of_toOption (f := id) (by rw [hok]; rfl)
  obtain ⟨q, hq, hrest⟩ := Except.bind_eq_ok.mp hanswer
  obtain ⟨c, hc, -⟩ := Except.bind_eq_ok.mp hrest
  obtain ⟨table, items, hitems, -⟩ :=
    inserted_strings_are_data (b := .mysql) hq rfl (by decide +kernel) rfl hc
  obtain _ | ⟨hname, -⟩ := hitems
  obtain ⟨name, -, hname⟩ := (hname "ada" rfl).1 (.inr (by decide))
  exact ⟨q, c, name, hq, hc, hname.bound⟩

/-- Beside a scalar a string in parentheses is bound; beside an expression it is written as a query
of its own. -/
theorem inserted_string_is_written :
    (outcome Dialect.postgres (.object (insertingUser "(SELECT 1)" (.int 36)))).toOption =
        some ("INSERT INTO users (name, age) VALUES (:p1, :p2)", 2) ∧
      (outcome Dialect.postgres
          (.object (insertingUser "(SELECT 1)" (.list [.text "+", .int 35, .int 1])))).toOption =
        some ("INSERT INTO users (name, age) VALUES ((SELECT 1), 35 + 1)", 0) :=
  ⟨by decide +kernel, by decide +kernel⟩

end Document

end QueryCompiler
