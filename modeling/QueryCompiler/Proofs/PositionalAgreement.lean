import QueryCompiler.Proofs.UnnamedText

/-!
# Positional parameters across dialects

Which question mark of a compiled query stands for which parameter does not depend on the dialect,
if all texts close their quotes. The one exception is the key of an order that places nulls: a
dialect that cannot say where nulls go writes the key twice, and so the question marks in it.
-/
namespace QueryCompiler

/-! Texts that ask for nothing. -/

/-- A string that is written as it stands has no question mark outside quotes. -/
def StringUnasking (s : String) : Prop :=
  Text.startsWithAny ['\'', '('] s = true → Field.isBalanced s = true → Unasking s

/-- So has a label that is quoted already. -/
def LabelUnasking (name : String) : Prop := Field.isVerbatim name = true → Unasking name

/-- So have the parts of a dotted name. -/
def PartsUnasking (name : String) : Prop := ∀ part ∈ Text.dotParts name, LabelUnasking part

/-- The text of a field, if it is one, is unasking as it stands, or else its parts are. -/
def FieldUnasking (text : String) : Prop :=
  ∀ f, Field.parse text = .ok f → LabelUnasking f.name ∧
    (Field.isVerbatim f.name = false → PartsUnasking f.name)

instance : DecidablePred StringUnasking := fun s => inferInstanceAs (Decidable
  (Text.startsWithAny ['\'', '('] s = true → Field.isBalanced s = true → Unasking s))

instance : DecidablePred LabelUnasking := fun name => inferInstanceAs
  (Decidable (Field.isVerbatim name = true → Unasking name))

instance : DecidablePred PartsUnasking := fun name => inferInstanceAs
  (Decidable (∀ part ∈ Text.dotParts name, LabelUnasking part))

instance : DecidablePred FieldUnasking := fun text =>
  match h : Field.parse text with
  | .ok f => decidable_of_iff (LabelUnasking f.name ∧
      (Field.isVerbatim f.name = false → PartsUnasking f.name)) <| by simp [FieldUnasking, h]
  | .error _ => isTrue <| by simp [FieldUnasking, h]

/-- Texts without a question mark outside quotes, as far as they are written as they stand. -/
def Vocabulary.silent : Vocabulary where
  string := StringUnasking
  field := FieldUnasking
  table := PartsUnasking
  label := LabelUnasking
  sub := by decide

/-- A placeholder that is no question mark, even if some names are given up. -/
def Mark.KeepsName (names : List String) (m : Mark) : Prop := m.unname names ≠ positional

/-- Neither an expression nor a query nested in it asks for a parameter by position. -/
structure Expr.IsSilent (names : List String) (e : Expr Query) : Prop where
  fits : e.Fits .silent (Mark.KeepsName names)
  nested : ∀ inner ∈ e.subqueries, inner.Fits .silent (Mark.KeepsName names)

/-- Nulls are placed by the same means in both dialects, or no order that places nulls asks for a
parameter by position in its key. -/
def Query.PlacesNullsAlike (names : List String) (b b' : Builtin) (q : Query) : Prop :=
  b.dialect.ordersNulls = b'.dialect.ordersNulls ∨
    ∀ part : Query, part.PartOf q → part.statement.kind = .select →
      ∀ order ∈ part.statement.orders, order.nulls ≠ none → order.expr.IsSilent names

namespace Asking

variable {names : List String} {b b' : Builtin}

theorem nothing_asked {s t : String} (hs : Unasking s) (ht : Unasking t) :
    questions s = [] ∧ questions t = [] :=
  ⟨questions_of_unasking hs, questions_of_unasking ht⟩

/-- Two texts that ask for nothing. -/
def silent (names : List String) (b b' : Builtin) : Asking names .silent b b' where
  Rel xs ys := xs = [] ∧ ys = []
  Allowed := Mark.KeepsName names
  nil := ⟨rfl, rfl⟩
  append h h' := by simp [h, h']
  mark hm := by
    have hnone : (Sql.ofMark _).asks names = [] := (Sql.asks_ofMark _).trans (if_neg hm)
    exact ⟨hnone, hnone⟩
  string h hstart hbalanced := nothing_asked (h hstart hbalanced) (h hstart hbalanced)
  field h scope f hf :=
    nothing_asked (b.composes_unasking.fieldName scope (h f hf).1 (h f hf).2)
      (b'.composes_unasking.fieldName scope (h f hf).1 (h f hf).2)
  table h := nothing_asked (b.composes_unasking.dotted h) (b'.composes_unasking.dotted h)
  label h := nothing_asked (b.composes_unasking.labelName h) (b'.composes_unasking.labelName h)

/-- What asks for nothing may be written twice. -/
theorem silent_order {key key' : Sql}
    (h : (silent names b b').Rel (key.asks names) (key'.asks names))
    (direction : Field.Direction) (nulls : Option Field.Nulls) :
    (silent names b b').Rel ((orderSql b.dialect key direction nulls).asks names)
      ((orderSql b'.dialect key' direction nulls).asks names) := by
  obtain ⟨hkey, hkey'⟩ := h
  rw [asks_orderSql, asks_orderSql, hkey, hkey']
  simp [silent]

def silentWording (names : List String) (hb : b ≠ .mysql) :
    Wording Build.alongside .silent b b' where
  toPhrasing := (silent names b b').phrasing hb
  order := silent_order

end Asking

namespace Query

variable {names : List String} {b b' : Builtin} {q : Query}

/-- The key of an order that is silent, and the queries nested in it, ask for nothing. -/
theorem silentKey_related (hb : b ≠ .mysql) {e : Expr Query} (h : e.IsSilent names)
    (scope : Scope) :
    Build.alongside.Rel (fun a a' => a.asks names = [] ∧ a'.asks names = [])
      ((e.map (fold (nestedStep b.dialect))).sql b.dialect scope)
      (((e.revise (.unnaming [])).map
        fun inner => (inner.revise (.unnaming [])).fold (nestedStep b'.dialect)).sql b'.dialect
          scope) :=
  e.sql_related (Asking.silentWording names hb).toPhrasing scope h.fits fun inner hinner =>
    nestedStep_of_orders (Asking.silentWording names hb).toPhrasing (h.nested inner hinner)
      (ordersRelated (Asking.silentWording names hb) (h.nested inner hinner))
      (Build.mergesAll_alongside _)

theorem orders_askAlike (hb : b ≠ .mysql) (huses : q.Uses .closedQuotes)
    (hnulls : q.PlacesNullsAlike names b b') :
    q.OrdersRelated ((Asking.same names b b').phrasing hb) := by
  intro part hpart hkind hinner order horder scope
  have hmem := Statement.mem_exprs_of_order horder
  -- Only one dialect writes the key twice in the second case, so nothing may be asked for in it.
  by_cases hplain : order.nulls = none ∨ b.dialect.ordersNulls = b'.dialect.ordersNulls
  · refine order.sql_related _ scope (((huses part hpart).exprs _ hmem).fits fun _ => trivial)
      (fun inner hin => hinner inner (Statement.mem_subqueries_of_expr hmem hin)) ?_
    exact fun _ _ hkey => (Asking.same names b b').order hkey _ hplain
  · obtain ⟨hplaced, hdiffer⟩ := not_or.mp hplain
    have hsilent := hnulls.resolve_left hdiffer part hpart hkind order horder hplaced
    refine Build.alongside.bind (silentKey_related hb hsilent scope) fun key key' hkey => ?_
    have hboth := @Asking.silent_order names b b' key key' hkey order.direction order.nulls
    exact Build.alongside.pure (hboth.1.trans hboth.2.symm)

/-- Compiled in two dialects, a query asks for the same parameters in the same order. -/
theorem asks_eq_of_ne (hb : b ≠ .mysql) (huses : q.Uses .closedQuotes)
    (hnulls : q.PlacesNullsAlike names b b') {sql sql' : Sql} {params params' : Bag}
    (h : q.written b.dialect = .ok (sql, params))
    (h' : q.written b'.dialect = .ok (sql', params')) :
    sql.asks names = sql'.asks names := by
  have hsteps := compileSteps_of_orders ((Asking.same names b b').phrasing hb)
    (huses.fits fun _ => trivial) (orders_askAlike hb huses hnulls) (Build.mergesAll_alongside _)
  have hsame : ((Asking.same names b b').phrasing hb).IsSame := ⟨rfl, fun _ => trivial⟩
  rw [hsame.revision, revise_unchanged] at hsteps
  obtain ⟨_, hwritten, hasks⟩ := written_alongside hsteps rfl h'
  obtain ⟨rfl, -⟩ := Prod.mk.inj (Except.ok.inj (hwritten.symm.trans h))
  exact hasks

theorem asks_eq (huses : q.Uses .closedQuotes) (hnulls : q.PlacesNullsAlike names b b')
    {sql sql' : Sql} {params params' : Bag} (h : q.written b.dialect = .ok (sql, params))
    (h' : q.written b'.dialect = .ok (sql', params')) : sql.asks names = sql'.asks names := by
  -- MySQL may give up where the others go on, so it is followed as the second dialect.
  by_cases hb : b = .mysql
  · by_cases hb' : b' = .mysql
    · subst hb hb'
      obtain ⟨rfl, -⟩ := Prod.mk.inj (Except.ok.inj (h.symm.trans h'))
      rfl
    · exact (asks_eq_of_ne hb' huses (hnulls.imp_left Eq.symm) h' h).symm
  · exact asks_eq_of_ne hb huses hnulls h h'

end Query

/-- What is asked for is a parameter whose name is given up, or stays a question mark. -/
def IsAsked (names : List String) (text : String) : Prop :=
  text = "?" ∨ ∃ name ∈ names, text = ":" ++ name

theorem eq_of_mem_questions {s text : String} (h : text ∈ questions s) : text = "?" := by
  have hfrom : ∀ (cs : List Char) (quote : Option Char), text ∈ questionsFrom quote cs →
      text = "?" := by
    intro cs
    induction cs with
    | nil => exact fun _ h => absurd h List.not_mem_nil
    | cons c rest ih =>
        intro quote h
        rw [questionsFrom, List.mem_append] at h
        obtain h | h := h
        · split at h
          · exact List.mem_singleton.mp h
          · exact absurd h List.not_mem_nil
        · exact ih _ h
  exact hfrom s.toList none h

theorem Sql.isAsked_of_mem {names : List String} {sql : Sql} {text : String}
    (h : text ∈ sql.asks names) : IsAsked names text := by
  obtain ⟨chunk, -, hchunk⟩ := List.mem_flatMap.mp h
  cases chunk with
  | text s => exact .inl (eq_of_mem_questions hchunk)
  | mark m =>
      rw [Chunk.asks] at hchunk
      split at hchunk
      · rename_i hasks
        obtain rfl := List.mem_singleton.mp hchunk
        cases m with
        | positional => exact .inl rfl
        | reference name =>
            rw [Mark.unname] at hasks
            split at hasks
            · exact .inr ⟨name, ‹_›, rfl⟩
            · cases hasks
        | lifted name => cases hasks
      · exact absurd hchunk List.not_mem_nil

namespace Query

variable {names : List String} {b b' : Builtin} {q : Query}

/-- Preparing the compiled query finds as many question marks as there are texts, and knows them by
their numbers. Filled with these texts, one after another, the compiled query is the query with
names. -/
structure AsksFor (b : Builtin) (q : Query) (texts : List String) (c : Compiled) : Prop where
  numbers : ((Prepared.prepare b.dialect c.sql).names.filter fun name => !Text.isIdentifier name) =
    (List.range' 1 texts.length).map toString
  count : (Piece.ofText c.sql).count .positional = texts.length
  named : q.compileWith b.dialect =
    .ok ⟨String.ofList (Piece.fill texts (Piece.ofText c.sql)), c.params⟩

/-- The question marks of a query without names are filled with the names of the query with
names. -/
theorem exists_asksFor (huses : q.Uses .closedQuotes) {c : Compiled}
    (hc : (q.unname names).compileWith b.dialect = .ok c) :
    ∃ sql, q.written b.dialect = .ok (sql, c.params) ∧ q.AsksFor b (sql.asks names) c := by
  obtain ⟨sql', hwritten', hsql'⟩ := written_of_compileWith hc
  obtain ⟨sql, hwritten, hunnamed⟩ := written_unname b huses hwritten'
  obtain ⟨hcount, hfill⟩ := (Piece.scans none sql'.render.toList).fill_eq hunnamed.fills
  refine ⟨sql, hwritten, ?_, ?_, ?_⟩
  · have hnumbers := (Piece.scans none sql'.render.toList).numbers b.dialect.placeholder 0 0
    rw [hcount, ← hsql'] at hnumbers
    exact hnumbers
  · rw [hsql']
    exact hcount
  · rw [hsql', Piece.ofText, hfill, compileWith, hwritten, Sql.chars, String.ofList_toList]
    rfl

/-- Which question mark stands for which parameter is the same in two dialects. Some parameters of a
query are named, to tell them apart, and then these names are given up: filled with the same texts,
one after another, the question marks found in both compiled texts give back what the query with
names is compiled to. -/
theorem positional_agree (huses : q.Uses .closedQuotes) (hnulls : q.PlacesNullsAlike names b b')
    {c c' : Compiled} (hc : (q.unname names).compileWith b.dialect = .ok c)
    (hc' : (q.unname names).compileWith b'.dialect = .ok c') :
    ∃ texts : List String, (∀ text ∈ texts, IsAsked names text) ∧
      q.AsksFor b texts c ∧ q.AsksFor b' texts c' := by
  obtain ⟨sql, hwritten, hasks⟩ := exists_asksFor huses hc
  obtain ⟨sql', hwritten', hasks'⟩ := exists_asksFor huses hc'
  rw [← asks_eq huses hnulls hwritten hwritten'] at hasks'
  exact ⟨sql.asks names, fun _ => Sql.isAsked_of_mem, hasks, hasks'⟩

/-- Tasks of a kind and title, those without a date last. -/
def dueTasks : Query :=
  mk Dialect.postgres Bag.empty
    { Statement.empty with
      tables := [.named "tasks"]
      filter := some (.conj [.equal (.plainField "kind") (.param "kind"),
        .op "ILIKE" [.plainField "title", .literal (.text ":title")]])
      orders := [⟨.plainField "due", .ascending, some .last⟩] }

theorem dueTasks_closed : dueTasks.Uses .closedQuotes := by
  intro part hpart
  obtain rfl := hpart.eq_of_flat rfl
  have hfield : ∀ text ∈ ["kind", "title", "due"], FieldKeeps ClosesQuotes text := by decide +kernel
  have huses : ∀ text ∈ ["kind", "title", "due"],
      Expr.Uses (ν := Query) .closedQuotes (.plainField text) :=
    fun text htext => .field (hfield text htext)
  have htitle : StringKeeps ClosesQuotes ":title" := by decide
  refine ⟨?_, ?_, ?_, ?_, ?_⟩
  · refine List.forall_mem_cons.mpr ⟨.op ?_, List.forall_mem_singleton.mpr (huses _ (by simp))⟩
    refine List.forall_mem_cons.mpr ⟨.op ?_, List.forall_mem_singleton.mpr (.op ?_)⟩
    · exact List.forall_mem_cons.mpr ⟨huses _ (by simp), List.forall_mem_singleton.mpr .param⟩
    · refine List.forall_mem_cons.mpr ⟨huses _ (by simp), List.forall_mem_singleton.mpr ?_⟩
      exact .literal (by rintro s ⟨⟩; exact htitle)
  · exact fun _ hitem => absurd hitem List.not_mem_nil
  · have htables : PartsKeep ClosesQuotes "tasks" := by decide
    refine List.forall_mem_singleton.mpr ?_
    rintro name ⟨⟩
    exact htables
  · rintro labels ⟨⟩ label (htable | hjoin)
    · cases List.mem_singleton.mp htable
    · exact absurd hjoin List.not_mem_nil
  · rintro labels ⟨⟩ join label hjoin
    exact absurd hjoin List.not_mem_nil

theorem dueTasks_placesNulls (b b' : Builtin) :
    dueTasks.PlacesNullsAlike ["kind", "title"] b b' := by
  refine .inr fun part hpart _ => ?_
  obtain rfl := hpart.eq_of_flat rfl
  have hdue : FieldUnasking "due" := by decide +kernel
  exact List.forall_mem_singleton.mpr fun _ =>
    ⟨.field hdue, fun _ hinner => absurd hinner List.not_mem_nil⟩

theorem positional_agree_dueTasks :
    dueTasks.Uses .closedQuotes ∧ dueTasks.PlacesNullsAlike ["kind", "title"] .postgres .mysql ∧
      ∃ c c' : Compiled,
        (dueTasks.unname ["kind", "title"]).compileWith Dialect.postgres = .ok c ∧
        (dueTasks.unname ["kind", "title"]).compileWith Dialect.mysql = .ok c' ∧
        c.sql = "SELECT * FROM tasks WHERE kind = ? AND title ILIKE ? ORDER BY due NULLS LAST" ∧
        c'.sql = "SELECT * FROM tasks WHERE kind = ? AND LOWER(title) LIKE LOWER(?) " ++
          "ORDER BY ISNULL(due), due" ∧
        ∃ texts : List String, (∀ text ∈ texts, IsAsked ["kind", "title"] text) ∧
          dueTasks.AsksFor .postgres texts c ∧ dueTasks.AsksFor .mysql texts c' := by
  have hsql : ((dueTasks.unname ["kind", "title"]).compileWith Dialect.postgres).toOption.map
      Compiled.sql =
        some "SELECT * FROM tasks WHERE kind = ? AND title ILIKE ? ORDER BY due NULLS LAST" := by
    decide +kernel
  have hsql' : ((dueTasks.unname ["kind", "title"]).compileWith Dialect.mysql).toOption.map
      Compiled.sql = some ("SELECT * FROM tasks WHERE kind = ? AND LOWER(title) LIKE LOWER(?) " ++
        "ORDER BY ISNULL(due), due") := by
    decide +kernel
  obtain ⟨c, hc, htext⟩ := Except.exists_of_toOption hsql
  obtain ⟨c', hc', htext'⟩ := Except.exists_of_toOption hsql'
  have hplaced := dueTasks_placesNulls .postgres .mysql
  exact ⟨dueTasks_closed, hplaced, c, c', hc, hc', htext, htext',
    @positional_agree _ .postgres .mysql _ dueTasks_closed hplaced c c' hc hc'⟩

/-- An order by whether a field matches a parameter, rows without an answer last. -/
def orderedByMatch : Query :=
  mk Dialect.postgres Bag.empty
    { Statement.empty with
      tables := [.named "t"]
      orders := [⟨.equal (.plainField "a") (.literal (.text "?")), .ascending, some .last⟩] }

/-- The same question mark is the first parameter in one dialect, and the first and the second in
the other. -/
theorem orderedByMatch_disagrees :
    ∃ c c' : Compiled, orderedByMatch.compileWith Dialect.postgres = .ok c ∧
      orderedByMatch.compileWith Dialect.mysql = .ok c' ∧
      c.sql = "SELECT * FROM t ORDER BY a = ? NULLS LAST" ∧
      c'.sql = "SELECT * FROM t ORDER BY ISNULL(a = ?), a = ?" ∧
      (Prepared.prepare Dialect.postgres c.sql).names = ["1"] ∧
      (Prepared.prepare Dialect.mysql c'.sql).names = ["1", "2"] ∧
      (Piece.ofText c.sql).count .positional ≠ (Piece.ofText c'.sql).count .positional := by
  have hsql : (orderedByMatch.compileWith Dialect.postgres).toOption.map Compiled.sql =
      some "SELECT * FROM t ORDER BY a = ? NULLS LAST" := by
    decide +kernel
  have hsql' : (orderedByMatch.compileWith Dialect.mysql).toOption.map Compiled.sql =
      some "SELECT * FROM t ORDER BY ISNULL(a = ?), a = ?" := by
    decide +kernel
  obtain ⟨c, hc, htext⟩ := Except.exists_of_toOption hsql
  obtain ⟨c', hc', htext'⟩ := Except.exists_of_toOption hsql'
  refine ⟨c, c', hc, hc', htext, htext', ?_⟩
  rw [htext, htext']
  decide +kernel

end Query

end QueryCompiler
