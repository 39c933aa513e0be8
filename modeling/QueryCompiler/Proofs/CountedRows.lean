import QueryCompiler.Proofs.CountedQuery
import QueryCompiler.Proofs.SelectionRows
import QueryCompiler.Proofs.SessionReads

/-!
# The number of rows

Counting asks a connection for the number of rows. What it is told is right if the rows are counted
from outside, or if every tuple makes a row of its own: from inside, a selection with groups is
answered with the size of its first group.
-/
namespace QueryCompiler

namespace Read

variable {connection : Connection} {log : List Call}

/-- What the first fetch of a session answers. -/
theorem runFrom_all_ofQuery (q : Query) (connection : Connection) (log : List Call) :
    (all.runFrom (Session.ofQuery q (some connection) log)).1 =
      q.driverStatement.bind (connection.fetch log) := by
  rw [all, runFrom_get_bind]
  simp only [Session.ofQuery, runFrom_bind, runFrom_connection]
  have hstatement := runFrom_statement (Session.coherent_ofQuery q (some connection) log)
  simp only [Session.ofQuery] at hstatement
  rw [hstatement]
  cases q.driverStatement with
  | error fault => rfl
  | ok p =>
      simp only [runFrom_send, Session.filled, Except.bind]
      cases connection.fetch log p <;> rfl

theorem runFrom_scalar (s : Session) : (scalar.runFrom s).1 =
    (all.runFrom s).1.bind fun rows =>
      match rows.head? with
      | some row => .ok row.first
      | none => .error .rowNotFound := by
  rw [scalar, one]
  simp only [runFrom_bind]
  obtain ⟨_ | _ | ⟨row, rows⟩, after⟩ := all.runFrom s <;> rfl

theorem countOf_int (n : Nat) : countOf (.int n) = .ok n := by
  simp [countOf, Value.asInt]

/-- A count that is told one number by the connection. -/
theorem runFrom_count_of_fetch {s : Session} (hconnection : s.connection = some connection)
    {p : Prepared} (hp : s.query.counted.driverStatement = .ok p) {row : Row} {rows : List Row}
    (hfetch : connection.fetch s.log p = .ok (row :: rows)) {n : Nat} (hrow : row.first = .int n) :
    (count.runFrom s).1 = .ok n := by
  have hall : (all.runFrom s.counting).1 = .ok (row :: rows) := by
    rw [Session.counting, hconnection, runFrom_all_ofQuery, hp]
    exact hfetch
  rw [runFrom_count, runFrom_scalar, hall]
  simp [Except.bind, hrow, countOf_int]

end Read

/-- A connection answers the statement of a query with the rows that an engine gives for the query,
in some order, whatever it was sent before. -/
def Engine.Answers (E : Engine) (connection : Connection) (q : Query) : Prop :=
  ∀ p, q.driverStatement = .ok p → ∀ before,
    ∃ rows, connection.fetch before p = .ok rows ∧ rows.Perm (E.rows q)

/-- The number of rows of a query is asked from outside, or every tuple makes a row. -/
def Engine.CountsRows (E : Engine) (q : Query) : Prop :=
  q.statement.distinct = true ∨ q.statement.groups = [] ∧ q.statement.having = none ∧
    ∀ item ∈ q.statement.fields, E.aggregates (item.expr.map fun _ => ()) = false

namespace Engine

variable {E : Engine} {q : Query}

/-- From outside every row of a nested query is counted. -/
theorem first_rows_around (d : Dialect) (inner : Query) :
    (E.rows (Query.around d inner)).map Row.first = [.int (E.rows inner).length] := by
  rw [rows_eq, selection_countAll rfl rfl rfl, units_countAll rfl rfl rfl, List.map_singleton]
  have htuples : ∀ rows : E.Nested, (E.tuples E.outermost
      ((Query.around d inner).statement.map fun _ => rows)).length =
        (rows E.outermost).length := by
    intro rows
    rw [← E.length_source E.outermost rows (some "counted"), tuples]
    exact congrArg List.length (List.filter_eq_self.mpr fun _ _ => rfl)
  exact congrArg (fun n : Nat => [Value.int n]) (htuples (inner.fold _))

theorem isAggregate_map (g : Query → E.Nested) (e : Expr Query) :
    E.isAggregate (e.map g) = E.aggregates (e.map fun _ => ()) := by
  rw [isAggregate, Expr.map_map, Function.comp_def]

/-- The number of rows that the counting query asks for is the number of rows. -/
theorem first_rows_counted (h : E.CountsRows q) : (E.rows q.counted).map Row.first =
    [.int (E.rows (q.edit Statement.unbounded)).length] := by
  cases hdistinct : q.statement.distinct with
  | true => rw [Query.counted_of_distinct hdistinct, first_rows_around]
  | false =>
      obtain htrue | ⟨hgroups, hhaving, hfields⟩ := h
      · cases hdistinct.symm.trans htrue
      rw [Query.counted_of_not_distinct hdistinct, rows_eq, rows_eq]
      generalize (Query.fold fun _ _ s outer => E.selection outer s) = g
      have hnone : ∀ fields : List (SelectItem Query),
          ((q.statement.reselected fields).map g).groups = [] ∧
            ((q.statement.reselected fields).map g).having = none := fun fields =>
        ⟨List.map_eq_nil_iff.mpr hgroups, Option.map_eq_none_iff.mpr hhaving⟩
      have hplain : ∀ item ∈ (q.statement.unbounded.map g).fields,
          E.isAggregate item.expr = false := by
        refine List.forall_mem_map.mpr fun item hitem => ?_
        exact (isAggregate_map g item.expr).trans (hfields item hitem)
      have hlength : (E.selection E.outermost (q.statement.unbounded.map g)).length =
          (E.tuples E.outermost (q.statement.unbounded.map g)).length :=
        length_selection_of_ungrouped rfl hdistinct (hnone q.statement.fields).1
          (hnone q.statement.fields).2 hplain
      have hunits : E.units E.outermost ((q.statement.reselected [Statement.countAll]).map g) =
          [E.tuples E.outermost (q.statement.unbounded.map g)] :=
        units_countAll rfl (hnone [Statement.countAll]).1 (hnone [Statement.countAll]).2
      have hcount : (E.selection E.outermost
          ((q.statement.reselected [Statement.countAll]).map g)).map Row.first =
            (E.units E.outermost ((q.statement.reselected [Statement.countAll]).map g)).map
              fun unit => .int unit.length :=
        selection_countAll rfl hdistinct rfl
      rw [hunits] at hcount
      exact hcount.trans (congrArg (fun n : Nat => [Value.int n]) hlength.symm)

end Engine

namespace Prepared

/-- Placeholders that all have values are filled. -/
theorem exists_bind {p : Prepared} {params : Bag}
    (h : ∀ name ∈ p.names, params.contains name = true) : ∃ bound, p.bind params = .ok bound := by
  have hvalues : ∃ values, p.names.mapM (valueOf params) = .ok values := by
    generalize p.names = names at h
    induction names with
    | nil => exact ⟨[], rfl⟩
    | cons name rest ih =>
        obtain ⟨hname, hrest⟩ := List.forall_mem_cons.mp h
        obtain ⟨values, hvalues⟩ := ih hrest
        obtain ⟨v, hv⟩ := Option.isSome_iff_exists.mp hname
        exact ⟨v :: values, by
          simp [valueOf, hv, hvalues, Bind.bind, Except.bind, Pure.pure, Except.pure]⟩
  obtain ⟨values, hvalues⟩ := hvalues
  exact ⟨{ p with values }, by rw [bind, hvalues]; rfl⟩

end Prepared

namespace Query

/-- Counting a selection that compiles: the query that counts compiles too, and once all of its
placeholders have values, a connection that evaluates selections answers with the number of rows
that the selection itself has without its order and its bounds. -/
theorem count_eq_length_rows {b : Builtin} {s : Session} {connection : Connection} {E : Engine}
    (hdialect : s.query.dialect = b.dialect) (hkind : s.query.statement.kind = .select)
    (hcompiles : ∃ c, s.query.compile = .ok c)
    (hequal : s.query.statement.distinct = true → ∀ entry ∈ s.query.bound.entries,
      (entry.2 == entry.2) = true)
    (hconnection : s.connection = some connection) (hcounts : E.CountsRows s.query)
    (hrows : E.Answers connection (s.query.edit Statement.unbounded))
    (hcounted : E.Answers connection s.query.counted) :
    ∃ c c', s.query.counted.compile = .ok c ∧
      (s.query.edit Statement.unbounded).compile = .ok c' ∧
      ((∀ name ∈ (Prepared.prepare s.query.counted.dialect c.sql).names,
          c.params.contains name = true) →
        (Read.count.runFrom s).1 = .ok (E.rows (s.query.edit Statement.unbounded)).length) ∧
      ∀ log rows, (Read.all.runFrom (Session.ofQuery (s.query.edit Statement.unbounded)
          s.connection log)).1 = .ok rows →
        rows.length = (E.rows (s.query.edit Statement.unbounded)).length := by
  obtain ⟨c₀, hc₀⟩ := hcompiles
  obtain ⟨c, hc⟩ := counted_compiles hdialect hkind hequal hc₀
  rw [compile, hdialect] at hc₀
  obtain ⟨c', hc'⟩ := reselected_compiles hkind hc₀ (.inl rfl)
  refine ⟨c, c', hc, by rw [← hc', ← hdialect]; rfl, fun hnames => ?_, fun log rows hall => ?_⟩
  · obtain ⟨p, hp⟩ := Prepared.exists_bind hnames
    have hstatement : s.query.counted.driverStatement = .ok p := by
      rw [driverStatement, hc]
      exact hp
    obtain ⟨rows, hfetch, hperm⟩ := hcounted p hstatement s.log
    have hfirst : rows.map Row.first = [.int (E.rows (s.query.edit Statement.unbounded)).length] :=
      List.perm_singleton.mp (Engine.first_rows_counted hcounts ▸ hperm.map Row.first)
    obtain ⟨row, rest, rfl, hrow, -⟩ := List.map_eq_cons_iff.mp hfirst
    exact Read.runFrom_count_of_fetch hconnection hstatement hfetch hrow
  · rw [hconnection, Read.runFrom_all_ofQuery] at hall
    cases hp : (s.query.edit Statement.unbounded).driverStatement with
    | error fault =>
        rw [hp] at hall
        cases hall
    | ok p =>
        rw [hp] at hall
        obtain ⟨answered, hfetch, hperm⟩ := hrows p hp log
        obtain rfl : answered = rows := Except.ok.inj (hfetch.symm.trans hall)
        exact hperm.length_eq

/-- The value of a column of the first of the tuples, or a literal value. -/
def cellOf (tuples : List (List (String × Value))) {ν : Type} : Expr ν → Value
  | .literal v => v
  | .field name _ => ((tuples.headD []).lookup name).getD .null
  | _ => .null

/-- An engine with a single table. It looks up columns by name, and its only call is the number of
tuples. -/
def tableEngine (contents : List (List (String × Value))) : Engine where
  Tuple := List (String × Value)
  outermost := []
  source outer tables _ := match tables with
    | [⟨.subquery rows, _, _⟩] => (rows outer).map fun row => row.columns.zip row.values
    | _ => contents
  value _ tuples e := cellOf tuples e
  cells _ tuples item := match item.expr with
    | .call _ _ => [("count", .int tuples.length)]
    | e => [(e.display, cellOf tuples e)]
  everything _ tuples := tuples.headD []
  holds v := v == .bool true
  same v v' := v == v'
  aggregates e := match e with
    | .call _ _ => true
    | _ => false
  arrange _ _ lines := lines
  length_source _ _ _ := List.length_map _
  aggregates_countAll := rfl
  cells_countAll _ _ := ⟨"count", rfl⟩

/-- A connection that tells a selection from the query that counts its rows. -/
def answering (E : Engine) (q : Query) : Connection where
  dialect := q.dialect
  fetch _ p :=
    if q.counted.driverStatement.toOption.map Prepared.sql = some p.sql then .ok (E.rows q.counted)
    else .ok (E.rows (q.edit Statement.unbounded))
  execute _ _ := .ok 0

theorem answering_counted (E : Engine) (q : Query) : E.Answers (answering E q) q.counted := by
  intro p hp before
  refine ⟨E.rows q.counted, if_pos ?_, .refl _⟩
  rw [hp]
  rfl

theorem answering_rows {E : Engine} {q : Query}
    (h : q.counted.driverStatement.toOption.map Prepared.sql ≠
      (q.edit Statement.unbounded).driverStatement.toOption.map Prepared.sql) :
    E.Answers (answering E q) (q.edit Statement.unbounded) := by
  intro p hp before
  refine ⟨E.rows (q.edit Statement.unbounded), if_neg ?_, .refl _⟩
  rw [hp] at h
  exact h

/-- Four users in two teams. -/
def usersInTeams : Engine :=
  tableEngine [[("team_id", .int 1)], [("team_id", .int 1)], [("team_id", .int 2)],
    [("team_id", .int 1)]]

/-- The teams of the users, each once, the first of them only. -/
def distinctTeams : Query :=
  mk Dialect.postgres Bag.empty
    { Statement.empty with
      distinct := true, fields := [⟨.plainField "team_id", none⟩], tables := [.named "users"],
      orders := [⟨.plainField "team_id", .ascending, none⟩], limit := some 1 }

theorem count_eq_length_rows_distinct : ∃ c,
    distinctTeams.counted.compile = .ok c ∧
      c.sql = "SELECT COUNT(*) FROM (SELECT DISTINCT team_id FROM users) counted" ∧
      usersInTeams.Answers (answering usersInTeams distinctTeams)
        (distinctTeams.edit Statement.unbounded) ∧
      (usersInTeams.rows (distinctTeams.edit Statement.unbounded)).length = 2 ∧
      (Read.count.runFrom (Session.ofQuery distinctTeams
        (some (answering usersInTeams distinctTeams)) [])).1 = .ok 2 := by
  have hsql : distinctTeams.counted.compile.toOption.map Compiled.sql =
      some "SELECT COUNT(*) FROM (SELECT DISTINCT team_id FROM users) counted" := by
    decide +kernel
  have hcompiles : distinctTeams.compile.toOption.map Compiled.sql =
      some "SELECT DISTINCT team_id FROM users ORDER BY team_id LIMIT 1" := by
    decide +kernel
  have hrows : usersInTeams.Answers (answering usersInTeams distinctTeams)
      (distinctTeams.edit Statement.unbounded) :=
    answering_rows (by decide +kernel)
  have hlength : (usersInTeams.rows (distinctTeams.edit Statement.unbounded)).length = 2 := by
    decide +kernel
  obtain ⟨c₀, hc₀, -⟩ := Except.exists_of_toOption hcompiles
  obtain ⟨c₁, hc₁, hshown⟩ := Except.exists_of_toOption hsql
  obtain ⟨c, -, hc, -, hcount, -⟩ := @count_eq_length_rows .postgres
    (Session.ofQuery distinctTeams (some (answering usersInTeams distinctTeams)) [])
    (answering usersInTeams distinctTeams) usersInTeams rfl rfl ⟨c₀, hc₀⟩
    (fun _ => List.forall_mem_nil _) rfl (.inl rfl) hrows (answering_counted _ _)
  obtain rfl : c₁ = c := Except.ok.inj (hc₁.symm.trans hc)
  have hnames : (Prepared.prepare distinctTeams.counted.dialect c₁.sql).names = [] := by
    rw [hshown]
    decide +kernel
  refine ⟨c₁, hc₁, hshown, hrows, hlength, ?_⟩
  rw [← hlength]
  refine hcount ?_
  change ∀ name ∈ (Prepared.prepare distinctTeams.counted.dialect c₁.sql).names, _
  rw [hnames]
  exact List.forall_mem_nil _

/-- The teams of the users, by groups. -/
def groupedTeams : Query :=
  mk Dialect.postgres Bag.empty
    { Statement.empty with
      fields := [⟨.plainField "team_id", none⟩], tables := [.named "users"],
      groups := [.plainField "team_id"] }

/-- Of a selection with groups the first group is counted, and not the groups. -/
theorem count_of_groups :
    groupedTeams.statement.kind = .select ∧
      groupedTeams.compile.toOption.map Compiled.sql =
        some "SELECT team_id FROM users GROUP BY team_id" ∧
      groupedTeams.counted.compile.toOption.map Compiled.sql =
        some "SELECT COUNT(*) FROM users GROUP BY team_id" ∧
      usersInTeams.Answers (answering usersInTeams groupedTeams)
        (groupedTeams.edit Statement.unbounded) ∧
      usersInTeams.Answers (answering usersInTeams groupedTeams) groupedTeams.counted ∧
      ((Read.all.runFrom (Session.ofQuery (groupedTeams.edit Statement.unbounded)
        (some (answering usersInTeams groupedTeams)) [])).1.map List.length).toOption = some 2 ∧
      (Read.count.runFrom (Session.ofQuery groupedTeams
        (some (answering usersInTeams groupedTeams)) [])).1.toOption = some 3 := by
  refine ⟨rfl, by decide +kernel, by decide +kernel, answering_rows (by decide +kernel),
    answering_counted _ _, by decide +kernel, by decide +kernel⟩

end Query

end QueryCompiler
