import QueryCompiler.Compile.Select
import QueryCompiler.Proofs.QueryFold
import QueryCompiler.Query.Edit
import QueryCompiler.Row

/-!
# The rows of a selection

What a selection means: FROM, the joins and WHERE give tuples, GROUP BY partitions them and HAVING
filters the groups. An aggregate without GROUP BY, or HAVING alone, takes all tuples for one group.
Every group gives a row, DISTINCT leaves out rows that came before, and then the rows are put in
order and cut off. How expressions are evaluated and how tables are joined is left to an engine.
-/
namespace QueryCompiler

/-- A database with its contents and the values of the parameters: what it makes of the parts of a
selection. A nested query is a function from a tuple of the selection around it to its rows. Parts
are evaluated within such a tuple, over the tuples of the selection that are taken together. -/
structure Engine where
  /-- One row of every table, side by side. -/
  Tuple : Type
  /-- Nothing is around the selection. -/
  outermost : Tuple
  /-- What FROM and the joins give. -/
  source : Tuple → List (TableRef (Tuple → List Row)) → List (Join (Tuple → List Row)) → List Tuple
  value : Tuple → List Tuple → Expr (Tuple → List Row) → Value
  /-- The named cells that an item of the selection gives. -/
  cells : Tuple → List Tuple → SelectItem (Tuple → List Row) → List (String × Value)
  /-- The named cells of a selection of everything. -/
  everything : Tuple → List Tuple → List (String × Value)
  /-- A condition with that value is met. -/
  holds : Value → Bool
  /-- Two values that GROUP BY and DISTINCT take for one. -/
  same : Value → Value → Bool
  /-- An aggregate occurs in the expression, outside of nested queries. -/
  aggregates : Expr Unit → Bool
  /-- Rows in an order, each with the tuples that it was made of. -/
  arrange : Tuple → List (Order (Tuple → List Row)) → List (List Tuple × Row) →
    List (List Tuple × Row)
  /-- A nested query in FROM gives a tuple for each of its rows. -/
  length_source (outer : Tuple) (rows : Tuple → List Row) (label : Option String) :
    (source outer [⟨.subquery rows, label, none⟩] []).length = (rows outer).length
  aggregates_countAll : aggregates (Statement.countAll : SelectItem Unit).expr = true
  /-- `COUNT(*)` is the number of the tuples taken together. -/
  cells_countAll (outer : Tuple) (tuples : List Tuple) :
    ∃ name, cells outer tuples Statement.countAll = [(name, .int tuples.length)]

namespace Engine

variable (E : Engine)

/-- A nested query, as an engine sees it. -/
abbrev Nested := E.Tuple → List Row

/-- Two lists of values that are the same, value by value. -/
def sameValues (values values' : List Value) : Bool :=
  values.length == values'.length && (values.zip values').all fun pair => E.same pair.1 pair.2

variable (outer : E.Tuple) (s : Statement E.Nested)

/-- A condition, if there is one, is met by tuples taken together. -/
def meets (tuples : List E.Tuple) (condition : Option (Expr E.Nested)) : Bool :=
  condition.all fun e => E.holds (E.value outer tuples e)

/-- What FROM, the joins and WHERE give. -/
def tuples : List E.Tuple :=
  (E.source outer s.tables s.joins).filter fun t => E.meets outer [t] s.filter

/-- The tuples that agree in the keys of GROUP BY, each group in the place of its first tuple. -/
def groups : List (List E.Tuple) :=
  let keys (t : E.Tuple) : List Value := s.groups.map (E.value outer [t])
  (((E.tuples outer s).map keys).eraseDupsBy E.sameValues).map fun key =>
    (E.tuples outer s).filter fun t => E.sameValues key (keys t)

def isAggregate (e : Expr E.Nested) : Bool := E.aggregates (e.map fun _ => ())

/-- Without GROUP BY all tuples are one group. -/
def takesAll : Bool :=
  s.having.isSome || s.fields.any (E.isAggregate ·.expr) || s.orders.any (E.isAggregate ·.expr)

/-- The tuples that are taken together for one row. -/
def units : List (List E.Tuple) :=
  let units :=
    if !s.groups.isEmpty then E.groups outer s
    else if E.takesAll s then [E.tuples outer s]
    else (E.tuples outer s).map fun t => [t]
  units.filter fun unit => E.meets outer unit s.having

/-- The row that is made of tuples taken together. -/
def line (unit : List E.Tuple) : Row :=
  let cells := if isWildcard s.fields then E.everything outer unit
    else s.fields.flatMap (E.cells outer unit)
  ⟨cells.map (·.1), cells.map (·.2)⟩

/-- All rows, those that DISTINCT leaves out apart. -/
def lines : List (List E.Tuple × Row) :=
  let lines := (E.units outer s).map fun unit => (unit, E.line outer s unit)
  if s.distinct then lines.eraseDupsBy fun a b => E.sameValues a.2.values b.2.values else lines

/-- The rows of a selection. -/
def selection : List Row :=
  let lines := if s.orders.isEmpty then E.lines outer s
    else E.arrange outer s.orders (E.lines outer s)
  let rest := lines.drop (s.offset.getD 0)
  let kept := match s.limit with
    | some n => rest.take n
    | none => rest
  kept.map (·.2)

/-- The rows of a query, nested queries being evaluated before. -/
def rows (q : Query) : List Row := q.fold (fun _ _ s outer => E.selection outer s) E.outermost

variable {E outer s}

theorem rows_eq (q : Query) : E.rows q =
    E.selection E.outermost (q.statement.map (Query.fold fun _ _ s outer => E.selection outer s)) := by
  rw [rows, Query.fold_eq]

/-- A selection without order and bounds gives all its rows. -/
theorem selection_of_unbounded (hs : s.unbounded = s) :
    E.selection outer s = (E.lines outer s).map (·.2) := by
  have horders : s.orders = [] := congrArg Statement.orders hs.symm
  have hlimit : s.limit = none := congrArg Statement.limit hs.symm
  have hoffset : s.offset = none := congrArg Statement.offset hs.symm
  simp [selection, horders, hlimit, hoffset]

theorem selection_of_plain (hs : s.unbounded = s) (hdistinct : s.distinct = false) :
    E.selection outer s = (E.units outer s).map (E.line outer s) := by
  simp [selection_of_unbounded hs, lines, hdistinct, Function.comp_def]

/-- Without GROUP BY, HAVING and aggregates there is a row for each tuple. -/
theorem length_selection_of_ungrouped (hs : s.unbounded = s) (hdistinct : s.distinct = false)
    (hgroups : s.groups = []) (hhaving : s.having = none)
    (hfields : ∀ item ∈ s.fields, E.isAggregate item.expr = false) :
    (E.selection outer s).length = (E.tuples outer s).length := by
  have horders : s.orders = [] := congrArg Statement.orders hs.symm
  have hfields : s.fields.any (E.isAggregate ·.expr) = false := by
    simpa using hfields
  simp [selection_of_plain hs hdistinct, units, takesAll, meets, hgroups, hhaving, horders, hfields]

theorem isAggregate_countAll :
    E.isAggregate (Statement.countAll : SelectItem E.Nested).expr = true :=
  E.aggregates_countAll

@[simp]
theorem isWildcard_countAll {ν : Type} :
    isWildcard [(Statement.countAll : SelectItem ν)] = false :=
  rfl

theorem first_line_countAll (hfields : s.fields = [Statement.countAll]) (unit : List E.Tuple) :
    (E.line outer s unit).first = .int unit.length := by
  obtain ⟨name, hcells⟩ := E.cells_countAll outer unit
  simp [line, hfields, hcells, Row.first]

/-- A selection of the number of rows answers how many tuples are taken together, once for every
group that HAVING lets pass. -/
theorem selection_countAll (hs : s.unbounded = s) (hdistinct : s.distinct = false)
    (hfields : s.fields = [Statement.countAll]) :
    (E.selection outer s).map Row.first =
      (E.units outer s).map fun unit => .int unit.length := by
  rw [selection_of_plain hs hdistinct, List.map_map]
  exact List.map_congr_left fun unit _ => first_line_countAll hfields unit

/-- Without GROUP BY and HAVING the number of rows is selected from all tuples. -/
theorem units_countAll (hfields : s.fields = [Statement.countAll]) (hgroups : s.groups = [])
    (hhaving : s.having = none) : E.units outer s = [E.tuples outer s] := by
  have htakes : E.takesAll s = true := by
    simp [takesAll, hfields, isAggregate_countAll]
  simp [units, hgroups, hhaving, htakes, meets]

end Engine

end QueryCompiler
