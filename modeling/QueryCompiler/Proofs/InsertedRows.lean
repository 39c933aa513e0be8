import QueryCompiler.Compile.Query
import QueryCompiler.Proofs.LabelLaws
import QueryCompiler.Proofs.ListText
import QueryCompiler.Proofs.ParameterSafety
import QueryCompiler.Proofs.QueryFold

/-!
# Inserted rows

Rows are written inline, each as a tuple with as many entries as there are columns. The first row
that is longer is reported; otherwise every tuple has the values of its row in order and nulls
behind them, which is what is read back from the list of tuples.
-/
namespace QueryCompiler

variable {ν : Type}

/-! Values and names as entries of a list. -/

theorem Decimal.Scaled.positional_ne_empty (d : Scaled) : d.positional false ≠ "" := by
  intro h
  have hchars := congrArg String.toList h
  unfold positional at hchars
  split at hchars
  · simp at hchars
  · simp only at hchars
    split at hchars <;> simp at hchars

theorem Decimal.floatText_ne_empty (x : Float) : floatText x ≠ "" := by
  unfold floatText
  split
  · decide
  · split
    · split <;> decide
    · simp only [Style.finite, sqlStyle]
      split
      · intro h
        simpa using congrArg String.toList h
      · exact Scaled.positional_ne_empty _

theorem int_ne_empty (n : Int) : toString n ≠ "" := by
  change n.repr ≠ ""
  rw [Int.repr_eq_if]
  split
  · exact Nat.repr_ne_empty
  · intro h
    simpa using congrArg String.toList h

/-- What holds of every kind of inline text holds of an inline value. -/
theorem inlineValue_cases {P : String → Prop} {bool : Bool → String} {string : String → String}
    (hnull : P "NULL") (hint : ∀ n : Int, P (toString n)) (hfloat : ∀ x, P (Decimal.floatText x))
    (hbool : ∀ v, P (bool v)) (hstring : ∀ s, P (string s)) (v : Value) :
    P (inlineValue bool string v) := by
  cases v with
  | null => exact hnull
  | bool v => exact hbool v
  | int n => exact hint n
  | float x => exact hfloat x
  | text s => exact hstring s

namespace Builtin

variable (b : Builtin)

theorem quiet_quoteValue (v : Value) : Quiet isDelimiter (b.dialect.quoteValue v) := by
  have hdigit : ∀ c : Char, c.isDigit = true → isDelimiter c = false ∧ Text.isQuote c = false :=
    fun _ => silent_of (by decide)
  have hint : ∀ n : Int, Quiet isDelimiter (toString n) := quiet_int hdigit (by decide)
  have hfloat : ∀ x, Quiet isDelimiter (Decimal.floatText x) :=
    quiet_floatText hdigit (by decide) (by decide) (by decide)
  cases b with
  | postgres => exact inlineValue_cases (by decide) hint hfloat (by decide) (quiet_enclose rfl rfl) v
  | mysql => exact inlineValue_cases (by decide) hint hfloat (by decide) (quiet_mysqlString rfl) v
  | sqlite => exact inlineValue_cases (by decide) hint hfloat (by decide) (quiet_enclose rfl rfl) v

theorem quoteValue_ne_empty (v : Value) : b.dialect.quoteValue v ≠ "" := by
  have hquoted : ∀ cs : List Char, String.ofList ('\'' :: cs) ≠ "" := by
    intro cs h
    simpa using congrArg String.toList h
  have hinline : ∀ (bool : Bool → String) (string : String → String), (∀ v, bool v ≠ "") →
      (∀ s, string s ≠ "") → inlineValue bool string v ≠ "" := fun bool string hbool hstring =>
    inlineValue_cases (P := (· ≠ "")) (by decide) int_ne_empty Decimal.floatText_ne_empty hbool
      hstring v
  cases b with
  | postgres => exact hinline _ _ (by decide) fun _ => hquoted _
  | mysql => exact hinline _ _ (by decide) fun _ => hquoted _
  | sqlite => exact hinline _ _ (by decide) fun _ => hquoted _

theorem quoteIdentifier_ne_empty (name : String) : b.dialect.quoteIdentifier name ≠ "" := by
  have henclose : ∀ (quote : Char) (s : String), Text.enclose quote s ≠ "" := by
    intro quote s h
    simpa [Text.enclose, Text.encloseChars] using congrArg String.toList h
  have hname : ∀ quote : Char, Identifier.quoteName quote name ≠ "" := by
    intro quote
    rw [Identifier.quoteName]
    cases hparts : Text.dotParts name with
    | nil => exact absurd hparts (dotParts_ne_nil name)
    | cons part rest =>
        cases rest with
        | nil =>
            rw [List.map_singleton, String.intercalate_singleton, Identifier.quotePart]
            split
            · exact henclose quote part
            · rintro rfl
              exact absurd (by decide +kernel) ‹¬ Identifier.needsQuotes "" = true›
        | cons next rest =>
            rw [List.map_cons, List.map_cons, String.intercalate_cons_cons]
            intro h
            simpa using congrArg String.toList h
  cases b with
  | postgres | mysql => exact hname _
  | sqlite => exact henclose _ name

end Builtin

/-! Rows as tuples. -/

/-- A value whose text can be written inline. -/
def Value.IsFinite (v : Value) : Prop := ∀ x, v = .float x → x.isFinite = true

/-- The columns of the rows: those declared, else those known of the table. -/
def insertColumns (declared known : List String) : List String :=
  if declared = [] then known else declared

/-- The number of entries of every row: the number of columns or, where there are none, the length
of the longest row. -/
def insertWidth (declared known : List String) (rows : List (List Value)) : Nat :=
  if insertColumns declared known = [] then (rows.map List.length).max?.getD 0
  else (insertColumns declared known).length

/-- The first row that is longer than the width, and its number. -/
structure IsFirstTooLong (width : Nat) (rows : List (List Value)) (index : Nat) (row : List Value) :
    Prop where
  at_index : rows[index]? = some row
  longer : width < row.length
  before : ∀ other ∈ rows.take index, other.length ≤ width

/-- A tuple that holds the values of a row in order, and nulls behind them. -/
structure HoldsRow (d : Dialect) (width : Nat) (row : List Value) (tuple : List String) : Prop where
  length : tuple.length = width
  values : tuple.take row.length = row.map d.quoteValue
  nulls : ∀ entry ∈ tuple.drop row.length, entry = "NULL"

/-- The entries of the tuple of a row. -/
def filledRow (d : Dialect) (width : Nat) (row : List Value) : List String :=
  row.map d.quoteValue ++ List.replicate (width - row.length) "NULL"

/-- A tuple in parentheses. -/
def tupleOf (entries : List String) : String := "(" ++ ", ".intercalate entries ++ ")"

section Rows

variable {d : Dialect} {width : Nat} {row : List Value} {rows : List (List Value)}

theorem holdsRow_filledRow (h : row.length ≤ width) :
    HoldsRow d width row (filledRow d width row) where
  length := by simp [filledRow, h]
  values := by simp [filledRow]
  nulls entry hentry := by
    rw [filledRow, List.drop_left' (by simp)] at hentry
    exact List.eq_of_mem_replicate hentry

/-- Either all rows fit, or there is a first one that does not. -/
theorem fits_or_firstTooLong (width : Nat) (rows : List (List Value)) :
    (∀ row ∈ rows, row.length ≤ width) ∨ ∃ index row, IsFirstTooLong width rows index row := by
  induction rows with
  | nil => exact .inl fun _ h => absurd h List.not_mem_nil
  | cons row rest ih =>
      by_cases hrow : row.length ≤ width
      · obtain hrest | ⟨index, other, hat, hlonger, hbefore⟩ := ih
        · exact .inl (List.forall_mem_cons.mpr ⟨hrow, hrest⟩)
        · exact .inr ⟨index + 1, other, hat, hlonger, List.forall_mem_cons.mpr ⟨hrow, hbefore⟩⟩
      · exact .inr ⟨0, row, rfl, Nat.lt_of_not_le hrow, fun _ h => absurd h List.not_mem_nil⟩

theorem inlineText_of_finite {v : Value} (h : v.IsFinite) :
    inlineText d v = .ok (d.quoteValue v) := by
  unfold inlineText
  split
  · rw [if_pos (h _ rfl)]
  · rfl

theorem inlineTexts_of_finite (h : ∀ v ∈ row, v.IsFinite) :
    row.mapM (inlineText d) = .ok (row.map d.quoteValue) := by
  induction row with
  | nil => rfl
  | cons v rest ih =>
      obtain ⟨hv, hrest⟩ := List.forall_mem_cons.mp h
      rw [List.mapM_cons, inlineText_of_finite hv, ih hrest]
      rfl

theorem tupleText_of_finite (h : ∀ v ∈ row, v.IsFinite) (index : Nat) :
    tupleText d width index row =
      if width < row.length then .error (.rowTooLong index row.length width)
      else .ok (tupleOf (filledRow d width row)) := by
  rw [tupleText, inlineTexts_of_finite h]
  split <;> rfl

/-- Rows that fit are written one after another. -/
theorem tupleTexts_of_fits (hfinite : ∀ row ∈ rows, ∀ v ∈ row, v.IsFinite)
    (hfits : ∀ row ∈ rows, row.length ≤ width) (index : Nat) :
    tupleTexts d width index rows = .ok (rows.map fun row => tupleOf (filledRow d width row)) := by
  induction rows generalizing index with
  | nil => rfl
  | cons row rest ih =>
      obtain ⟨hrow, hrest⟩ := List.forall_mem_cons.mp hfits
      obtain ⟨hvalues, hothers⟩ := List.forall_mem_cons.mp hfinite
      rw [tupleTexts, tupleText_of_finite hvalues, if_neg (Nat.not_lt.mpr hrow), ih hothers hrest]
      rfl

/-- The first row that does not fit is reported. -/
theorem tupleTexts_of_firstTooLong (hfinite : ∀ row ∈ rows, ∀ v ∈ row, v.IsFinite) {index : Nat}
    (h : IsFirstTooLong width rows index row) (start : Nat) :
    tupleTexts d width start rows = .error (.rowTooLong (start + index) row.length width) := by
  induction rows generalizing index start with
  | nil => cases h.at_index
  | cons first rest ih =>
      obtain ⟨hvalues, hothers⟩ := List.forall_mem_cons.mp hfinite
      obtain ⟨hat, hlonger, hbefore⟩ := h
      cases index with
      | zero =>
          obtain rfl : first = row := by simpa using hat
          rw [tupleTexts, tupleText_of_finite hvalues, if_pos hlonger]
          rfl
      | succ index =>
          obtain ⟨hfirst, hbefore⟩ := List.forall_mem_cons.mp hbefore
          rw [tupleTexts, tupleText_of_finite hvalues, if_neg (Nat.not_lt.mpr hfirst),
            ih hothers ⟨hat, hlonger, hbefore⟩, Nat.add_right_comm, Nat.add_assoc]
          rfl

theorem longest_eq (rows : List (List Value)) :
    longest rows = (rows.map List.length).max?.getD 0 := by
  cases rows with
  | nil => rfl
  | cons row rest =>
      rw [longest, List.map_cons, List.max?_cons', List.foldl_cons, Nat.zero_max, Option.getD_some]

/-- The columns, and the tuples of the width that they give. -/
theorem rowsText_eq {declared known : List String} (hrows : rows ≠ []) :
    rowsText d known declared rows =
      (tupleTexts d (insertWidth declared known rows) 0 rows).map fun tuples =>
        columnsText d (insertColumns declared known) ++ " VALUES " ++ ", ".intercalate tuples := by
  have hcolumns : (if declared.isEmpty = true then known else declared) =
      insertColumns declared known := by simp [insertColumns]
  have hwidth : (if (insertColumns declared known).isEmpty = true then longest rows
      else (insertColumns declared known).length) = insertWidth declared known rows := by
    simp [insertWidth, longest_eq]
  have hempty : rows.isEmpty = false := List.isEmpty_eq_false_iff.mpr hrows
  simp only [rowsText, hempty, Bool.false_eq_true, if_false, hcolumns, hwidth]
  cases tupleTexts d (insertWidth declared known rows) 0 rows <;> rfl

end Rows

/-- A text of rows: a list of the columns, if any, with as many entries as the rows are wide, and
for every row in order a tuple of its values. -/
structure WritesRows (d : Dialect) (columns : List String) (width : Nat) (rows : List (List Value))
    (fields values : String) : Prop where
  fields : (columns = [] ∧ fields = "") ∨ ∃ list, fields = " (" ++ list ++ ")" ∧
    SqlList.entries list = columns.map d.quoteIdentifier ∧ (SqlList.entries list).length = width
  tuples : List.Forall₂ (HoldsRow d width) rows (SqlList.rows values)

/-- The tuples of rows that fit are read back from their list. -/
theorem Builtin.rows_tuples (b : Builtin) {width : Nat} {rows : List (List Value)} :
    SqlList.rows (", ".intercalate (rows.map fun row => tupleOf (filledRow b.dialect width row))) =
      rows.map (filledRow b.dialect width) := by
  have hentry : ∀ (P : String → Prop), (∀ v, P (b.dialect.quoteValue v)) → P "NULL" →
      ∀ tuple ∈ rows.map (filledRow b.dialect width), ∀ entry ∈ tuple, P entry := by
    intro P hvalue hnull tuple htuple entry hmem
    obtain ⟨row, -, rfl⟩ := List.mem_map.mp htuple
    obtain hmem | hmem := List.mem_append.mp hmem
    · obtain ⟨v, -, rfl⟩ := List.mem_map.mp hmem
      exact hvalue v
    · rw [List.eq_of_mem_replicate hmem]
      exact hnull
  have hread := SqlList.rows_intercalate
    (hentry (· ≠ "") b.quoteValue_ne_empty (by decide))
    (hentry (Quiet isDelimiter) b.quiet_quoteValue (by decide))
  rwa [List.map_map] at hread

/-- The columns are read back from their list. -/
theorem Builtin.entries_columnList (b : Builtin) (columns : List String) :
    SqlList.entries (b.dialect.columnList columns) = columns.map b.dialect.quoteIdentifier :=
  SqlList.entries_intercalate fun name hname => by
    obtain ⟨column, -, rfl⟩ := List.mem_map.mp hname
    exact SqlList.isEntry_of_quiet (b.quoteIdentifier_ne_empty column)
      (b.quiet_quoteIdentifier column)

theorem writesRows_of_fits (b : Builtin) {declared known : List String} {rows : List (List Value)}
    {width : Nat} (hwidth : width = insertWidth declared known rows)
    (hfits : ∀ row ∈ rows, row.length ≤ width) :
    WritesRows b.dialect (insertColumns declared known) width rows
      (columnsText b.dialect (insertColumns declared known))
      (", ".intercalate (rows.map fun row => tupleOf (filledRow b.dialect width row))) where
  fields := by
    by_cases hnone : insertColumns declared known = []
    · exact .inl ⟨hnone, by simp [columnsText, hnone]⟩
    · refine .inr ⟨_, by simp [columnsText, hnone], b.entries_columnList _, ?_⟩
      rw [b.entries_columnList, List.length_map, hwidth, insertWidth, if_neg hnone]
  tuples := by
    rw [b.rows_tuples, List.forall₂_map_right_iff]
    exact List.forall₂_same.mpr fun row hrow => holdsRow_filledRow (hfits row hrow)

/-! The statement around the rows. -/

namespace Query

variable {d : Dialect} {q : Query} {t : TableRef Query} {others : List (TableRef Query)}
variable {name : String} {declared : List String} {rows : List (List Value)}

/-- An insertion of rows without nested queries: its compilation asks nothing of the binder. -/
theorem compileSteps_rows (hkind : q.statement.kind = .insert)
    (htables : q.statement.tables = t :: others) (hname : t.name? = some name)
    (hsource : q.statement.source = some (.rows declared rows)) (hnested : q.subqueries = []) :
    compileSteps d q = Build.ofExcept ((rowsText d t.attributes declared rows).map fun text =>
      ("INSERT INTO " : Sql) ++ d.dotted name ++ text) := by
  have hbags : q.nestedBags = [] := by rw [nestedBags, hnested, List.flatMap_nil]
  have htarget : target "INSERT INTO" (q.statement.map (fold (nestedStep d))).tables =
      .ok (t.map (fold (nestedStep d)), name) := by
    simp only [Statement.map, htables, List.map_cons, target, TableRef.name?_map, hname]
  have hsources : (q.statement.map (fold (nestedStep d))).source = some (.rows declared rows) := by
    simp only [Statement.map, hsource, Option.map_some, InsertSource.map]
  have hkinds : (q.statement.map (fold (nestedStep d))).kind = .insert := hkind
  have hwritten : (q.statement.map (fold (nestedStep d))).sql d =
      Build.ofExcept ((rowsText d t.attributes declared rows).map fun text =>
        ("INSERT INTO " : Sql) ++ d.dotted name ++ text) := by
    simp only [Statement.sql, hkinds, Statement.insertSql, htarget, hsources, InsertSource.sql]
    change (Build.ofExcept (rowsText d (t.map _).attributes declared rows) >>= _) >>= _ = _
    rw [TableRef.attributes_map]
    cases rowsText d t.attributes declared rows <;> rfl
  rw [compileSteps, hbags, prepared, foldStatement_eq_map, hwritten]
  rfl

/-- A compilation that asks nothing of the binder binds nothing and leaves all bindings. -/
theorem compileWith_of_steps {d : Dialect} {q : Query} {outcome : Except Fault Sql}
    (h : compileSteps d q = Build.ofExcept outcome) :
    q.compileWith d = outcome.map (fun sql => ⟨sql.render, q.bound⟩) ∧ q.lifts d = [] := by
  rw [compileWith, written, lifts, h]
  cases outcome <;> exact ⟨rfl, rfl⟩

/-- Rows that are inserted are neither lost nor misplaced: either the first row that is too long is
reported, or every row has its tuple, which holds the values in order and then nulls, and nothing
is bound. All rows and the list of columns are equally wide. -/
theorem inserted_rows_written (b : Builtin) (hkind : q.statement.kind = .insert)
    (htables : q.statement.tables = t :: others) (hname : t.name? = some name)
    (hsource : q.statement.source = some (.rows declared rows)) (hnested : q.subqueries = [])
    (hrows : rows ≠ []) (hfinite : ∀ row ∈ rows, ∀ v ∈ row, v.IsFinite)
    {width : Nat} (hwidth : width = insertWidth declared t.attributes rows) :
    ((∃ fault, q.compileWith b.dialect = .error fault) ↔ ∃ row ∈ rows, width < row.length) ∧
      (∀ index row, IsFirstTooLong width rows index row →
        q.compileWith b.dialect = .error (.rowTooLong index row.length width)) ∧
      ((∀ row ∈ rows, row.length ≤ width) → ∃ fields values,
        q.compileWith b.dialect = .ok ⟨"INSERT INTO " ++ b.dialect.dotted name ++ fields ++
          " VALUES " ++ values, q.bound⟩ ∧
        WritesRows b.dialect (insertColumns declared t.attributes) width rows fields values) ∧
      q.lifts b.dialect = [] := by
  obtain ⟨hcompile, hlifts⟩ :=
    compileWith_of_steps (compileSteps_rows (d := b.dialect) hkind htables hname hsource hnested)
  rw [rowsText_eq hrows, ← hwidth] at hcompile
  have hfails : ∀ index row, IsFirstTooLong width rows index row →
      q.compileWith b.dialect = .error (.rowTooLong index row.length width) := by
    intro index row hfirst
    rw [hcompile, tupleTexts_of_firstTooLong hfinite hfirst, Nat.zero_add]
    rfl
  have hfits : (∀ row ∈ rows, row.length ≤ width) → ∃ fields values,
      q.compileWith b.dialect = .ok ⟨"INSERT INTO " ++ b.dialect.dotted name ++ fields ++
        " VALUES " ++ values, q.bound⟩ ∧
      WritesRows b.dialect (insertColumns declared t.attributes) width rows fields values := by
    intro hall
    refine ⟨_, _, ?_, writesRows_of_fits b hwidth hall⟩
    rw [hcompile, tupleTexts_of_fits hfinite hall]
    simp [Except.map, String.append_assoc]
  -- Either all rows fit or there is a first one that does not, so each outcome has its own cause.
  refine ⟨⟨fun ⟨fault, hfault⟩ => ?_, fun ⟨row, hrow, hlonger⟩ => ?_⟩, hfails, hfits, hlifts⟩
  · obtain hall | ⟨index, row, hfirst⟩ := fits_or_firstTooLong width rows
    · obtain ⟨fields, values, hok, -⟩ := hfits hall
      rw [hok] at hfault
      cases hfault
    · exact ⟨row, List.mem_of_getElem? hfirst.at_index, hfirst.longer⟩
  · obtain hall | ⟨index, other, hfirst⟩ := fits_or_firstTooLong width rows
    · exact absurd (hall row hrow) (Nat.not_le_of_lt hlonger)
    · exact ⟨_, hfails index other hfirst⟩

/-- Two users, of whom the second has no address. -/
def newUsers : Query :=
  mk Dialect.postgres Bag.empty
    { Statement.empty with
      kind := .insert
      tables := [.named "users"]
      source := some (.rows ["id", "name", "email"]
        [[.int 1, .text "ann", .text "a@x.io"], [.int 2, .text "o'neil"]]) }

theorem inserted_rows_written_users :
    ∃ fields values,
      newUsers.compileWith Builtin.mysql.dialect = .ok ⟨"INSERT INTO " ++
        Builtin.mysql.dialect.dotted "users" ++ fields ++ " VALUES " ++ values, Bag.empty⟩ ∧
      WritesRows Builtin.mysql.dialect ["id", "name", "email"] 3
        [[.int 1, .text "ann", .text "a@x.io"], [.int 2, .text "o'neil"]] fields values ∧
      (newUsers.compileWith Builtin.mysql.dialect).toOption.map Compiled.sql =
        some ("INSERT INTO users (id, name, email) " ++
          "VALUES (1, 'ann', 'a@x.io'), (2, 'o''neil', NULL)") := by
  have hfinite : ∀ row ∈ [[Value.int 1, .text "ann", .text "a@x.io"], [.int 2, .text "o'neil"]],
      ∀ v ∈ row, v.IsFinite := by
    simp [Value.IsFinite]
  obtain ⟨-, -, hfits, -⟩ := inserted_rows_written Builtin.mysql (q := newUsers) rfl rfl rfl rfl rfl
    (List.cons_ne_nil _ _) hfinite rfl
  obtain ⟨fields, values, hcompile, hwrites⟩ := hfits (by decide)
  exact ⟨fields, values, hcompile, hwrites, by decide +kernel⟩

end Query

end QueryCompiler
