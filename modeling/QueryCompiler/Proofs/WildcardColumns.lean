import Mathlib.Data.List.Nodup
import QueryCompiler.Dialect.Builtin
import QueryCompiler.Proofs.LabelAssignment
import QueryCompiler.Proofs.LabelLaws
import QueryCompiler.Row

/-!
# The columns behind a wildcard

The known columns of all tables are listed one after another, and a column whose name came before is
renamed: its label, an underscore and its name. The names under which columns come out are distinct
exactly if no such made-up name is the name of a column or made up twice. Nothing in the compiler
keeps it from being one.
-/
namespace QueryCompiler

/-- A column that is listed for everything. -/
structure ListedColumn where
  /-- The label of its table. -/
  label : String
  known : String
  /-- A column of the same name is listed before. -/
  renamed : Bool
  deriving DecidableEq, Repr

namespace ListedColumn

/-- The name under which a column comes out. -/
def outputName (c : ListedColumn) : String :=
  if c.renamed then c.label ++ "_" ++ c.known else c.known

def text (d : Dialect) (multi : Bool) (c : ListedColumn) : String :=
  let column := behind (if multi then some (d.quoteIdentifier c.label) else none)
    (d.quoteIdentifier c.known)
  if c.renamed then column ++ " AS " ++ d.quoteIdentifier c.outputName else column

end ListedColumn

/-- List columns, each given by the label of its table and its name. -/
def listed (seen : List String) : List (String × String) → List ListedColumn
  | [] => []
  | (label, known) :: rest =>
    ⟨label, known, seen.contains known⟩ :: listed (known :: seen) rest

theorem listed_congr {seen seen' : List String} (h : ∀ s, s ∈ seen ↔ s ∈ seen')
    (columns : List (String × String)) : listed seen columns = listed seen' columns := by
  induction columns generalizing seen seen' with
  | nil => rfl
  | cons column rest ih =>
      have hcontains : seen.contains column.2 = seen'.contains column.2 := by
        rw [Bool.eq_iff_iff, List.contains_iff_mem, List.contains_iff_mem, h]
      have hrest : ∀ s, s ∈ column.2 :: seen ↔ s ∈ column.2 :: seen' := by simp [h]
      rw [listed, listed, hcontains, ih hrest]

theorem listed_append {seen seen' : List String} {columns : List (String × String)}
    (h : ∀ s, s ∈ seen' ↔ s ∈ seen ∨ s ∈ columns.map (·.2)) (rest : List (String × String)) :
    listed seen (columns ++ rest) = listed seen columns ++ listed seen' rest := by
  induction columns generalizing seen with
  | nil => exact listed_congr (by simpa [eq_comm] using fun s => (h s).symm) rest
  | cons column others ih =>
      rw [List.cons_append, listed, listed, List.cons_append, ih]
      intro s
      rw [h]
      simp only [List.map_cons, List.mem_cons]
      tauto

/-- Listed columns are the ones that were given. -/
theorem map_listed (seen : List String) (columns : List (String × String)) :
    (listed seen columns).map (fun c => (c.label, c.known)) = columns := by
  induction columns generalizing seen with
  | nil => rfl
  | cons column rest ih => rw [listed, List.map_cons, ih]

/-! The text of the list. -/

/-- The label in front of the columns of a table. -/
def TableRef.columnLabel {ν : Type} (t : TableRef ν) (label : Option String) : String :=
  (label <|> t.name?).getD "sub"

/-- The known columns of tables, each with the label of its table. -/
def labelledAttributes {ν : Type} (tables : List (TableRef ν × Option String)) :
    List (String × String) :=
  tables.flatMap fun x => x.1.attributes.map fun known => (x.1.columnLabel x.2, known)

theorem tableColumns_listed (d : Dialect) (multi : Bool) (label : String) (seen names : List String) :
    (tableColumns d (if multi then some (d.quoteIdentifier label) else none) label seen names).1 =
        (listed seen (names.map fun name => (label, name))).map (ListedColumn.text d multi) ∧
      ∀ s, s ∈ (tableColumns d (if multi then some (d.quoteIdentifier label) else none) label
        seen names).2 ↔ s ∈ seen ∨ s ∈ names := by
  induction names generalizing seen with
  | nil => exact ⟨rfl, by simp [tableColumns]⟩
  | cons name rest ih =>
      simp only [tableColumns, List.map_cons, listed]
      by_cases hseen : name ∈ seen
      · obtain ⟨htexts, hmem⟩ := ih seen
        have hsame : ∀ s, s ∈ name :: seen ↔ s ∈ seen := by simpa using hseen
        rw [if_pos (by simpa using hseen)]
        refine ⟨?_, fun s => ?_⟩
        · rw [htexts, listed_congr hsame]
          simp [ListedColumn.text, ListedColumn.outputName, hseen]
        · rw [hmem, List.mem_cons]
          have hname : s = name → s ∈ seen := fun h => h ▸ hseen
          tauto
      · obtain ⟨htexts, hmem⟩ := ih (name :: seen)
        rw [if_neg (by simpa using hseen)]
        refine ⟨?_, fun s => ?_⟩
        · rw [htexts]
          simp [ListedColumn.text, hseen]
        · rw [hmem, List.mem_cons, List.mem_cons]
          tauto

theorem allColumns_listed {ν : Type} (d : Dialect) (multi : Bool) (seen : List String)
    {tables : List (TableRef ν × Option String)} (h : ∀ x ∈ tables, x.1.attributes ≠ []) :
    allColumns d multi seen tables =
      (listed seen (labelledAttributes tables)).map (ListedColumn.text d multi) := by
  induction tables generalizing seen with
  | nil => rfl
  | cons x rest ih =>
      obtain ⟨t, label⟩ := x
      have hknown : t.attributes.isEmpty = false := by simpa using h (t, label) List.mem_cons_self
      obtain ⟨htexts, hmem⟩ :=
        tableColumns_listed d multi (t.columnLabel label) seen t.attributes
      have hseen : ∀ s, s ∈ (tableColumns d (if multi then
          some (d.quoteIdentifier (t.columnLabel label)) else none) (t.columnLabel label) seen
          t.attributes).2 ↔ s ∈ seen ∨ s ∈ (t.attributes.map fun known =>
            (t.columnLabel label, known)).map (·.2) := by
        intro s
        rw [hmem, List.map_map]
        simp [Function.comp_def]
      rw [labelledAttributes, List.flatMap_cons, listed_append hseen, List.map_append, ← htexts]
      simp only [allColumns, hknown, Bool.false_eq_true, if_false]
      exact congrArg _ (ih _ fun x hx => h x (List.mem_cons_of_mem _ hx))

/-! Names that differ. -/

/-- The columns that keep their name are the first of each name. -/
theorem kept_listed (seen : List String) (columns : List (String × String)) :
    (((listed seen columns).filter (!·.renamed)).map (·.outputName)).Nodup ∧
      ∀ s, s ∈ ((listed seen columns).filter (!·.renamed)).map (·.outputName) ↔
        s ∈ columns.map (·.2) ∧ s ∉ seen := by
  induction columns generalizing seen with
  | nil => simp [listed]
  | cons column rest ih =>
      obtain ⟨label, known⟩ := column
      obtain ⟨hnodup, hmem⟩ := ih (known :: seen)
      by_cases hseen : known ∈ seen
      · simp only [listed, List.filter_cons, hseen, List.contains_iff_mem.mpr, Bool.not_true,
          Bool.false_eq_true, if_false]
        refine ⟨hnodup, fun s => ?_⟩
        rw [hmem, List.map_cons, List.mem_cons, List.mem_cons]
        have hname : s = known → s ∈ seen := fun h => h ▸ hseen
        tauto
      · have hcontains : seen.contains known = false := by simpa using hseen
        simp only [listed, List.filter_cons, hcontains, Bool.not_false, if_true, List.map_cons,
          ListedColumn.outputName, Bool.false_eq_true, if_false]
        refine ⟨List.nodup_cons.mpr ⟨fun h => ?_, hnodup⟩, fun s => ?_⟩
        · exact ((hmem known).mp h).2 List.mem_cons_self
        · have hkept := hmem s
          simp only [List.mem_cons] at hkept ⊢
          have hname : s = known → s ∉ seen := fun h => h ▸ hseen
          tauto

/-- The made-up name of a column is also the name of a column in its table, or another column is
renamed to it. -/
def ListedColumn.Clashes (columns : List ListedColumn) (c : ListedColumn) : Prop :=
  c ∈ columns ∧ c.renamed = true ∧ ((∃ other ∈ columns, other.known = c.outputName) ∨
    ∃ other ∈ columns, other ≠ c ∧ other.renamed = true ∧ other.outputName = c.outputName)

theorem nodup_outputNames_iff {columns : List (String × String)} (h : columns.Nodup) :
    ((listed [] columns).map (·.outputName)).Nodup ↔
      ∀ c, ¬ ListedColumn.Clashes (listed [] columns) c := by
  have hlisted : (listed [] columns).Nodup := by
    refine List.Nodup.of_map (fun c => (c.label, c.known)) ?_
    rwa [map_listed]
  have hattributes : columns.map (·.2) = (listed [] columns).map (·.known) := by
    rw [← congrArg (List.map (·.2)) (map_listed [] columns), List.map_map]
    rfl
  obtain ⟨hnodup, hmem⟩ := kept_listed [] columns
  have hsplit : (((listed [] columns).filter (·.renamed)).map (·.outputName) ++
      ((listed [] columns).filter (!·.renamed)).map (·.outputName)).Perm
        ((listed [] columns).map (·.outputName)) := by
    rw [← List.map_append]
    exact (List.filter_append_perm _ _).map _
  rw [← hsplit.nodup_iff, List.nodup_append',
    List.nodup_map_iff_inj_on (hlisted.filter _)]
  constructor
  · rintro ⟨hinj, -, hdisjoint⟩ c ⟨hc, hrenamed, ⟨other, hother, hname⟩ | ⟨other, hother, hne, hrenamed', hname⟩⟩
    · refine hdisjoint (a := c.outputName) ?_ ?_
      · exact List.mem_map.mpr ⟨c, List.mem_filter.mpr ⟨hc, hrenamed⟩, rfl⟩
      · refine (hmem c.outputName).mpr ⟨?_, List.not_mem_nil⟩
        rw [hattributes, ← hname]
        exact List.mem_map_of_mem hother
    · exact hne (hinj other (List.mem_filter.mpr ⟨hother, hrenamed'⟩) c
        (List.mem_filter.mpr ⟨hc, hrenamed⟩) hname)
  · intro hclear
    refine ⟨fun c hc other hother hname => ?_, hnodup, fun name hmade hkept => ?_⟩
    · obtain ⟨hc, hrenamed⟩ := List.mem_filter.mp hc
      obtain ⟨hother, hrenamed'⟩ := List.mem_filter.mp hother
      by_contra hne
      exact hclear other ⟨hother, hrenamed', .inr ⟨c, hc, hne, hrenamed, hname⟩⟩
    · obtain ⟨c, hc, rfl⟩ := List.mem_map.mp hmade
      obtain ⟨hc, hrenamed⟩ := List.mem_filter.mp hc
      have hname := ((hmem c.outputName).mp hkept).1
      rw [hattributes] at hname
      obtain ⟨other, hother, hname⟩ := List.mem_map.mp hname
      exact hclear c ⟨hc, hrenamed, .inl ⟨other, hother, hname⟩⟩

theorem map_some_reduceOption {α : Type} {xs : List (Option α)} (h : ∀ x ∈ xs, x.isSome = true) :
    xs.reduceOption.map some = xs := by
  induction xs with
  | nil => rfl
  | cons x rest ih =>
      obtain ⟨a, rfl⟩ := Option.isSome_iff_exists.mp (h x List.mem_cons_self)
      rw [List.reduceOption_cons_of_some, List.map_cons,
        ih fun y hy => h y (List.mem_cons_of_mem _ hy)]

/-- Tables that are labelled differently have no column in common. -/
theorem nodup_labelledAttributes {ν : Type} {s : Statement ν} {labels : Labels}
    (hlabels : Labels.resolve s = .ok labels) (h : ∀ t ∈ s.allTables, t.attributes.Nodup) :
    (labelledAttributes (s.allTables.zip labels.slots)).Nodup := by
  have hcomplete := Labels.resolve_complete hlabels
  have hlength : s.allTables.length = labels.slots.length := by
    simp [Labels.slots, Statement.allTables, hcomplete.tables, hcomplete.joins]
  have hdistinct : ((s.allTables.zip labels.slots).map fun x => x.1.columnLabel x.2).Nodup := by
    by_cases hseveral : 1 < s.allTables.length
    · have hsome := map_some_reduceOption (hcomplete.several hseveral)
      have hlabel : (s.allTables.zip labels.slots).map (fun x => x.1.columnLabel x.2) =
          labels.slots.reduceOption := by
        have hle : labels.slots.reduceOption.length ≤ s.allTables.length :=
          hlength ▸ List.reduceOption_length_le labels.slots
        rw [← congrArg (List.zip s.allTables) hsome, List.zip_map_right, List.map_map]
        exact List.map_snd_zip hle
      rw [hlabel]
      exact hcomplete.distinct
    · have hshort : (s.allTables.zip labels.slots).length ≤ 1 := by
        rw [List.length_zip]
        omega
      generalize s.allTables.zip labels.slots = pairs at hshort
      rcases pairs with _ | ⟨x, _ | ⟨y, rest⟩⟩
      · exact List.nodup_nil
      · exact List.nodup_singleton _
      · simp at hshort
  rw [labelledAttributes, List.nodup_flatMap]
  refine ⟨fun x hx => ?_, ?_⟩
  · refine (h x.1 (List.of_mem_zip hx).1).map fun a b hab => (Prod.mk.inj hab).2
  · refine (List.pairwise_map.mp hdistinct).imp fun {x y} hne column hx hy => hne ?_
    obtain ⟨_, _, rfl⟩ := List.mem_map.mp hx
    obtain ⟨_, _, hy⟩ := List.mem_map.mp hy
    exact (Prod.mk.inj hy).1.symm

/-- Where no two columns have the same name, each is found by its own. -/
theorem Row.get?_of_nodup {row : Row} (h : row.columns.Nodup) {i : Nat} {name : String}
    (hi : row.columns[i]? = some name) : row.get? name = row.values[i]? := by
  obtain ⟨hlt, hname⟩ := List.getElem?_eq_some_iff.mp hi
  have hfind : row.columns.findIdx? (· == name) = some i := by
    rw [List.findIdx?_eq_some_iff_getElem]
    refine ⟨hlt, by simp [hname], fun j hj => ?_⟩
    have hne : row.columns.get ⟨j, by omega⟩ ≠ name := by
      intro heq
      have hsame := (h.getElem_inj_iff).mp (heq.trans hname.symm)
      omega
    simpa using hne
  rw [get?, hfind]

namespace Query

/-- The columns that a query lists for everything. -/
def wildcardColumns (q : Query) (labels : Labels) : List ListedColumn :=
  listed [] (labelledAttributes (q.statement.allTables.zip labels.slots))

/-- A selection of everything from tables with known columns lists these columns. The names under
which they come out are distinct exactly if no made-up name clashes, and then no value of a row is
hidden behind another one. -/
theorem wildcard_names_distinct {q : Query} {labels : Labels}
    (hwildcard : isWildcard q.statement.fields = true)
    (hknown : ∀ t ∈ q.statement.allTables, t.attributes ≠ [] ∧ t.attributes.Nodup)
    (hlabels : Labels.resolve q.statement = .ok labels) :
    (q.statement.allTables ≠ [] → ∀ d : Dialect,
        (prepared d q.statement).selectionSql d labels = pure (", ".intercalate
          ((q.wildcardColumns labels).map (ListedColumn.text d labels.multi)) : String)) ∧
      (((q.wildcardColumns labels).map (·.outputName)).Nodup ↔
        ∀ c, ¬ ListedColumn.Clashes (q.wildcardColumns labels) c) ∧
      ((∀ c, ¬ ListedColumn.Clashes (q.wildcardColumns labels) c) → ∀ row : Row,
        row.columns = (q.wildcardColumns labels).map (·.outputName) → ∀ (i : Nat) (name : String),
          row.columns[i]? = some name → row.get? name = row.values[i]?) := by
  have hdistinct := nodup_outputNames_iff
    (nodup_labelledAttributes hlabels fun t ht => (hknown t ht).2)
  refine ⟨fun hsome d => ?_, hdistinct, fun hclear row hcolumns i name hi => ?_⟩
  · have hprepared : prepared d q.statement = q.statement.map (fold (nestedStep d)) :=
      foldStatement_eq_map _ _
    have hall : (q.statement.allTables.all fun t => t.attributes.isEmpty) = false := by
      obtain ⟨t, ht⟩ := List.exists_mem_of_ne_nil _ hsome
      rw [List.all_eq_false]
      exact ⟨t, ht, by simpa using (hknown t ht).1⟩
    have hzip : ∀ x ∈ q.statement.allTables.zip labels.slots, x.1.attributes ≠ [] :=
      fun x hx => (hknown x.1 (List.of_mem_zip hx).1).1
    have hcolumns := allColumns_listed d labels.multi [] hzip
    have hfields : isWildcard (prepared d q.statement).fields = true := by
      rw [hprepared]
      exact (isWildcard_map _ _).trans hwildcard
    rw [Statement.selectionSql, if_pos hfields, hprepared, wildcardText_map, wildcardText, hall,
      if_neg Bool.false_ne_true]
    exact congrArg (fun columns => (pure (", ".intercalate columns : String) : Build Sql)) hcolumns
  · refine Row.get?_of_nodup ?_ hi
    rw [hcolumns]
    exact hdistinct.mpr hclear

/-- Everything about a table with these columns and the teams. -/
def besideTeams (columns : List String) : Query :=
  .mk Dialect.postgres Bag.empty
    { Statement.empty with
      tables := [.ofMeta ⟨"users", [], columns⟩]
      joins := [⟨.ofMeta ⟨"teams", [], ["id", "title"]⟩, "cross", none⟩] }

theorem wildcard_names_distinct_users : ∃ labels,
    Labels.resolve (besideTeams ["id", "team_id"]).statement = .ok labels ∧
      ((besideTeams ["id", "team_id"]).compile).toOption.map Compiled.sql =
        some ("SELECT users.id, users.team_id, teams.id AS teams_id, teams.title " ++
          "FROM users CROSS JOIN teams") ∧
      (((besideTeams ["id", "team_id"]).wildcardColumns labels).map (·.outputName)).Nodup ∧
      ∀ row : Row, row.columns = ["id", "team_id", "teams_id", "title"] →
        row.get? "teams_id" = row.values[2]? := by
  have hlabels : Labels.resolve (besideTeams ["id", "team_id"]).statement =
      .ok ⟨[some "users"], [some "teams"], true⟩ := by
    with_unfolding_all rfl
  obtain ⟨-, hiff, hrow⟩ := wildcard_names_distinct (q := besideTeams ["id", "team_id"]) rfl
    (by decide) hlabels
  have hnames : (((besideTeams ["id", "team_id"]).wildcardColumns
      ⟨[some "users"], [some "teams"], true⟩).map (·.outputName)) =
        ["id", "team_id", "teams_id", "title"] := by
    decide +kernel
  have hnodup : (["id", "team_id", "teams_id", "title"] : List String).Nodup := by decide
  have hclear := hiff.mp (hnames ▸ hnodup)
  refine ⟨_, hlabels, by decide +kernel, hnames ▸ hnodup, fun row hcolumns => ?_⟩
  exact hrow hclear row (hcolumns.trans hnames.symm) 2 "teams_id" (by rw [hcolumns]; rfl)

/-- A column may be named like the made-up name of another one, and hides it. -/
theorem wildcard_names_clash : ∃ labels,
    Labels.resolve (besideTeams ["id", "teams_id"]).statement = .ok labels ∧
      isWildcard (besideTeams ["id", "teams_id"]).statement.fields = true ∧
      (∀ t ∈ (besideTeams ["id", "teams_id"]).statement.allTables,
        t.attributes ≠ [] ∧ t.attributes.Nodup) ∧
      ((besideTeams ["id", "teams_id"]).compile).toOption.map Compiled.sql =
        some ("SELECT users.id, users.teams_id, teams.id AS teams_id, teams.title " ++
          "FROM users CROSS JOIN teams") ∧
      ((besideTeams ["id", "teams_id"]).wildcardColumns labels).map (·.outputName) =
        ["id", "teams_id", "teams_id", "title"] ∧
      ¬ (((besideTeams ["id", "teams_id"]).wildcardColumns labels).map (·.outputName)).Nodup := by
  have hnames : ((besideTeams ["id", "teams_id"]).wildcardColumns
      ⟨[some "users"], [some "teams"], true⟩).map (·.outputName) =
        ["id", "teams_id", "teams_id", "title"] := by
    decide +kernel
  have hrepeats : ¬ (["id", "teams_id", "teams_id", "title"] : List String).Nodup := by decide
  refine ⟨⟨[some "users"], [some "teams"], true⟩, ?_, rfl, by decide, by decide +kernel, hnames,
    hnames ▸ hrepeats⟩
  with_unfolding_all rfl

end Query

end QueryCompiler
