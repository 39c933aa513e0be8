import QueryCompiler.Proofs.ParameterSafety
import QueryCompiler.Proofs.StatementReading

/-!
# Placeholders of the compiler and of the driver

The compiler marks the placeholders it writes; the driver looks for placeholders in the finished
text. For plain queries both see the same ones.
-/
namespace QueryCompiler

/-- The names that placeholders stand for, behind a number of positional ones: a positional
placeholder stands for its number among them. -/
def Mark.namesFrom (count : Nat) : List Mark → List String
  | [] => []
  | positional :: rest => toString (count + 1) :: namesFrom (count + 1) rest
  | reference name :: rest => name :: namesFrom count rest
  | lifted name :: rest => name :: namesFrom count rest

/-- Chunks with the placeholders that a driver uses, behind a number of placeholders. -/
def Chunk.fill (placeholder : Nat → String) (count : Nat) : List Chunk → String
  | [] => ""
  | text s :: rest => s ++ fill placeholder count rest
  | mark _ :: rest => placeholder (count + 1) ++ fill placeholder (count + 1) rest

theorem Mark.namesFrom_lifted {name : String} {marks : List Mark} {i count : Nat}
    (h : marks[i]? = some (.lifted name)) : (namesFrom count marks)[i]? = some name := by
  induction marks generalizing i count with
  | nil => cases h
  | cons m rest ih =>
      cases i with
      | zero =>
          obtain rfl : m = .lifted name := by simpa using h
          rfl
      | succ i =>
          rw [List.getElem?_cons_succ] at h
          cases m <;> exact ih h

theorem Mark.length_namesFrom (count : Nat) (marks : List Mark) :
    (namesFrom count marks).length = marks.length := by
  induction marks generalizing count with
  | nil => rfl
  | cons m rest ih => cases m <;> exact congrArg (· + 1) (ih _)

namespace Prepared

theorem write_chars (placeholder : Nat → String) (count marks : Nat) (cs : List Char)
    (ps : List Piece) :
    String.join (write placeholder count marks (cs.map Piece.char ++ ps)).1 =
        String.ofList cs ++ String.join (write placeholder count marks ps).1 ∧
      (write placeholder count marks (cs.map Piece.char ++ ps)).2 =
        (write placeholder count marks ps).2 := by
  induction cs with
  | nil => simp
  | cons c rest ih =>
      refine ⟨String.toList_injective ?_, ih.2⟩
      have htexts := congrArg String.toList ih.1
      simp only [String.toList_join, String.toList_append, String.toList_ofList] at htexts
      simp [write, htexts]

/-- Writing out the pieces of some chunks fills the chunks. -/
theorem write_pieces (placeholder : Nat → String) (count positional : Nat) (chunks : List Chunk) :
    String.join (write placeholder count positional (chunks.flatMap Chunk.pieces)).1 =
        Chunk.fill placeholder count chunks ∧
      (write placeholder count positional (chunks.flatMap Chunk.pieces)).2 =
        Mark.namesFrom positional (chunks.filterMap Chunk.mark?) := by
  induction chunks generalizing count positional with
  | nil => exact ⟨rfl, rfl⟩
  | cons chunk rest ih =>
      rw [List.flatMap_cons]
      cases chunk with
      | text s =>
          obtain ⟨htext, hnames⟩ := write_chars placeholder count positional s.toList
            (rest.flatMap Chunk.pieces)
          rw [Chunk.pieces, htext, hnames, (ih count positional).1, (ih count positional).2,
            String.ofList_toList]
          exact ⟨rfl, rfl⟩
      | mark m =>
          cases m with
          | positional =>
              have hrest := ih (count + 1) (positional + 1)
              exact ⟨by simp [Chunk.pieces, write, Chunk.fill, ← hrest.1, String.join_cons],
                congrArg _ hrest.2⟩
          | reference name | lifted name =>
              have hrest := ih (count + 1) positional
              exact ⟨by simp [Chunk.pieces, write, Chunk.fill, ← hrest.1, String.join_cons],
                congrArg _ hrest.2⟩

theorem values_of_names {params : Bag} {names : List String} {values : List Value}
    (h : names.mapM (valueOf params) = .ok values) : names.map params.get? = values.map some := by
  induction names generalizing values with
  | nil =>
      cases h
      rfl
  | cons name rest ih =>
      rw [List.mapM_cons] at h
      cases hvalue : params.get? name with
      | none => simp [valueOf, hvalue, Bind.bind, Except.bind] at h
      | some value =>
          cases hrest : rest.mapM (valueOf params) with
          | error fault => simp [valueOf, hvalue, hrest, Bind.bind, Except.bind] at h
          | ok others =>
              obtain rfl : value :: others = values := by
                simpa [valueOf, hvalue, hrest, Bind.bind, Except.bind, Pure.pure, Except.pure] using h
              rw [List.map_cons, List.map_cons, hvalue, ih hrest]

/-- A successful bind finds a value for every placeholder. -/
theorem values_of_bind {p bound : Prepared} {params : Bag} (h : p.bind params = .ok bound) :
    p.names.map params.get? = bound.values.map some := by
  rw [Prepared.bind] at h
  cases hvalues : p.names.mapM (valueOf params) with
  | error fault => simp [hvalues, Bind.bind, Except.bind] at h
  | ok values =>
      rw [hvalues] at h
      cases h
      exact values_of_names hvalues

end Prepared

namespace Query

theorem Plain.nested {q inner : Query} (h : q.Plain) (hinner : inner ∈ q.subqueries) :
    inner.Plain :=
  fun _ hpart => h _ (hpart.of_subquery hinner)

theorem PlainPairs.nested {q inner : Query} (h : q.PlainPairs) (hinner : inner ∈ q.subqueries) :
    inner.PlainPairs :=
  fun _ hpart => h _ (hpart.of_subquery hinner)

section Reading

variable {d : Dialect} {H : String → Value → Prop} (hd : d.Tame)
  (hH : ∀ name v, H name v → Text.isIdentifier name = true)

include hd hH

theorem safe_nestedStep {q : Query} (hplain : q.Plain) (hpairs : q.PlainPairs) :
    (q.fold (nestedStep d)).Ensures H (Sql.Safe H) := by
  induction q using Query.induct with
  | step q ih =>
      rw [fold_eq]
      exact Statement.safe_sql hd hH (hplain q (.inl rfl))
        (fun inner hinner => ih inner hinner (hplain.nested hinner) (hpairs.nested hinner))
        (hpairs q (.inl rfl))

theorem safe_statementSteps {q : Query} (hplain : q.Plain) (hpairs : q.PlainPairs) :
    ((prepared d q.statement).sql d).Ensures H (Sql.Safe H) := by
  rw [prepared, foldStatement_eq_map]
  exact Statement.safe_sql hd hH (hplain q (.inl rfl))
    (fun inner hinner => safe_nestedStep hd hH (hplain.nested hinner) (hpairs.nested hinner))
    (hpairs q (.inl rfl))

end Reading

/-- A plain query is written safely, and the lifted names in its text are those of its lifts. -/
theorem safe_written {d : Dialect} (hd : d.Tame) {q : Query} (hplain : q.Plain)
    (hpairs : q.PlainPairs) {sql : Sql} {params : Bag} (h : q.written d = .ok (sql, params)) :
    Sql.Safe (fun name value => (name, value) ∈ q.lifts d) sql := by
  obtain ⟨reserved, after, hreserve, hrun, _⟩ := run_compileSteps h
  have hnames : ∀ name value, (name, value) ∈ q.lifts d → Text.isIdentifier name = true := by
    intro name value hmem
    exact Build.isIdentifier_of_lifts hmem
  have hlifts : ∀ lifted ∈ ((prepared d q.statement).sql d).lifts reserved,
      (lifted.1, lifted.2) ∈ q.lifts d := by
    rw [lifts_eq hreserve]
    exact fun _ hmem => hmem
  exact (safe_statementSteps hd hnames hplain hpairs).run hlifts (by rw [hrun])

/-- The driver finds the placeholders that the compiler wrote, in the order of the text, and
nothing else; it leaves the rest of the text as it is, ends outside quotes, and sends for every
lifted value that value. -/
theorem prepare_finds_marks (b : Builtin) {q : Query} (hplain : q.Plain) (hpairs : q.PlainPairs)
    {c : Compiled} (h : q.compileWith b.dialect = .ok c) :
    ∃ sql : Sql, q.written b.dialect = .ok (sql, c.params) ∧ c.sql = sql.render ∧
      Piece.ofText c.sql = sql.chunks.flatMap Chunk.pieces ∧
      (Prepared.prepare b.dialect c.sql).names = Mark.namesFrom 0 sql.marks ∧
      (Prepared.prepare b.dialect c.sql).sql = Chunk.fill b.dialect.placeholder 0 sql.chunks ∧
      Piece.quoteAfter none (Piece.ofText c.sql) = none ∧
      ∀ bound, (Prepared.prepare b.dialect c.sql).bind c.params = .ok bound →
        bound.values.length = sql.marks.length ∧
        ∀ (i : Nat) (name : String), sql.marks[i]? = some (.lifted name) →
          ∃ value, (name, value) ∈ q.lifts b.dialect ∧ bound.values[i]? = some value := by
  obtain ⟨sql, hwritten, hsql⟩ := written_of_compileWith h
  have hsafe := safe_written b.tame hplain hpairs hwritten
  have hpieces : Piece.ofText c.sql = sql.pieces := by
    have hreads := hsafe.reads [] breaks_nil
    rwa [List.append_nil, Piece.scan, List.append_nil, Sql.chars, ← hsql] at hreads
  obtain ⟨htext, hnames⟩ := Prepared.write_pieces b.dialect.placeholder 0 0 sql.chunks
  have hprepared : Prepared.prepare b.dialect c.sql =
      ⟨Chunk.fill b.dialect.placeholder 0 sql.chunks, Mark.namesFrom 0 sql.marks, []⟩ := by
    rw [Prepared.prepare, hpieces, Sql.pieces, ← htext, Sql.marks, ← hnames]
  refine ⟨sql, hwritten, hsql, hpieces, by rw [hprepared], by rw [hprepared],
    by rw [hpieces, hsafe.closed], fun bound hbound => ?_⟩
  have hvalues := Prepared.values_of_bind hbound
  rw [hprepared] at hvalues
  constructor
  · have hlength := congrArg List.length hvalues
    rw [List.length_map, List.length_map, Mark.length_namesFrom] at hlength
    exact hlength.symm
  · intro i name hmark
    obtain ⟨value, hlifted⟩ := hsafe.lifted name (List.mem_of_getElem? hmark)
    refine ⟨value, hlifted, ?_⟩
    have hheld := ((written_params hwritten).2 _ hlifted).2
    have hi := congrArg (·[i]?) hvalues
    simp only [List.getElem?_map, Mark.namesFrom_lifted hmark, Option.map_some, hheld] at hi
    cases hvalue : bound.values[i]? with
    | none => simp [hvalue] at hi
    | some held => simpa [hvalue] using hi.symm

/-- A join over a pair of fields whose names hold marks. -/
def oddlyNamed : Query :=
  mk Dialect.sqlite (Bag.ofList [("who", .int 3)])
    { Statement.empty with
      tables := [.named "t?"],
      joins := [⟨.named "teams", "LEFT", some (.fields [("team:id", "id")])⟩],
      filter := some (.conj [.equal (.plainField "a:b") (.literal (.text "it's :x")),
        .equal (.plainField "k") (.param "who")]) }

theorem oddlyNamed_plain : oddlyNamed.Plain := by
  intro inner hpart
  obtain rfl := hpart.eq_of_flat rfl
  refine ⟨?_, by decide, ?_, ?_⟩
  · refine List.forall_mem_singleton.mpr ?_
    refine .op (List.forall_mem_cons.mpr ⟨.op ?_, List.forall_mem_singleton.mpr (.op ?_)⟩)
    · refine List.forall_mem_cons.mpr ⟨.field (by decide +kernel) (by simp), ?_⟩
      exact List.forall_mem_singleton.mpr (.literal (by rintro s ⟨⟩; decide))
    · refine List.forall_mem_cons.mpr ⟨.field (by decide +kernel) (by simp), ?_⟩
      exact List.forall_mem_singleton.mpr .param
  · refine List.forall_mem_cons.mpr ⟨⟨?_, by simp [TableRef.named]⟩,
      List.forall_mem_singleton.mpr ⟨?_, by simp [TableRef.named]⟩⟩
    all_goals rintro name ⟨⟩; decide +kernel
  · refine List.forall_mem_singleton.mpr ?_
    rintro pairs ⟨⟩
    decide +kernel

theorem oddlyNamed_plainPairs : oddlyNamed.PlainPairs := by
  intro inner hpart
  obtain rfl := hpart.eq_of_flat rfl
  rintro labels ⟨⟩ join label hmem pairs hpairs
  obtain ⟨⟩ := List.mem_singleton.mp hmem
  obtain ⟨⟩ := hpairs
  decide +kernel

theorem prepare_finds_marks_oddlyNamed :
    oddlyNamed.Plain ∧ oddlyNamed.PlainPairs ∧
      ∃ c sql, oddlyNamed.compileWith Builtin.sqlite.dialect = .ok c ∧
        oddlyNamed.written Builtin.sqlite.dialect = .ok (sql, c.params) ∧
        (Prepared.prepare Builtin.sqlite.dialect c.sql).names = Mark.namesFrom 0 sql.marks ∧
        (Prepared.prepare Builtin.sqlite.dialect c.sql).names = ["p1", "who"] := by
  have hnames : (oddlyNamed.compileWith Builtin.sqlite.dialect).toOption.map (fun c =>
      (Prepared.prepare Builtin.sqlite.dialect c.sql).names) = some ["p1", "who"] := by
    decide +kernel
  refine ⟨oddlyNamed_plain, oddlyNamed_plainPairs, ?_⟩
  cases hcompile : oddlyNamed.compileWith Builtin.sqlite.dialect with
  | error fault => simp [hcompile, Except.toOption] at hnames
  | ok c =>
      obtain ⟨sql, hwritten, _, _, hfound, _⟩ :=
        prepare_finds_marks .sqlite oddlyNamed_plain oddlyNamed_plainPairs hcompile
      exact ⟨c, sql, rfl, hwritten, hfound, by simpa [hcompile, Except.toOption] using hnames⟩

/-- An alias that becomes the start of a field, where its quotes are taken for those of SQL. -/
def oddlyLabelled : Query :=
  mk Dialect.postgres (Bag.ofList [("z", .int 1)])
    { Statement.empty with
      tables := [TableRef.withLabel (.named "t") " 'y':z"],
      joins := [⟨.named "u", "inner", some (.fields [("id", "tid")])⟩] }

theorem oddlyLabelled_plain : oddlyLabelled.Plain := by
  intro inner hpart
  obtain rfl := hpart.eq_of_flat rfl
  refine ⟨List.forall_mem_nil _, by decide, ?_, ?_⟩
  · refine List.forall_mem_cons.mpr ⟨⟨?_, ?_⟩,
      List.forall_mem_singleton.mpr ⟨?_, by simp [TableRef.named]⟩⟩
    all_goals rintro name ⟨⟩; decide +kernel
  · refine List.forall_mem_singleton.mpr ?_
    rintro pairs ⟨⟩
    decide +kernel

theorem oddlyLabelled_disagrees : oddlyLabelled.Plain ∧
    ∃ sql params, oddlyLabelled.written Dialect.postgres = .ok (sql, params) ∧
      sql.marks = [] ∧ (Prepared.prepare Dialect.postgres sql.render).names = ["z"] := by
  have hrun : (oddlyLabelled.written Dialect.postgres).toOption.map (fun result =>
      (result.1.marks, (Prepared.prepare Dialect.postgres result.1.render).names)) =
        some ([], ["z"]) := by
    decide +kernel
  refine ⟨oddlyLabelled_plain, ?_⟩
  cases hwritten : oddlyLabelled.written Dialect.postgres with
  | error fault => simp [hwritten, Except.toOption] at hrun
  | ok result =>
      refine ⟨result.1, result.2, rfl, ?_⟩
      simpa [hwritten, Except.toOption] using hrun

end Query

end QueryCompiler
