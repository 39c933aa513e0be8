import QueryCompiler.Proofs.LiftedStatements
import QueryCompiler.Proofs.PlaceholderCapture
import QueryCompiler.Proofs.SealedSql

/-!
# Generated names and the text

The generated names among the parameters of a compiled query are those of the values that its
statements lift, nested ones included. They are the placeholders of the text, except where the text
of an operand was given up because another operand had decided the whole.
-/
namespace QueryCompiler

open Build (LiftsAs)

/-- The values that a query and those nested in it lift, in the order of the text. -/
def Query.lifted (q : Query) : List LiftedValue := q.fold fun _ _ s => s.lifted

/-! The scan for placeholders starts anew behind each piece of the text. -/

/-- Every text and every placeholder closes its quotes. -/
def Sql.PiecesClosed (sql : Sql) : Prop := ∀ chunk ∈ sql.chunks, Closed chunk.render.toList

namespace Sql.PiecesClosed

variable {a b : Sql}

theorem append (ha : a.PiecesClosed) (hb : b.PiecesClosed) : (a ++ b).PiecesClosed :=
  List.forall_mem_append.mpr ⟨ha, hb⟩

theorem text {s : String} (h : ClosesQuotes s) : (s : Sql).PiecesClosed :=
  List.forall_mem_singleton.mpr h

theorem mark {m : Mark} (h : IsSealed m.text) : (ofMark m).PiecesClosed :=
  List.forall_mem_singleton.mpr h.closed

end Sql.PiecesClosed

open Sql (PiecesClosed)

/-- Where no name is given up, it does not matter how expressions are shown in a fault. -/
theorem Build.Pairing.nothing_unnamed (L : Build.Pairing) :
    ([] : List String) = [] ∨ L.Lenient :=
  .inl rfl

/-- The same text, of which every piece closes its quotes. -/
def Builtin.closedRewording (b : Builtin) : Rewording Build.beside .closedQuotes b where
  Rel _ _ a a' := a = a' ∧ a.PiecesClosed
  Whole a a' := a = a' ∧ a.PiecesClosed
  shown := Build.beside.nothing_unnamed
  text h := ⟨rfl, .text h.spans.closed⟩
  nothing := ⟨rfl, fun _ h => absurd h List.not_mem_nil⟩
  append := by
    rintro k l m a _ c _ ⟨rfl, ha⟩ ⟨rfl, hc⟩
    exact ⟨rfl, ha.append hc⟩
  raise h _ := h
  mark h := ⟨by rw [Mark.unname_nil], .mark (isSealed_mark h)⟩
  lifted := by
    rintro name _ ⟨rfl, hname⟩
    exact ⟨rfl, .mark (IsSealed.append (by decide) (isSealed_identifier hname))⟩
  string h hstart hbalanced := ⟨rfl, .text (StringKeeps.holds Spans.closed h hstart hbalanced)⟩
  field h scope f hf := ⟨rfl, .text (b.keeps_closesQuotes.fieldName scope hf (h f hf))⟩
  table h := ⟨rfl, .text (b.composes_closesQuotes.dotted h)⟩
  label h := ⟨rfl, .text (b.composes_closesQuotes.labelName h)⟩
  enclosed h := by rw [h.1]
  blank h := by rw [h.1]
  whole h := h
  wholeAppend := by
    rintro a _ c _ ⟨rfl, ha⟩ ⟨rfl, hc⟩
    exact ⟨rfl, ha.append hc⟩
  group := by
    rintro a _ ⟨rfl, ha⟩
    refine ⟨rfl, (PiecesClosed.append ?_ ha).append ?_⟩
    · exact .text (by decide : ClosesQuotes "(")
    · exact .text (by decide : ClosesQuotes ")")

namespace Query

theorem written_piecesClosed (b : Builtin) {q : Query} (huses : q.Uses .closedQuotes) {sql : Sql}
    {params : Bag} (h : q.written b.dialect = .ok (sql, params)) : sql.PiecesClosed := by
  have hsteps := compileSteps_related b.closedRewording.toWording huses fun _ _ =>
    Build.Paired.merge trivial
  unfold written at h
  obtain ⟨_, _, hgives, _⟩ | ⟨_, _, hrun, _⟩ | ⟨a, _, after, ⟨_, hclosed⟩, hrun, _⟩ :=
    Build.Paired.run (fun n => ⟨rfl, Binder.isIdentifier_generatedName n⟩) hsteps
      (Binder.ofBag q.bound)
  · exact hgives.elim
  · simp [hrun] at h
  · rw [hrun] at h
    obtain rfl : a = sql := congrArg Prod.fst (Except.ok.inj h)
    exact hclosed

theorem lifted_eq (q : Query) : q.lifted = (q.statement.map lifted).lifted := by
  rw [lifted, fold_eq]
  rfl

/-- A nested query takes in what is bound to it, and lifts nothing for that. -/
theorem nestedStep_liftsAs (b : Builtin) (q : Query) :
    (q.fold (nestedStep b.dialect)).LiftsAs Sql.shown q.lifted := by
  induction q using Query.induct with
  | step q ih =>
      rw [fold_eq, lifted_eq]
      exact .after (.merge _) fun _ _ => Statement.sql_liftsAs ih

theorem prepared_liftsAs (b : Builtin) (q : Query) :
    ((prepared b.dialect q.statement).sql b.dialect).LiftsAs Sql.shown q.lifted := by
  rw [prepared, foldStatement_eq_map, lifted_eq]
  exact Statement.sql_liftsAs fun inner _ => nestedStep_liftsAs b inner

/-- The generated names among the parameters of a compiled query are those of the values that it
lifts, one for each. If all texts that are written as they stand close their quotes, whatever their
parentheses are, such a name is a placeholder of the SQL, unless the text around it was given up. -/
theorem generated_names_occur (b : Builtin) {q : Query} (huses : q.Uses .closedQuotes)
    {c : Compiled} (h : q.compileWith b.dialect = .ok c) :
    (∀ name, c.params.get? name ≠ none → (∃ value, q.Binds name value) ∨
      name ∈ (q.lifts b.dialect).map (·.1)) ∧
    List.Forall₂ (fun lift l => c.params.get? lift.1 = some lift.2 ∧ lift.2 = l.value ∧
      (l.kept = true → Piece.named lift.1 ∈ Piece.ofText c.sql)) (q.lifts b.dialect) q.lifted := by
  obtain ⟨sql, hwritten, hsql⟩ := written_of_compileWith h
  have hclosed := written_piecesClosed b huses hwritten
  obtain ⟨-, hkept⟩ := written_params hwritten
  refine ⟨fun name => names_of_written hwritten, ?_⟩
  obtain ⟨reserved, after, hreserve, hrun, -⟩ := run_compileSteps hwritten
  rw [lifts_eq hreserve] at hkept ⊢
  rw [hsql]
  refine ((List.forall₂_and_left _ _).mpr
    ⟨fun lift hlift => hlift, prepared_liftsAs b q hrun⟩).imp ?_
  rintro lift l ⟨hlift, hvalue, hshown⟩
  refine ⟨(hkept lift hlift).2, hvalue, fun hl => ?_⟩
  exact Sql.named_of_shown hclosed (Build.isIdentifier_of_lifts hlift) (hshown hl)

/-- Of two alternatives the first can never hold, and its text is given up. The name of the table is
cut at its dot: the part in front of it is written as it stands and opens a parenthesis, the part
behind it is quoted. -/
def halfDecided : Query :=
  mk Dialect.postgres Bag.empty
    { Statement.empty with
      tables := [.named "f(1.5)"]
      filter := some (.disj [.conj [.equal (.plainField "name") (.literal (.text "ada")),
        .literal (.bool false)], .equal (.plainField "city") (.literal (.text "rome"))]) }

theorem halfDecided_closed : halfDecided.Uses .closedQuotes := by
  intro part hpart
  obtain rfl := hpart.eq_of_flat rfl
  have hequal : ∀ texts ∈ [("name", "ada"), ("city", "rome")],
      Expr.Uses (ν := Query) .closedQuotes
        (.equal (.plainField texts.1) (.literal (.text texts.2))) := by
    intro texts htexts
    have hall : ∀ texts ∈ [("name", "ada"), ("city", "rome")],
        FieldKeeps ClosesQuotes texts.1 ∧ StringKeeps ClosesQuotes texts.2 := by
      decide +kernel
    obtain ⟨hfield, hstring⟩ := hall texts htexts
    refine .op (List.forall_mem_cons.mpr ⟨.field hfield, List.forall_mem_singleton.mpr ?_⟩)
    exact .literal (by rintro s ⟨⟩; exact hstring)
  refine ⟨?_, ?_, ?_, ?_, ?_⟩
  · refine List.forall_mem_singleton.mpr (.op (List.forall_mem_cons.mpr ⟨.op ?_,
      List.forall_mem_singleton.mpr (hequal ("city", "rome") (by simp))⟩))
    refine List.forall_mem_cons.mpr ⟨hequal ("name", "ada") (by simp), ?_⟩
    exact List.forall_mem_singleton.mpr (.literal nofun)
  · exact fun _ hitem => absurd hitem List.not_mem_nil
  · have htables : PartsKeep ClosesQuotes "f(1.5)" := by decide +kernel
    refine List.forall_mem_singleton.mpr ?_
    rintro name ⟨⟩
    exact htables
  · rintro labels ⟨⟩ label (htable | hjoin)
    · cases List.mem_singleton.mp htable
    · exact absurd hjoin List.not_mem_nil
  · rintro labels ⟨⟩ join label hjoin
    exact absurd hjoin List.not_mem_nil

theorem generated_names_occur_halfDecided :
    halfDecided.Uses .closedQuotes ∧ ∃ c, halfDecided.compileWith Builtin.postgres.dialect = .ok c ∧
      c.sql = "SELECT * FROM f(1.\"5)\" WHERE city = :p2" ∧
      halfDecided.lifted.map LiftedValue.kept = [false, true] ∧
      (∀ name, c.params.get? name ≠ none → (∃ value, halfDecided.Binds name value) ∨
        name ∈ (halfDecided.lifts Builtin.postgres.dialect).map (·.1)) ∧
      List.Forall₂ (fun lift l => c.params.get? lift.1 = some lift.2 ∧ lift.2 = l.value ∧
        (l.kept = true → Piece.named lift.1 ∈ Piece.ofText c.sql))
        (halfDecided.lifts Builtin.postgres.dialect) halfDecided.lifted := by
  have hsql : (halfDecided.compileWith Builtin.postgres.dialect).toOption.map Compiled.sql =
      some "SELECT * FROM f(1.\"5)\" WHERE city = :p2" := by
    decide +kernel
  obtain ⟨c, hcompile, htext⟩ := Except.exists_of_toOption hsql
  exact ⟨halfDecided_closed, c, hcompile, htext, by decide +kernel,
    generated_names_occur .postgres halfDecided_closed hcompile⟩

/-- A value in a conjunction that is decided by its last operand. -/
def decidedFilter : Query :=
  mk Dialect.postgres Bag.empty
    { Statement.empty with
      tables := [.named "t"]
      filter := some (.conj [.equal (.plainField "name") (.literal (.text "ada")),
        .literal (.bool false)]) }

/-- A value behind a column whose quotes are cut apart. -/
def openedFilter : Query :=
  mk Dialect.postgres Bag.empty
    { Statement.empty with
      fields := [⟨.plainField "x.\"a.b\"", none⟩]
      tables := [.named "t"]
      filter := some (.equal (.plainField "name") (.literal (.text "ada"))) }

/-- Either value is a parameter, but the SQL has no placeholder for it: the text around the one was
given up, and the name of the other stands in quotes. -/
theorem generated_names_lost :
    (decidedFilter.lifts Builtin.postgres.dialect).map (·.1) = ["p1"] ∧
    (openedFilter.lifts Builtin.postgres.dialect).map (·.1) = ["p1"] ∧
    (∃ c, decidedFilter.compileWith Builtin.postgres.dialect = .ok c ∧
      c.sql = "SELECT * FROM t WHERE FALSE" ∧ c.params.contains "p1" = true ∧
      Piece.named "p1" ∉ Piece.ofText c.sql) ∧
    ∃ c, openedFilter.compileWith Builtin.postgres.dialect = .ok c ∧
      c.sql = "SELECT x.\"a.\"b\"\"\" FROM t WHERE name = :p1" ∧
      c.params.contains "p1" = true ∧ Piece.named "p1" ∉ Piece.ofText c.sql := by
  have hdecided : (decidedFilter.compileWith Builtin.postgres.dialect).toOption.map
      (fun c => (c.sql, c.params.contains "p1")) = some ("SELECT * FROM t WHERE FALSE", true) := by
    decide +kernel
  have hopened : (openedFilter.compileWith Builtin.postgres.dialect).toOption.map
      (fun c => (c.sql, c.params.contains "p1")) =
        some ("SELECT x.\"a.\"b\"\"\" FROM t WHERE name = :p1", true) := by
    decide +kernel
  obtain ⟨c, hcompile, hshown⟩ := Except.exists_of_toOption hdecided
  obtain ⟨c', hcompile', hshown'⟩ := Except.exists_of_toOption hopened
  obtain ⟨htext, hparam⟩ := Prod.mk.inj hshown
  obtain ⟨htext', hparam'⟩ := Prod.mk.inj hshown'
  refine ⟨by decide +kernel, by decide +kernel, ⟨c, hcompile, htext, hparam, ?_⟩,
    ⟨c', hcompile', htext', hparam', ?_⟩⟩
  · rw [htext]
    decide +kernel
  · rw [htext']
    decide +kernel

end Query

end QueryCompiler
