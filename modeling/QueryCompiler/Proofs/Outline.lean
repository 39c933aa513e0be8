import QueryCompiler.Proofs.Renaming

/-!
# Nested queries in the text of the outer one

An outline is a compiled text in which every nested query stands between two marks of its own, so
that it is known which part of the text is that of which nested query. It is compiled by the same
steps as the text itself.
-/
namespace QueryCompiler

/-- The marks before and behind a nested query. No parameter has a name like that. -/
def Mark.opening (tag : Nat) : Mark := .reference ("[" ++ toString tag)

def Mark.closing : Mark := .reference "]"

def framed (tag : Nat) (sql : Sql) : Sql := .ofMark (.opening tag) ++ sql ++ .ofMark .closing

namespace Query

/-- A query beside the compilation of its outline: nested queries stand between their marks. -/
def framing (tag : Query → Nat) (d : Dialect) : Algebra (Query × Build Sql) := fun own bound s =>
  let q := mk own bound (s.map Prod.fst)
  (q, do
    Build.merge bound
    let sql ← (s.map Prod.snd).sql d
    return framed (tag q) sql)

def outlineSteps (tag : Query → Nat) (d : Dialect) (q : Query) : Build Sql := do
  reserve q.nestedBags
  ((foldStatement (framing tag d) q.statement).map Prod.snd).sql d

/-- The outline of a compiled query, and the values that fill its placeholders. -/
def outline (tag : Query → Nat) (d : Dialect) (q : Query) : Except Fault (Sql × Bag) :=
  match (outlineSteps tag d q).run (Binder.ofBag q.bound) with
  | (.ok sql, binder) => .ok (sql, binder.bag)
  | (.error fault, _) => .error fault

end Query

/-- A chunk that is a mark of an outline. -/
def Chunk.IsFrame (c : Chunk) : Prop := c = .mark .closing ∨ ∃ tag, c = .mark (.opening tag)

/-- A text and its outline. Of the text between two marks something is known, given the tag of the
first one. -/
inductive Outlined (P : Nat → List Chunk → Prop) : List Chunk → List Chunk → Prop
  | nil : Outlined P [] []
  | own {c : Chunk} {text outline : List Chunk} (hc : ¬ c.IsFrame) (h : Outlined P text outline) :
      Outlined P (c :: text) (c :: outline)
  | nested {tag : Nat} {inner innerOutline text outline : List Chunk}
      (hinner : Outlined P inner innerOutline) (hP : P tag inner) (h : Outlined P text outline) :
      Outlined P (inner ++ text)
        (.mark (.opening tag) :: innerOutline ++ .mark .closing :: outline)

variable {P : Nat → List Chunk → Prop}

theorem Outlined.append {text outline text' outline' : List Chunk} (h : Outlined P text outline)
    (h' : Outlined P text' outline') : Outlined P (text ++ text') (outline ++ outline') := by
  induction h with
  | nil => exact h'
  | own hc _ ih => exact .own hc ih
  | nested hinner hP _ _ ih =>
      rw [List.append_assoc, List.append_assoc]
      exact .nested hinner hP ih

theorem Outlined.single {c : Chunk} (hc : ¬ c.IsFrame) : Outlined P [c] [c] := .own hc .nil

theorem not_isFrame_text (s : String) : ¬ (Chunk.text s).IsFrame := by
  rintro (h | ⟨tag, h⟩) <;> cases h

theorem not_isFrame_own {m : Mark} (h : m.IsOwn) : ¬ (Chunk.mark m).IsFrame := by
  obtain rfl | ⟨name, rfl, hname⟩ := h
  · rintro (h | ⟨tag, h⟩) <;> cases h
  · rintro (h | ⟨tag, h⟩)
    · obtain rfl := Mark.reference.inj (Chunk.mark.inj h)
      exact absurd hname (by decide)
    · obtain rfl := Mark.reference.inj (Chunk.mark.inj h)
      simp [Text.isIdentifier, Text.isIdentifierStart] at hname

theorem not_isFrame_lifted (name : String) : ¬ (Chunk.mark (.lifted name)).IsFrame := by
  rintro (h | ⟨tag, h⟩) <;> cases h

/-- Marks of an outline hold nothing that the compiler looks for. -/
theorem bones_framed (tag : Nat) (sql : Sql) :
    bones (framed tag sql).render = bones sql.render := by
  have hopening : bones (Mark.opening tag).text = [] := by
    refine bones_eq_nil fun c hc => ?_
    have hcons : c = ':' ∨ c = '[' ∨ c ∈ (toString tag).toList := by
      simpa [Mark.opening, Mark.text] using hc
    obtain rfl | rfl | hdigit := hcons
    · decide
    · decide
    · have hname : c ∈ (Binder.generatedName tag).toList := by
        rw [Binder.generatedName, String.toList_append]
        exact List.mem_append_right _ hdigit
      exact isBone_of_identifierPart
        (Text.isIdentifierPart_of_mem (Binder.isIdentifier_generatedName tag) hname)
  have hclosing : bones Mark.closing.text = [] := by decide
  simp only [framed, Sql.render_append, Sql.render_ofMark, bones_append, hopening, hclosing,
    List.nil_append, List.append_nil]

/-- Following two compilations on the runs of one binder that keeps some values, as long as the
first one succeeds and ends with values that others keep. -/
def Build.onRuns (base final : Bag) : Build.Pairing where
  Rel R x y := ∀ (binder : Binder) a after, base.Within binder.bag → x.run binder = (.ok a, after) →
    after.bag.Within final → ∃ b, y.run binder = (.ok b, after) ∧ R a b
  Named := SameName
  pure h _ _ _ _ hrun _ := by
    cases hrun
    exact ⟨_, rfl, h⟩
  Lenient := True
  failing _ _ _ _ _ hrun _ := by cases hrun
  lift v binder a after _ hrun _ := by
    cases hrun
    exact ⟨_, rfl, rfl, Binder.isIdentifier_generatedName _⟩
  bind {α β γ δ R S x y f g} hx hf := by
    intro binder c after hbase hrun hfinal
    rw [run_bind] at hrun
    split at hrun
    · rename_i a between hbetween
      have hgrown := run_within x binder
      have hgrows := run_within (f a) between
      rw [hbetween] at hgrown
      rw [hrun] at hgrows
      obtain ⟨b, hy, hab⟩ := hx binder a between hbase hbetween (hgrows.trans hfinal)
      obtain ⟨d, hd, hS⟩ := hf a b hab between c after (hbase.trans hgrown) hrun hfinal
      refine ⟨d, ?_, hS⟩
      rw [run_bind, hy]
      exact hd
    · cases hrun

/-- A text and its outline, between which the compiler sees no difference. -/
def Builtin.outlining (b : Builtin) (P : Nat → List Chunk → Prop) (base final : Bag) :
    Rewording (Build.onRuns base final) .all b where
  Rel _ _ a a' := Outlined P a.chunks a'.chunks ∧ SameShape a.render a'.render
  Whole a a' := Outlined P a.chunks a'.chunks ∧ bones a.render = bones a'.render
  text _ := ⟨.single (not_isFrame_text _), .refl _⟩
  nothing := ⟨.nil, .refl _⟩
  append ha hc := ⟨ha.1.append hc.1, by
    rw [Sql.render_append, Sql.render_append]
    exact ha.2.append hc.2⟩
  raise h _ := h
  mark h := ⟨by rw [Mark.unname_nil]; exact .single (not_isFrame_own h), by
    rw [Mark.unname_nil]
    exact .refl _⟩
  lifted := by
    rintro name _ ⟨rfl, -⟩
    exact ⟨.single (not_isFrame_lifted name), .refl _⟩
  string _ _ _ := ⟨.single (not_isFrame_text _), .refl _⟩
  field _ _ _ _ := ⟨.single (not_isFrame_text _), .refl _⟩
  table _ := ⟨.single (not_isFrame_text _), .refl _⟩
  label _ := ⟨.single (not_isFrame_text _), .refl _⟩
  enclosed h := h.2.enclosed
  blank h := h.2.blank
  whole h := ⟨h.1, h.2.bones⟩
  wholeAppend ha hc := ⟨ha.1.append hc.1, by
    simp only [Sql.render_append, bones_append, ha.2, hc.2]⟩
  group h := ⟨(Outlined.single (not_isFrame_text _)).append
      (h.1.append (.single (not_isFrame_text _))), by
    simpa using SameShape.group h.2⟩

namespace Query

theorem fst_framing (tag : Query → Nat) (d : Dialect) (q : Query) :
    (q.fold (framing tag d)).1 = q := by
  induction q using Query.induct with
  | step q ih =>
      have hself : q.statement.map (Prod.fst ∘ fold (framing tag d)) = q.statement :=
        Statement.map_self fun inner hinner => ih inner hinner.mem_subqueries
      rw [fold_eq, framing]
      simp only [Statement.map_map, hself]
      cases q
      rfl

theorem fold_framing (tag : Query → Nat) (d : Dialect) (q : Query) :
    (q.fold (framing tag d)).2 = do
      Build.merge q.bound
      let sql ← (q.statement.map fun inner => (inner.fold (framing tag d)).2).sql d
      return framed (tag q) sql := by
  have hfst := fst_framing tag d q
  rw [fold_eq, framing] at hfst ⊢
  simp only [Statement.map_map] at hfst ⊢
  rw [hfst]
  rfl

/-- A nested query is compiled beside its outline, and its text is that of the query alone. -/
theorem framing_related (b : Builtin) (tag : Query → Nat) {q : Query} {reserved : Binder}
    (hreserve : (reserve q.nestedBags).run (Binder.ofBag q.bound) = (.ok (), reserved))
    (params : Bag) {n : Query} (h : n.NestedIn q) :
    (Build.onRuns reserved.bag params).Rel
      (b.outlining (fun t inner => ∃ n : Query, n.NestedIn q ∧ tag n = t ∧
        n.IsTextOf b.dialect params inner) reserved.bag params).Whole
      (n.fold (nestedStep b.dialect)) (n.fold (framing tag b.dialect)).2 := by
  induction n using Query.induct with
  | step n ih =>
      intro binder sql after hbase hrun hparams
      rw [fold_eq, nestedStep, Build.run_bind] at hrun
      rw [fold_framing, Build.run_bind]
      split at hrun
      · rename_i between hmerge
        have hgrown := Build.run_within (Build.merge n.bound) binder
        rw [hmerge] at hgrown
        have hstatement := Statement.sql_related (b.outlining _ reserved.bag params).toWording
          n.statement.uses_all fun inner hinner => ih inner hinner (h.of_subquery hinner)
        obtain ⟨outline, houtline, hwhole⟩ :=
          hstatement between sql after (hbase.trans hgrown) hrun hparams
        have htext : n.IsTextOf b.dialect params sql.chunks := by
          rw [← foldStatement_eq_map, ← prepared] at hrun
          exact h.isTextOf b hreserve (hbase.trans hgrown) hrun hparams
        refine ⟨framed (tag n) outline, ?_, ?_, ?_⟩
        · rw [Build.run_bind, houtline]
          rfl
        · have houtlined := Outlined.nested hwhole.1 ⟨n, h, rfl, htext⟩ .nil
          rwa [List.append_nil] at houtlined
        · rw [bones_framed]
          exact hwhole.2
      · cases hrun

/-- Compiling nested queries is compositional: the text of a compiled query has an outline in which
every nested query stands between marks, whatever its tag and however deep it is nested. What stands
between them is the text of that query compiled alone in the same dialect, up to a one-to-one
renaming of the placeholders for lifted values, each of which is bound to the same value. -/
theorem compileWith_outline (b : Builtin) (tag : Query → Nat) {q : Query} {c : Compiled}
    (h : q.compileWith b.dialect = .ok c) :
    ∃ text outline : Sql, c.sql = text.render ∧ q.outline tag b.dialect = .ok (outline, c.params) ∧
      Outlined (fun t inner => ∃ n : Query, n.NestedIn q ∧ tag n = t ∧
        n.IsTextOf b.dialect c.params inner) text.chunks outline.chunks := by
  obtain ⟨text, hwritten, hsql⟩ := written_of_compileWith h
  obtain ⟨reserved, after, hreserve, hrun, hparams⟩ := run_compileSteps hwritten
  rw [prepared, foldStatement_eq_map] at hrun
  have hstatement := Statement.sql_related (b.outlining _ reserved.bag c.params).toWording
    q.statement.uses_all fun inner hinner => framing_related b tag hreserve c.params
      (.direct (Statement.holds_of_mem_subqueries hinner))
  obtain ⟨outline, houtline, hwhole⟩ := hstatement reserved text after (.refl _) hrun
    (hparams ▸ .refl _)
  refine ⟨text, outline, hsql, ?_, hwhole.1⟩
  rw [Query.outline, outlineSteps, Build.run_bind, hreserve, foldStatement_eq_map,
    Statement.map_map]
  simp only [Function.comp_def, houtline, hparams]

/-- The authors of a name. -/
def namedAuthors : Query :=
  mk Dialect.sqlite Bag.empty
    { Statement.empty with
      fields := [⟨.plainField "id", none⟩], tables := [.named "authors"],
      filter := some (.equal (.plainField "name") (.literal (.text "ada"))) }

/-- A selection that lifts a string before the one of its nested query. -/
def novelsByAuthors : Query :=
  mk Dialect.postgres Bag.empty
    { Statement.empty with
      tables := [.named "books"],
      filter := some (.conj [.equal (.plainField "genre") (.literal (.text "novel")),
        .op "IN" [.plainField "author_id", .subquery namedAuthors]]) }

theorem compileWith_outline_novelsByAuthors :
    ∃ (c : Compiled) (text outline : Sql),
      novelsByAuthors.compileWith Builtin.postgres.dialect = .ok c ∧ c.sql = text.render ∧
      c.sql = "SELECT * FROM books WHERE genre = :p1 AND " ++
        "author_id IN (SELECT id FROM authors WHERE name = :p2)" ∧
      novelsByAuthors.outline (fun _ => 7) Builtin.postgres.dialect = .ok (outline, c.params) ∧
      .mark (.opening 7) ∈ outline.chunks ∧
      Outlined (fun t inner => ∃ n : Query, n.NestedIn novelsByAuthors ∧ 7 = t ∧
        n.IsTextOf Builtin.postgres.dialect c.params inner) text.chunks outline.chunks := by
  have hsql : (novelsByAuthors.compileWith Builtin.postgres.dialect).toOption.map Compiled.sql =
      some ("SELECT * FROM books WHERE genre = :p1 AND " ++
        "author_id IN (SELECT id FROM authors WHERE name = :p2)") := by
    decide +kernel
  have hframed : (novelsByAuthors.outline (fun _ => 7) Builtin.postgres.dialect).toOption.map
      (fun answer => decide (.mark (.opening 7) ∈ answer.1.chunks)) = some true := by
    decide +kernel
  obtain ⟨c, hcompile, hshown⟩ := Except.exists_of_toOption hsql
  obtain ⟨⟨marked, _⟩, hframes, hmem⟩ := Except.exists_of_toOption hframed
  obtain ⟨text, outline, htext, houtline, houtlined⟩ :=
    compileWith_outline .postgres (fun _ => 7) hcompile
  obtain ⟨rfl, -⟩ := Prod.mk.inj (Except.ok.inj (hframes.symm.trans houtline))
  exact ⟨c, text, marked, hcompile, htext, hshown, houtline, of_decide_eq_true hmem, houtlined⟩

end Query

end QueryCompiler
