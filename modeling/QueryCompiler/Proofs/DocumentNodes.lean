import Mathlib.Data.List.Forall2
import QueryCompiler.Document.Reading
import QueryCompiler.Proofs.ClauseText

/-!
# Documents and what they are read from

A document is read from the bottom up: the parts of a value are read before the value itself. These
are the lemmas that lead from the reading of a value back to the members it consists of, name by
name, so that what is said about a document can be said about its JSON.
-/
namespace QueryCompiler

theorem Except.map_eq_ok {α β ε : Type} {x : Except ε α} {f : α → β} {b : β} :
    f <$> x = .ok b ↔ ∃ a, x = .ok a ∧ f a = b := by
  cases x with
  | error fault => exact ⟨nofun, fun ⟨_, h, _⟩ => nomatch h⟩
  | ok a => exact ⟨fun h => ⟨a, rfl, Except.ok.inj h⟩, fun ⟨_, h, hf⟩ => by cases h; rw [← hf]; rfl⟩

/-- What comes of a list that is read item by item. -/
theorem forall₂_of_mapM_ok {α β ε : Type} {f : α → Except ε β} {xs : List α} {ys : List β}
    (h : xs.mapM f = .ok ys) : List.Forall₂ (fun x y => f x = .ok y) xs ys := by
  induction xs generalizing ys with
  | nil =>
      cases h
      exact .nil
  | cons x rest ih =>
      rw [List.mapM_cons] at h
      obtain ⟨y, hy, hrest⟩ := Except.bind_eq_ok.mp h
      obtain ⟨others, hothers, hpure⟩ := Except.bind_eq_ok.mp hrest
      obtain rfl := Except.ok.inj hpure
      exact .cons hy (ih hothers)

namespace Document

variable (d : Dialect)

/-- The members of an object are read one by one. -/
theorem Node.ofMembers_eq_map (members : List (String × Json)) :
    Node.ofMembers d members = members.map fun member => (member.1, Node.ofJson d member.2) := by
  induction members with
  | nil => rfl
  | cons member rest ih =>
      obtain ⟨name, value⟩ := member
      rw [Node.ofMembers, ih, List.map_cons]

@[simp]
theorem Node.source_ofJson (j : Json) : (Node.ofJson d j).source = j := by
  cases j <;> rfl

@[simp]
theorem Node.members_ofObject (members : List (String × Json)) :
    (Node.ofJson d (.object members)).members = Node.ofMembers d members := by
  rw [Node.ofJson, Node.members]

/-- A member is found where it stands in the object. -/
@[simp]
theorem Members.get?_ofMembers (members : List (String × Json)) (name : String) :
    Members.get? (Node.ofMembers d members) name =
      (Json.member? name members).map (Node.ofJson d) := by
  rw [Members.get?, Json.member?, Node.ofMembers_eq_map, List.find?_map, Option.map_map,
    Option.map_map]
  rfl

theorem membersOf_ofObject (name : String) (members : List (String × Json)) :
    membersOf name (Node.ofJson d (.object members)) = .ok (Node.ofMembers d members) := by
  rw [membersOf, Node.source_ofJson, Node.members_ofObject]

theorem Members.optionalText_ofMembers {members : List (String × Json)} {name s : String}
    (h : Json.member? name members = some (.text s)) :
    Members.optionalText (Node.ofMembers d members) name = .ok (some s) := by
  rw [optionalText, optional, get?_ofMembers, h, Option.map_some]
  simp only [Node.source_ofJson, Document.text]
  rfl

theorem expr_object (members : List (String × Json)) :
    Document.expr d (.object members) = objectExpr (Node.ofMembers d members) := by
  rw [Document.expr, Node.ofJson, Node.roles]
  rfl

/-- A `$value` member is a literal, whatever else the object holds. -/
theorem expr_of_value {members : List (String × Json)} {j : Json} {v : Value}
    (hmember : Json.member? "$value" members = some j) (hv : Value.ofJson? j = some v) :
    Document.expr d (.object members) = .ok (.literal v) := by
  rw [expr_object, objectExpr, Members.get?_ofMembers, hmember, Option.map_some]
  simp only [Node.source_ofJson, scalar, hv]
  rfl

theorem query_object (members : List (String × Json)) :
    Document.query d (.object members) = queryOf d (Node.ofMembers d members) := by
  rw [Document.query, Node.ofJson, Node.roles]
  rfl

/-- A document that can be read is a statement of its kind, with a filter. -/
theorem statement_of_query {members : List (String × Json)} {q : Query}
    (h : Document.query d (.object members) = .ok q) :
    q.dialect = d ∧ ∃ statement filter, statementOf (Node.ofMembers d members) = .ok statement ∧
      q.statement = { statement with filter } := by
  rw [query_object, queryOf] at h
  split at h
  · obtain ⟨_, hrefused, _⟩ := Except.bind_eq_ok.mp h
    cases hrefused
  · obtain ⟨statement, hstatement, h⟩ := Except.bind_eq_ok.mp h
    obtain ⟨filter, -, h⟩ := Except.bind_eq_ok.mp h
    obtain ⟨bound, -, h⟩ := Except.bind_eq_ok.mp h
    obtain rfl := Except.ok.inj h
    exact ⟨rfl, statement, filter, hstatement, rfl⟩

/-- What a document of a kind other than a selection says, it says to its own kind. -/
theorem insertStatement_of_kind {members : List (String × Json)} {kind : String}
    {statement : Statement Query}
    (h : statementOf (Node.ofMembers d members) = .ok statement)
    (hkind : Json.member? "type" members = some (.text kind)) (hinsert : kind.toLower = "insert") :
    insertStatement (Node.ofMembers d members) = .ok statement := by
  obtain ⟨kind', hkind', hstatement⟩ := Except.bind_eq_ok.mp h
  obtain rfl := Except.ok.inj ((Members.optionalText_ofMembers d hkind).symm.trans hkind')
  rwa [Option.getD_some, hinsert] at hstatement

theorem insertStatement_ok {members : Members} {statement : Statement Query}
    (h : insertStatement members = .ok statement) :
    statement.kind = .insert ∧ ∃ columns, insertSource members columns = .ok statement.source := by
  obtain ⟨table, _, hrest⟩ := Except.bind_eq_ok.mp h
  obtain ⟨columns, _, hrest⟩ := Except.bind_eq_ok.mp hrest
  obtain ⟨source, hsource, hpure⟩ := Except.bind_eq_ok.mp hrest
  obtain rfl := Except.ok.inj hpure
  exact ⟨rfl, columns, hsource⟩

/-- The values of a document come before its rows and its selection. -/
theorem insertSource_of_values {members values : Members} {columns : List String} {n : Node}
    {source : Option (InsertSource Query)} (hn : members.get? "values" = some n)
    (hvalues : membersOf "values" n = .ok values) (h : insertSource members columns = .ok source) :
    ∃ row, insertedRow values = .ok row ∧ source = some row := by
  rw [insertSource, hn] at h
  obtain ⟨found, hfound, h⟩ := Except.bind_eq_ok.mp h
  obtain rfl := Except.ok.inj (hvalues.symm.trans hfound)
  obtain ⟨row, hrow, hpure⟩ := Except.bind_eq_ok.mp h
  exact ⟨row, hrow, (Except.ok.inj hpure).symm⟩

/-- A document of an insertion inserts the row that is read from its values. -/
theorem insertion_of_query {members values : List (String × Json)} {kind : String} {q : Query}
    (h : Document.query d (.object members) = .ok q)
    (hkind : Json.member? "type" members = some (.text kind)) (hinsert : kind.toLower = "insert")
    (hvalues : Json.member? "values" members = some (.object values)) :
    q.dialect = d ∧ q.statement.kind = .insert ∧ ∃ row,
      insertedRow (Node.ofMembers d values) = .ok row ∧ q.statement.source = some row := by
  obtain ⟨hdialect, statement, filter, hstatement, hq⟩ := statement_of_query d h
  obtain ⟨hkind, columns, hsource⟩ :=
    insertStatement_ok (insertStatement_of_kind d hstatement hkind hinsert)
  have hmember : Members.get? (Node.ofMembers d members) "values" =
      some (Node.ofJson d (.object values)) := by
    rw [Members.get?_ofMembers, hvalues, Option.map_some]
  obtain ⟨row, hrow, hsome⟩ := insertSource_of_values hmember (membersOf_ofObject d _ _) hsource
  rw [hq]
  exact ⟨hdialect, hkind, row, hrow, hsome⟩

/-- A row whose columns are all scalars is read as values, any other row as expressions; there too
the scalars are literals. -/
theorem insertedRow_ok {values : List (String × Json)} {row : InsertSource Query}
    (h : insertedRow (Node.ofMembers d values) = .ok row) :
    (∃ pairs, row = .values pairs ∧ (∀ value ∈ values, isScalar value.2 = true) ∧
        List.Forall₂ (fun value pair => pair.1 = value.1 ∧ Value.ofJson? value.2 = some pair.2)
          values pairs) ∨
      ∃ pairs, row = .exprs pairs ∧ (∃ value ∈ values, isScalar value.2 = false) ∧
        List.Forall₂ (fun value pair => pair.1 = value.1 ∧
          ∀ v, Value.ofJson? value.2 = some v → pair.2 = .literal v) values pairs := by
  have hscalars : (Node.ofMembers d values).all (fun member => isScalar member.2.source) =
      values.all fun value => isScalar value.2 := by
    simp [Node.ofMembers_eq_map, Function.comp_def]
  rw [insertedRow, hscalars, Node.ofMembers_eq_map] at h
  split at h
  · rename_i hall
    refine .inl ?_
    obtain ⟨pairs, hpairs, rfl⟩ := Except.map_eq_ok.mp h
    refine ⟨pairs, rfl, List.all_eq_true.mp hall, ?_⟩
    refine (List.forall₂_map_left_iff.mp (forall₂_of_mapM_ok hpairs)).imp fun value pair hpair => ?_
    obtain ⟨v, hv, hpure⟩ := Except.bind_eq_ok.mp hpair
    obtain rfl := Except.ok.inj hpure
    rw [Node.source_ofJson, scalar] at hv
    split at hv <;> cases hv
    exact ⟨rfl, ‹_›⟩
  · rename_i hmixed
    refine .inr ?_
    obtain ⟨pairs, hpairs, rfl⟩ := Except.map_eq_ok.mp h
    refine ⟨pairs, rfl, by simpa using hmixed, ?_⟩
    refine (List.forall₂_map_left_iff.mp (forall₂_of_mapM_ok hpairs)).imp fun value pair hpair => ?_
    obtain ⟨e, he, hpure⟩ := Except.bind_eq_ok.mp hpair
    obtain rfl := Except.ok.inj hpure
    refine ⟨rfl, fun v hv => ?_⟩
    rw [insertedExpr, Node.source_ofJson, hv] at he
    exact (Except.ok.inj he).symm

end Document

end QueryCompiler
