import QueryCompiler.Proofs.ParameterSafety
import QueryCompiler.Proofs.StatementWording

/-!
# Queries in two wordings

What holds of statements holds of queries, nested ones included, if the bags that are taken in on
the way are taken in on both sides. The second side may compile the revised query.
-/
namespace QueryCompiler.Query

/-- All texts of a query and of the queries nested in it belong to a vocabulary. -/
def Uses (V : Vocabulary) (q : Query) : Prop :=
  ∀ part : Query, part.PartOf q → part.statement.Uses V

/-- All texts and placeholders of a query and of the queries nested in it. -/
def Fits (V : Vocabulary) (A : Mark → Prop) (q : Query) : Prop :=
  ∀ part : Query, part.PartOf q → part.statement.Fits V A

variable {L : Build.Pairing} {V : Vocabulary} {A : Mark → Prop} {b b' : Builtin}

theorem Fits.nested {q inner : Query} (h : q.Fits V A) (hinner : inner ∈ q.subqueries) :
    inner.Fits V A :=
  fun _ hpart => h _ (hpart.of_subquery hinner)

theorem Uses.fits {q : Query} (h : q.Uses V) (hA : ∀ m, A m) : q.Fits V A :=
  fun part hpart => (h part hpart).fits hA

theorem uses_all (q : Query) : q.Uses .all := fun part _ => part.statement.uses_all

/-- Some bags are taken in on both sides. -/
def MergesAll (L : Build.Pairing) (bags : List Bag) : Prop :=
  ∀ bag ∈ bags, L.Rel Eq (Build.merge bag) (Build.merge bag)

theorem reserve_related {bags : List Bag} (h : MergesAll L bags) :
    L.Rel Eq (reserve bags) (reserve bags) := by
  induction bags with
  | nil => exact L.pure rfl
  | cons bag rest ih =>
      obtain ⟨hbag, hrest⟩ := List.forall_mem_cons.mp h
      exact L.bind hbag fun _ _ _ => ih hrest

section

variable (W : Phrasing L V b b')

/-- A query is written inside another one in related texts. -/
def NestedRelated (q : Query) : Prop :=
  L.Rel W.Whole (q.fold (nestedStep b.dialect)) ((q.revise W.revision).fold (nestedStep b'.dialect))

/-- The orders of a query, and of those nested in it, are written in related texts if their nested
queries are. -/
def OrdersRelated (q : Query) : Prop :=
  ∀ part : Query, part.PartOf q → part.statement.kind = .select →
    (∀ inner ∈ part.subqueries, inner.NestedRelated W) →
    part.statement.OrdersRelated W (fold (nestedStep b.dialect))
      fun inner => (inner.revise W.revision).fold (nestedStep b'.dialect)

theorem nestedStep_of_orders {q : Query} (hfits : q.Fits V W.Allowed)
    (horders : q.OrdersRelated W) (hmerge : MergesAll L q.bags) : q.NestedRelated W := by
  induction q using Query.induct with
  | step q ih =>
      rw [bags_eq] at hmerge
      obtain ⟨hbound, hnested⟩ := List.forall_mem_cons.mp hmerge
      have hinner : ∀ inner ∈ q.subqueries, inner.NestedRelated W := fun inner hinner =>
        ih inner hinner (hfits.nested hinner)
          (fun part hpart => horders part (hpart.of_subquery hinner)) fun _ hbag =>
            hnested _ (mem_nestedBags hinner hbag)
      rw [NestedRelated, fold_eq, fold_revise]
      refine L.bind hbound fun _ _ _ => ?_
      exact Statement.sql_of_orders W (hfits q (.inl rfl)) hinner fun hkind =>
        horders q (.inl rfl) hkind hinner

/-- A query and the revised one compile side by side, if their orders do. -/
theorem compileSteps_of_orders {q : Query} (hfits : q.Fits V W.Allowed)
    (horders : q.OrdersRelated W) (hmerge : MergesAll L q.nestedBags) :
    L.Rel W.Whole (compileSteps b.dialect q) (compileSteps b'.dialect (q.revise W.revision)) := by
  have hinner : ∀ inner ∈ q.subqueries, inner.NestedRelated W := fun inner hinner =>
    nestedStep_of_orders W (hfits.nested hinner)
      (fun part hpart => horders part (hpart.of_subquery hinner)) fun _ hbag =>
        hmerge _ (mem_nestedBags hinner hbag)
  rw [compileSteps, compileSteps, nestedBags_revise]
  refine L.bind (reserve_related hmerge) fun _ _ _ => ?_
  rw [prepared, prepared, foldStatement_eq_map, foldStatement_eq_map, statement_revise,
    Statement.map_map]
  exact Statement.sql_of_orders W (hfits q (.inl rfl)) hinner fun hkind =>
    horders q (.inl rfl) hkind hinner

end

variable (W : Wording L V b b')

theorem ordersRelated {q : Query} (hfits : q.Fits V W.Allowed) : q.OrdersRelated W.toPhrasing :=
  fun part hpart _ hinner => Statement.orders_related W (hfits part hpart) hinner

/-- A query and the revised one compile side by side. -/
theorem compileSteps_revised {q : Query} (hfits : q.Fits V W.Allowed)
    (hmerge : MergesAll L q.nestedBags) :
    L.Rel W.Whole (compileSteps b.dialect q) (compileSteps b'.dialect (q.revise W.revision)) :=
  compileSteps_of_orders W.toPhrasing hfits (ordersRelated W hfits) hmerge

/-! Both sides may compile the same query. -/

/-- A nested query is written in related texts. -/
theorem nestedStep_related {q : Query} (huses : q.Uses V) (hmerge : MergesAll L q.bags)
    (hW : W.IsSame := by exact ⟨rfl, fun _ => trivial⟩) :
    L.Rel W.Whole (q.fold (nestedStep b.dialect)) (q.fold (nestedStep b'.dialect)) := by
  have hfits := huses.fits hW.allowed
  have hrelated := nestedStep_of_orders W.toPhrasing hfits (ordersRelated W hfits) hmerge
  rwa [NestedRelated, hW.revision, revise_unchanged] at hrelated

/-- So is the statement of a query. -/
theorem prepared_related {q : Query} (huses : q.Uses V) (hmerge : MergesAll L q.nestedBags)
    (hW : W.IsSame := by exact ⟨rfl, fun _ => trivial⟩) :
    L.Rel W.Whole ((prepared b.dialect q.statement).sql b.dialect)
      ((prepared b'.dialect q.statement).sql b'.dialect) := by
  rw [prepared, prepared, foldStatement_eq_map, foldStatement_eq_map]
  refine Statement.sql_related W (huses q (.inl rfl)) (fun inner hinner => ?_) hW
  exact nestedStep_related W (fun _ hpart => huses _ (hpart.of_subquery hinner))
    (fun _ hbag => hmerge _ (mem_nestedBags hinner hbag)) hW

theorem compileSteps_related {q : Query} (huses : q.Uses V) (hmerge : MergesAll L q.nestedBags)
    (hW : W.IsSame := by exact ⟨rfl, fun _ => trivial⟩) :
    L.Rel W.Whole (compileSteps b.dialect q) (compileSteps b'.dialect q) :=
  L.bind (reserve_related hmerge) fun _ _ _ => prepared_related W huses hmerge hW

end QueryCompiler.Query
