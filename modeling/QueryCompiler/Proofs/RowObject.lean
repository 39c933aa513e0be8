import Mathlib.Data.List.Basic
import Mathlib.Data.List.Induction
import QueryCompiler.Row

/-!
# The object of a row

A row that is read by name and the object that is made of it show the same cell: that of the first
column of the name, if there is a value for it. Later columns of the name count in neither, and
where the first one has no value none of them has.
-/
namespace QueryCompiler.Row

variable {name : String}

/-! Members by name. -/

/-- A cell is seen under its name unless a member was there before. -/
theorem member?_addMember (members : List (String × Json)) (cell : String × Value) :
    Json.member? name (addMember members cell) = (Json.member? name members).or
      (if cell.1 = name then some cell.2.toJson else none) := by
  unfold addMember
  split
  · rename_i hthere
    split
    · rename_i hname
      subst hname
      obtain ⟨first, hfirst⟩ := Option.isSome_iff_exists.mp (List.find?_isSome.mpr
        (List.any_eq_true.mp hthere))
      simp [Json.member?, hfirst]
    · rw [Option.or_none]
  · simp only [Json.member?, List.find?_append, Option.map_or]
    by_cases hname : cell.1 = name <;> simp [hname]

/-- Of several cells of a name the first one is seen. -/
theorem member?_foldl (cells : List (String × Value)) (members : List (String × Json)) :
    Json.member? name (cells.foldl addMember members) = (Json.member? name members).or
      ((cells.find? (·.1 == name)).map (·.2.toJson)) := by
  induction cells generalizing members with
  | nil => simp
  | cons cell cells ih =>
      rw [List.foldl_cons, ih, member?_addMember, Option.or_assoc]
      by_cases hname : cell.1 = name <;> simp [hname]

/-- Looking for a name among the cells is looking for its place among the columns: a later column
of the name comes to a value only if the first one does. -/
theorem find?_zip (columns : List String) (values : List Value) :
    ((columns.zip values).find? (·.1 == name)).map (·.2) =
      (columns.findIdx? (· == name)).bind fun i => values[i]? := by
  induction columns generalizing values with
  | nil => rfl
  | cons column columns ih =>
      cases values with
      | nil => cases (column :: columns).findIdx? (· == name) <;> rfl
      | cons value values =>
          by_cases hname : column = name
          · simp [hname, List.findIdx?_cons]
          · rw [List.zip_cons_cons, List.find?_cons_of_neg (by simpa using hname),
              List.findIdx?_cons, if_neg (by simpa using hname), Option.bind_map]
            exact ih values

theorem get?_eq_find? (row : Row) :
    row.get? name = ((row.columns.zip row.values).find? (·.1 == name)).map (·.2) := by
  rw [find?_zip, get?]
  cases row.columns.findIdx? (· == name) <;> rfl

/-! Members in their order. -/

/-- Names in the order in which they occur first among some columns, each once. -/
def InOrderOf (columns names : List String) : Prop :=
  names.Pairwise fun a b => columns.idxOf a < columns.idxOf b

/-- Columns behind those of the names change nothing. -/
theorem InOrderOf.append {columns names : List String} (h : InOrderOf columns names)
    (hmem : ∀ name ∈ names, name ∈ columns) (behind : List String) :
    InOrderOf (columns ++ behind) names := by
  refine h.imp_of_mem fun {a b} ha hb hlt => ?_
  rwa [List.idxOf_append_of_mem (hmem a ha), List.idxOf_append_of_mem (hmem b hb)]

theorem InOrderOf.nodup {columns names : List String} (h : InOrderOf columns names) :
    names.Nodup := by
  refine h.imp ?_
  rintro a _ hlt rfl
  exact Nat.lt_irrefl _ hlt

theorem names_addMember (members : List (String × Json)) (cell : String × Value) :
    (addMember members cell).map (·.1) =
      if cell.1 ∈ members.map (·.1) then members.map (·.1) else members.map (·.1) ++ [cell.1] := by
  have hthere : members.any (·.1 == cell.1) = true ↔ cell.1 ∈ members.map (·.1) := by
    simp [List.any_eq_true]
  unfold addMember
  by_cases h : cell.1 ∈ members.map (·.1)
  · rw [if_pos (hthere.mpr h), if_pos h]
  · rw [if_neg (fun hany => h (hthere.mp hany)), if_neg h, List.map_append]
    rfl

/-- The members have the names of the cells, in the order in which these occur first. -/
theorem names_foldl (cells : List (String × Value)) :
    (∀ name, name ∈ (cells.foldl addMember []).map (·.1) ↔ name ∈ cells.map (·.1)) ∧
      InOrderOf (cells.map (·.1)) ((cells.foldl addMember []).map (·.1)) := by
  -- From the end, as the last cell is added to the members of all before it.
  induction cells using List.reverseRecOn with
  | nil => exact ⟨fun _ => Iff.rfl, .nil⟩
  | append_singleton cells cell ih =>
      obtain ⟨hmem, hordered⟩ := ih
      have hkept := hordered.append (fun name => (hmem name).mp) [cell.1]
      rw [List.foldl_append, List.foldl_cons, List.foldl_nil, names_addMember, List.map_append,
        List.map_singleton]
      split
      · rename_i hthere
        refine ⟨fun name => ?_, hkept⟩
        rw [hmem, List.mem_append, iff_self_or, List.mem_singleton]
        rintro rfl
        exact (hmem _).mp hthere
      · rename_i hnew
        have hlast : cell.1 ∉ cells.map (·.1) := fun h => hnew ((hmem _).mpr h)
        refine ⟨fun name => by rw [List.mem_append, List.mem_append, hmem], ?_⟩
        refine List.pairwise_append.mpr ⟨hkept, List.pairwise_singleton _ _, fun a ha b hb => ?_⟩
        obtain rfl := List.mem_singleton.mp hb
        have hbefore := (hmem a).mp ha
        rw [List.idxOf_append_of_mem hbefore, List.idxOf_append_of_notMem hlast]
        have hlt := List.idxOf_lt_length_of_mem hbefore
        omega

theorem names_zip (columns : List String) (values : List Value) :
    (columns.zip values).map (·.1) <+: columns := by
  induction columns generalizing values with
  | nil => exact List.nil_prefix
  | cons column columns ih =>
      cases values with
      | nil => exact List.nil_prefix
      | cons value values => exact List.cons_prefix_cons.mpr ⟨rfl, ih values⟩

/-- The object of a row has a member of a name exactly where the row has a value for it, and that is
the value of the member. The members stand in the order in which their names occur first among the
columns, each name once. -/
theorem toJson_agrees_with_get (row : Row) : ∃ members, row.toJson = .object members ∧
    (∀ name, name ∈ members.map (·.1) ↔ ∃ v, row.get? name = some v) ∧
    (∀ name, Json.member? name members = (row.get? name).map Value.toJson) ∧
    (members.map (·.1)).Nodup ∧ InOrderOf row.columns (members.map (·.1)) := by
  obtain ⟨hmem, hordered⟩ := names_foldl (row.columns.zip row.values)
  obtain ⟨behind, hcolumns⟩ := names_zip row.columns row.values
  have hplaced := hordered.append (fun name => (hmem name).mp) behind
  rw [hcolumns] at hplaced
  refine ⟨_, rfl, fun name => ?_, fun name => ?_, hplaced.nodup, hplaced⟩
  · rw [hmem, get?_eq_find?, ← Option.isSome_iff_exists, Option.isSome_map, List.find?_isSome]
    simp
  · rw [member?_foldl, get?_eq_find?, Option.map_map]
    rfl

/-- A repeated column, and one without a value. -/
example : Row.toJson ⟨["id", "name", "id", "team"], [.int 1, .text "ann", .int 9]⟩ =
    .object [("id", .int 1), ("name", .text "ann")] := by
  rfl

end QueryCompiler.Row
