import Mathlib.Logic.Basic
import QueryCompiler.Operator

/-!
# Trees of expressions

The trees that a reader of SQL text sees. Nested applications of one variadic operator cannot be
told from a single one with all the operands, nor an application to one operand from that operand;
`Tree.merged` forgets both differences.
-/
namespace QueryCompiler

inductive Tree where
  | field (path : List String)
  | param (name : String)
  | call (path : List String) (args : List Tree)
  | op (name : String) (operands : List Tree)

namespace Tree

/-- Induction over trees with one hypothesis for all operands. -/
@[elab_as_elim]
theorem induct {motive : Tree → Prop} (field : ∀ path, motive (.field path))
    (param : ∀ name, motive (.param name))
    (call : ∀ path args, (∀ t ∈ args, motive t) → motive (.call path args))
    (op : ∀ name operands, (∀ t ∈ operands, motive t) → motive (.op name operands))
    (t : Tree) : motive t :=
  @Tree.rec motive (fun ts => ∀ t ∈ ts, motive t) field param call op
    (fun _ h => absurd h List.not_mem_nil)
    (fun _ _ first rest => List.forall_mem_cons.mpr ⟨first, rest⟩) t

def isVariadic (name : String) : Bool :=
  Operator.all.any fun op => op.name == name && op.arity == .variadic

/-- The operands of a tree as an operand of an operator: those of a nested application of it. -/
def parts (name : String) : Tree → List Tree
  | op other operands => if other = name then operands else [op other operands]
  | field path => [field path]
  | param other => [.param other]
  | call path args => [call path args]

/-- One operand stands for itself. -/
def join (name : String) : List Tree → Tree
  | [t] => t
  | operands => op name operands

mutual
/-- Merge nested applications of the same variadic operator and drop those to one operand. -/
def merged : Tree → Tree
  | field path => field path
  | param name => param name
  | call path args => call path (allMerged args)
  | op name operands =>
    if isVariadic name then join name ((allMerged operands).flatMap (parts name))
    else op name (allMerged operands)

def allMerged : List Tree → List Tree
  | [] => []
  | t :: rest => merged t :: allMerged rest
end

theorem allMerged_eq_map (ts : List Tree) : allMerged ts = ts.map merged := by
  induction ts with
  | nil => rfl
  | cons t rest ih => rw [allMerged, ih, List.map_cons]

theorem merged_op {name : String} (h : isVariadic name = true) (operands : List Tree) :
    (op name operands).merged = join name (operands.flatMap fun t => t.merged.parts name) := by
  rw [merged, if_pos h, allMerged_eq_map, List.flatMap_map]

theorem merged_fixed {name : String} (h : isVariadic name = false) (operands : List Tree) :
    (op name operands).merged = op name (operands.map merged) := by
  rw [merged, h, if_neg Bool.false_ne_true, allMerged_eq_map]

theorem merged_call (path : List String) (args : List Tree) :
    (call path args).merged = call path (args.map merged) := by
  rw [merged, allMerged_eq_map]

/-- Operands that are merged to the same trees may replace each other. -/
theorem merged_op_congr {ts us : List Tree} (name : String)
    (h : ts.map merged = us.map merged) : (op name ts).merged = (op name us).merged := by
  rw [merged, merged, allMerged_eq_map, allMerged_eq_map, h]

/-- No application of an operator is left that could be merged or dropped. -/
inductive Normal : Tree → Prop
  | field (path : List String) : Normal (.field path)
  | param (name : String) : Normal (.param name)
  | call {path : List String} {args : List Tree} (h : ∀ t ∈ args, Normal t) : Normal (.call path args)
  | op {name : String} {operands : List Tree} (h : ∀ t ∈ operands, Normal t)
      (hparts : isVariadic name = true → ∀ t ∈ operands, t.parts name = [t])
      (hlength : isVariadic name = true → operands.length ≠ 1) : Normal (.op name operands)

theorem Normal.parts {t : Tree} (h : t.Normal) {name : String} (hname : isVariadic name = true) :
    ∀ part ∈ t.parts name, part.Normal ∧ part.parts name = [part] := by
  have hself : t.parts name = [t] → ∀ part ∈ t.parts name, part.Normal ∧ part.parts name = [part] := by
    intro ht part hpart
    rw [ht, List.mem_singleton] at hpart
    subst hpart
    exact ⟨h, ht⟩
  cases h with
  | field | param | call => exact hself rfl
  | @op other operands hoperands hparts _ =>
      by_cases hother : other = name
      · subst hother
        rw [Tree.parts, if_pos rfl]
        exact fun part hpart => ⟨hoperands part hpart, hparts hname part hpart⟩
      · exact hself (by rw [Tree.parts, if_neg hother])

theorem parts_join {name : String} {ts : List Tree} (h : ∀ t ∈ ts, t.parts name = [t]) :
    (join name ts).parts name = ts := by
  match ts with
  | [] => simp [join, parts]
  | [t] => exact h t List.mem_cons_self
  | _ :: _ :: _ => simp [join, parts]

theorem Normal.join {name : String} {ts : List Tree}
    (h : ∀ t ∈ ts, t.Normal ∧ t.parts name = [t]) : (join name ts).Normal := by
  have hop : ts.length ≠ 1 → (Tree.op name ts).Normal := fun hlength =>
    .op (fun t ht => (h t ht).1) (fun _ t ht => (h t ht).2) fun _ => hlength
  match ts with
  | [] => exact hop (by simp)
  | [t] => exact (h t List.mem_cons_self).1
  | _ :: _ :: _ => exact hop (by simp)

/-- A merged tree is the join of its parts. -/
theorem Normal.join_parts {t : Tree} (h : t.Normal) {name : String}
    (hname : isVariadic name = true) : Tree.join name (t.parts name) = t := by
  cases h with
  | field | param | call => rfl
  | @op other operands _ _ hlength =>
      by_cases hother : other = name
      · subst hother
        rw [Tree.parts, if_pos rfl]
        match operands with
        | [] => rfl
        | [_] => exact absurd rfl (hlength hname)
        | _ :: _ :: _ => rfl
      · rw [Tree.parts, if_neg hother, Tree.join]

theorem normal_merged (t : Tree) : t.merged.Normal := by
  induction t using induct with
  | field path => exact .field path
  | param name => exact .param name
  | call path args ih =>
      rw [merged_call]
      exact .call (by simpa using ih)
  | op name operands ih =>
      cases hname : isVariadic name with
      | true =>
          rw [merged_op hname]
          refine Normal.join fun part hpart => ?_
          obtain ⟨t, ht, hpart⟩ := List.mem_flatMap.mp hpart
          exact (ih t ht).parts hname part hpart
      | false =>
          rw [merged_fixed hname]
          exact .op (by simpa using ih) (by simp [hname]) (by simp [hname])

/-- As an operand of its own operator an application contributes the parts of its operands. -/
theorem parts_merged_op {name : String} (h : isVariadic name = true) (operands : List Tree) :
    (op name operands).merged.parts name = operands.flatMap fun t => t.merged.parts name := by
  rw [merged_op h, parts_join]
  intro part hpart
  obtain ⟨t, _, hpart⟩ := List.mem_flatMap.mp hpart
  exact ((normal_merged t).parts h part hpart).2

/-- Trees with the same parts are merged to the same tree. -/
theorem merged_eq_of_parts {name : String} (h : isVariadic name = true) {s t : Tree}
    (hparts : s.merged.parts name = t.merged.parts name) : s.merged = t.merged := by
  rw [← (normal_merged s).join_parts h, hparts, (normal_merged t).join_parts h]

/-- Operands linked to a left one, one after another. -/
def linked (name : String) (left : Tree) (ts : List Tree) : Tree :=
  ts.foldl (fun left right => op name [left, right]) left

/-- The tree of a chain of operands that associates to the left. -/
def chained (name : String) : List Tree → Tree
  | [] => op name []
  | first :: rest => linked name first rest

theorem linked_append (name : String) (left : Tree) (ts us : List Tree) :
    linked name left (ts ++ us) = linked name (linked name left ts) us := by
  rw [linked, linked, linked, List.foldl_append]

theorem chained_append {name : String} {ts : List Tree} (hne : ts ≠ []) (us : List Tree) :
    chained name (ts ++ us) = linked name (chained name ts) us := by
  cases ts with
  | nil => exact absurd rfl hne
  | cons first rest => rw [List.cons_append, chained, chained, linked_append]

theorem parts_linked {name : String} (h : isVariadic name = true) (left : Tree) (ts : List Tree) :
    (linked name left ts).merged.parts name =
      left.merged.parts name ++ ts.flatMap fun t => t.merged.parts name := by
  induction ts generalizing left with
  | nil => simp [linked]
  | cons t rest ih =>
      have hlinked : linked name left (t :: rest) = linked name (op name [left, t]) rest := rfl
      rw [hlinked, ih, parts_merged_op h]
      simp

theorem parts_chained {name : String} (h : isVariadic name = true) (ts : List Tree) :
    (chained name ts).merged.parts name = ts.flatMap fun t => t.merged.parts name := by
  cases ts with
  | nil => exact parts_merged_op h []
  | cons first rest => rw [chained, parts_linked h, List.flatMap_cons]

end Tree

end QueryCompiler
