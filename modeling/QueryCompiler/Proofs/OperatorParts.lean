import QueryCompiler.Proofs.BuildParts
import QueryCompiler.Proofs.FoldedConstant

/-!
# The parts of an operator

An operator keeps the texts of its operands, unless one of these decides it: a conjunction or
disjunction that is decided is compiled up to the operand that decides it, and the texts are given
up.
-/
namespace QueryCompiler

open Build (LiftsAs Assembles)

/-- A fragment that lifts those values in every context. -/
def Fragment.LiftsAs (ls : List LiftedValue) (f : Fragment) : Prop :=
  ∀ context, (f.sql context).LiftsAs Sql.shown ls

/-- A text that is put together of the texts of fragments, each written in some context. -/
def Fragment.Assemble (fs : List Fragment) (x : Build Sql) : Prop :=
  ∃ parts, List.Forall₂ (fun f part => ∃ context, part = f.sql context) fs parts ∧
    Assembles Sql.shown ∅ parts x

namespace Fragment.Assemble

variable {fs : List Fragment} {x : Build Sql}

theorem liftsAs (h : Assemble fs x) {lists : List (List LiftedValue)}
    (hfs : List.Forall₂ (fun f ls => f.LiftsAs ls) fs lists) :
    x.LiftsAs Sql.shown lists.flatten := by
  obtain ⟨parts, hparts, hx⟩ := h
  refine hx.liftsAs lists ?_
  clear hx
  induction hparts generalizing lists with
  | nil =>
      cases hfs
      exact .nil
  | cons hpart _ ih =>
      cases hfs with
      | cons hf hrest =>
          obtain ⟨context, rfl⟩ := hpart
          exact .cons (hf context) (ih hrest)

theorem keeps (h : Assemble fs x) {f : Fragment} (hf : f ∈ fs) {name : String}
    (hname : ∀ context text, (f.sql context).Answers text → name ∈ text.shown) {sql : Sql}
    (hsql : x.Answers sql) : name ∈ sql.shown := by
  obtain ⟨parts, hparts, hx⟩ := h
  obtain ⟨part, hpart, context, rfl⟩ : ∃ part ∈ parts, ∃ context, part = f.sql context := by
    clear hx
    induction hparts with
    | nil => exact absurd hf List.not_mem_nil
    | cons hpart _ ih =>
        obtain rfl | hrest := List.mem_cons.mp hf
        · exact ⟨_, List.mem_cons_self, hpart⟩
        · obtain ⟨part, hmem, hpart⟩ := ih hrest
          exact ⟨part, List.mem_cons_of_mem _ hmem, hpart⟩
  exact hx.keeps hpart (hname context) hsql

end Fragment.Assemble

section Operators

variable {fs : List Fragment}

theorem Build.Assembles.texts {ι : Type} (f : ι → Build Sql) (xs : List ι) :
    Assembles Sql.shownInAny ∅ (xs.map f) (xs.mapM f) := by
  rw [← List.flatMap_singleton' (xs.map f), List.flatMap_map]
  exact .mapM fun x _ => .single (f x)

/-- The same context for all fragments. -/
theorem Fragment.forall₂_sql (context : Nat) : List.Forall₂
    (fun (f : Fragment) part => ∃ context, part = f.sql context) fs (fs.map (·.sql context)) :=
  List.forall₂_map_right_iff.mpr (List.forall₂_same.mpr fun _ _ => ⟨context, rfl⟩)

theorem Fragment.alone_assembles : Assembles Sql.shownInAny ∅ (fs.map (·.sql Operator.loosest))
    (alone fs) := .texts _ fs

/-- The texts that remain of the operands. -/
def keptShown : Option (List (Sql × Bool)) → Set String
  | none => Set.univ
  | some parts => Sql.shownInAny (parts.map (·.1))

/-- No operand decides a conjunction or disjunction. -/
def Undecided (op : Operator) (fs : List Fragment) : Prop :=
  ∀ f ∈ fs, ∀ text, (f.sql op.rank).Answers text → absorbing? op.name ≠ some text.render

theorem keptOperands_isSome {op : Operator} (h : Undecided op fs)
    {kept : Option (List (Sql × Bool))} (hkept : (keptOperands op fs).Answers kept) :
    kept.isSome := by
  induction fs generalizing kept with
  | nil =>
      obtain rfl := hkept.pure
      rfl
  | cons f rest ih =>
      obtain ⟨hf, hrest⟩ := List.forall_mem_cons.mp h
      obtain ⟨text, htext, hkept⟩ := hkept.bind
      rw [if_neg (hf text htext)] at hkept
      obtain ⟨others, hothers, hkept⟩ := hkept.bind
      obtain rfl := hkept.pure
      have hsome := ih hrest hothers
      split
      · exact hsome
      · rwa [Option.isSome_map]

/-- Without a decider what is dropped are constants, which show nothing. -/
theorem keptOperands_assembles {op : Operator} (h : Undecided op fs) :
    Assembles keptShown ∅ (fs.map (·.sql op.rank)) (keptOperands op fs) := by
  induction fs with
  | nil => exact .done (Set.empty_subset _)
  | cons f rest ih =>
      obtain ⟨hf, hrest⟩ := List.forall_mem_cons.mp h
      rw [keptOperands, List.map_cons]
      refine .part fun text htext => ?_
      rw [if_neg (hf text htext), ← List.append_nil (rest.map _)]
      refine (ih hrest).bind fun kept _ => .done ?_
      rw [Set.empty_union]
      cases kept with
      | none => split <;> exact Set.subset_univ _
      | some parts =>
          split
          · rename_i hneutral
            rw [Sql.shown_of_constant (neutral?_constant hneutral), Set.empty_union]
          · exact (Sql.shownInAny_cons text _).ge

theorem shown_joinOperands (op : Operator) (name : String) (context : Nat)
    (parts : List (Sql × Bool)) :
    Sql.shownInAny (parts.map (·.1)) ⊆ (joinOperands op name context parts).shown := by
  rintro lifted ⟨sql, hsql, hlifted⟩
  match parts with
  | [] => exact absurd hsql List.not_mem_nil
  | [(single, atomic)] =>
      obtain rfl := List.mem_singleton.mp hsql
      rw [joinOperands]
      split
      · exact hlifted
      · exact Sql.shown_wrap _ _ hlifted
  | first :: second :: rest =>
      refine Sql.shown_wrap _ _ (Sql.shown_intercalate (by simp) ?_ ?_ hsql hlifted)
      · simp [Breaks]
        decide
      · rw [String.toList_append, List.getLast?_append_of_ne_nil _ (by decide)]
        decide

theorem variadicSql_assembles (d : Dialect) {op : Operator} (h : Undecided op fs) (context : Nat) :
    Fragment.Assemble fs (variadicSql d op fs context) := by
  refine ⟨_, Fragment.forall₂_sql op.rank, .known fun name _ => ?_⟩
  rw [← List.append_nil (fs.map _)]
  refine (keptOperands_assembles h).bind fun kept hkept => ?_
  obtain ⟨parts, rfl⟩ := Option.isSome_iff_exists.mp (keptOperands_isSome h hkept)
  refine .done ?_
  rw [Set.empty_union]
  exact shown_joinOperands op name context parts

/-- Texts in parentheses with commas between them. -/
theorem shown_list (sqls : List Sql) :
    Sql.shownInAny sqls ⊆ ("(" ++ Sql.intercalate ", " sqls ++ ")" : Sql).shown := by
  rintro name ⟨sql, hsql, hname⟩
  exact Sql.shown_parenthesized (Sql.shown_commas hsql hname)

theorem membersSql_assembles :
    Assembles Sql.shown ∅ (fs.map (·.sql Operator.loosest)) (membersSql fs) := by
  have hlist : ∀ fs : List Fragment, Assembles Sql.shown ∅ (fs.map (·.sql Operator.loosest))
      (Fragment.alone fs >>= fun sqls =>
        pure ("(" ++ Sql.intercalate ", " sqls ++ ")") : Build Sql) := by
    intro fs
    rw [← List.append_nil (fs.map _)]
    refine Fragment.alone_assembles.bind fun sqls _ => .done ?_
    rw [Set.empty_union]
    exact shown_list sqls
  match fs with
  | [] => exact hlist []
  | [f] =>
      refine .part fun text _ => .done ?_
      rw [Set.empty_union]
      split
      · exact subset_rfl
      · exact Sql.shown_parenthesized
  | first :: second :: rest => exact hlist _

theorem inListSql_assembles (d : Dialect) (op : Operator) (subject : Fragment) (hne : fs ≠ [])
    (context : Nat) : Fragment.Assemble (subject :: fs) (inListSql d op subject fs context) := by
  refine ⟨_, .cons ⟨Operator.leftContext op.rank, rfl⟩ (Fragment.forall₂_sql Operator.loosest),
    .known fun name _ => ?_⟩
  rw [if_neg (by simpa using hne)]
  refine .part fun left _ => ?_
  rw [← List.append_nil (fs.map _)]
  refine membersSql_assembles.bind fun right _ => .done ?_
  rw [Set.empty_union]
  exact (Sql.shown_between name).trans (Sql.shown_wrap _ _)

theorem vendorSql_assembles (b : Builtin) (op : Operator) (shown : String) (context : Nat) :
    Fragment.Assemble fs (vendorSql b.dialect op shown fs context) := by
  refine ⟨_, Fragment.forall₂_sql (Operator.leftContext op.rank), ?_⟩
  rw [← List.append_nil (fs.map _)]
  refine (Assembles.texts _ fs).bind fun operands _ => ?_
  rw [Set.empty_union]
  split
  · exact .fail
  · exact .fail
  · rename_i sql hsql
    refine .done ?_
    rintro name ⟨operand, hoperand, hname⟩
    refine Sql.shown_wrap _ _ ?_
    rw [b.markedVendorOperator_eq] at hsql
    unfold defaultVendorOperator at hsql
    split at hsql
    · exact Sql.shown_buildCase hoperand (Option.some.inj hsql) hname
    · split at hsql
      · exact Sql.shown_ilike b hoperand (Option.some.inj hsql) hname
      · cases hsql

theorem operatorSql_assembles (b : Builtin) {op : Operator} (hundecided : Undecided op fs)
    (hitems : op.arity = .inList → fs.length ≠ 1) (shown : String) (context : Nat) :
    Fragment.Assemble fs (operatorSql b.dialect op shown fs context) := by
  unfold operatorSql
  split
  · exact ⟨[], .nil, .known fun name _ => .done (Set.empty_subset _)⟩
  · refine ⟨_, .cons ⟨_, rfl⟩ .nil, .known fun name _ => .part fun sql _ => .done ?_⟩
    rw [Set.empty_union]
    exact (Sql.shown_behind (Sql.leads_word (by decide) (by decide))).trans (Sql.shown_wrap _ _)
  · refine ⟨_, .cons ⟨_, rfl⟩ .nil, .known fun name _ => .part fun sql _ => .done ?_⟩
    rw [Set.empty_union, Sql.append_assoc]
    exact (Sql.shown_append (Sql.breaks_text_append (by decide) (by decide))).trans
      (Sql.shown_wrap _ _)
  · refine ⟨_, .cons ⟨_, rfl⟩ (.cons ⟨_, rfl⟩ .nil), .known fun name _ =>
      .part fun left _ => .part fun right _ => .done ?_⟩
    rw [Set.empty_union]
    exact (Sql.shown_between name).trans (Sql.shown_wrap _ _)
  · refine ⟨_, .cons ⟨_, rfl⟩ (.cons ⟨_, rfl⟩ (.cons ⟨_, rfl⟩ .nil)), .known fun name _ =>
      .part fun subject _ => .part fun low _ => .part fun high _ => .done ?_⟩
    rw [Set.empty_union]
    refine subset_trans (Set.union_subset_union_left _ (Sql.shown_between name)) ?_
    exact (Sql.shown_joined (by decide) (by decide) (by decide)).trans (Sql.shown_wrap _ _)
  · exact variadicSql_assembles b.dialect hundecided context
  · rename_i subject items harity
    exact inListSql_assembles b.dialect op subject (by simpa using hitems harity) context
  · exact vendorSql_assembles b op shown context
  · exact ⟨_, Fragment.forall₂_sql 0, .fail⟩

end Operators

/-! A conjunction or disjunction that is decided is compiled up to the operand that decides it. -/

section Decided

variable {ι : Type} {op : Operator} {f : ι → Fragment} {stops : ι → Bool} {xs : List ι}

/-- Operands decide exactly where the compilation stops. -/
def DecidedBy (op : Operator) (f : ι → Fragment) (stops : ι → Bool) (xs : List ι) : Prop :=
  ∀ x ∈ xs, ∀ text, ((f x).sql op.rank).Answers text →
    (absorbing? op.name = some text.render ↔ stops x = true)

theorem keptOperands_upTo (h : DecidedBy op f stops xs) : Assembles (fun _ => Set.univ) ∅
    ((upTo stops xs).map fun x => (f x).sql op.rank) (keptOperands op (xs.map f)) := by
  induction xs with
  | nil => exact .done (Set.empty_subset _)
  | cons x rest ih =>
      obtain ⟨hx, hrest⟩ := List.forall_mem_cons.mp h
      rw [List.map_cons, keptOperands, upTo]
      by_cases hstops : stops x = true
      · rw [if_pos hstops]
        refine .part fun text htext => ?_
        rw [if_pos ((hx text htext).mpr hstops)]
        exact .done (Set.subset_univ _)
      · rw [if_neg hstops, List.map_cons]
        refine .part fun text htext => ?_
        rw [if_neg fun habsorbing => hstops ((hx text htext).mp habsorbing),
          ← List.append_nil ((upTo stops rest).map _)]
        exact (ih hrest).bind fun kept _ => .done (Set.subset_univ _)

theorem variadicSql_upTo (d : Dialect) (h : DecidedBy op f stops xs) (context : Nat) :
    Assembles (fun _ => Set.univ) ∅ ((upTo stops xs).map fun x => (f x).sql op.rank)
      (variadicSql d op (xs.map f) context) := by
  refine .known fun name _ => ?_
  rw [← List.append_nil (List.map _ _)]
  refine (keptOperands_upTo h).bind fun kept _ => ?_
  cases kept <;> exact .done (Set.subset_univ _)

end Decided

end QueryCompiler
