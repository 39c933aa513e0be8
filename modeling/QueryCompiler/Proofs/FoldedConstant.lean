import QueryCompiler.Proofs.BuildEnsures
import QueryCompiler.Proofs.ConstantText
import QueryCompiler.Proofs.ExprAlike
import QueryCompiler.Proofs.QueryFold

/-!
# The constant that an expression is folded to

Conjunctions and disjunctions are folded by the texts of their operands. Which operand has the text
of a constant can be told from the expressions alone, before anything is written: the constant of an
operator depends on those of its operands and, for arithmetic with a single operand, on whether the
context calls for parentheses.
-/
namespace QueryCompiler

variable {ν μ : Type}

/-- The truth value that a text is the constant of. -/
def textConstant (s : String) : Option Bool :=
  if s = "TRUE" then some true else if s = "FALSE" then some false else none

theorem textConstant_of_not_constant {s : String} (h : ¬ IsConstant s) : textConstant s = none := by
  simp only [IsConstant, not_or] at h
  simp [textConstant, h]

theorem textConstant_boolWord (v : Bool) : textConstant (boolWord v) = some v := by
  cases v <;> rfl

theorem eq_boolWord_iff {s : String} {v : Bool} : s = boolWord v ↔ textConstant s = some v := by
  refine ⟨fun h => h ▸ textConstant_boolWord v, fun h => ?_⟩
  unfold textConstant at h
  split at h
  · cases h
    assumption
  · split at h
    · cases h
      assumption
    · cases h

/-- What folding knows of an operand: whether it never needs parentheses, and the constant that it
is in each context. -/
structure Folding where
  atomic : Bool
  constant : Nat → Option Bool

/-- An operand that is the same in every context. -/
def Folding.leaf (constant : Option Bool) : Folding := ⟨true, fun _ => constant⟩

def Value.constant : Value → Option Bool
  | .bool v => some v
  | _ => none

namespace Operator

/-- The value of an operand that decides a conjunction or disjunction as a whole. -/
def decider? (op : Operator) : Option Bool :=
  if op.name = "AND" then some false else if op.name = "OR" then some true else none

/-- Joining operands yields the decider if it is among them, and its negation if they are nothing
else. -/
def joined (decider : Bool) (constants : List (Option Bool)) : Option Bool :=
  if some decider ∈ constants then some decider
  else if constants.all (· == some !decider) then some !decider
  else none

/-- The constant that an operator is folded to. -/
def constant (op : Operator) (context : Nat) (operands : List Folding) : Option Bool :=
  match op.arity, operands with
  | .nullary, [] => textConstant op.name
  | .inList, [_] => some (op.name == "NOT IN")
  | .variadic, operands =>
    match op.decider? with
    | some decider => joined decider (operands.map (·.constant op.rank))
    | none =>
      match operands with
      | [operand] =>
        if operand.atomic = true ∨ op.rank ≤ context then operand.constant op.rank else none
      | _ => none
  | _, _ => none

end Operator

namespace Expr

mutual
def folding : Expr ν → Folding
  | literal v => .leaf v.constant
  | field _ _ => .leaf none
  | param _ => .leaf none
  | op name operands =>
    ⟨operands.isEmpty, fun context =>
      (Operator.find? name).bind fun op => op.constant context (foldings operands)⟩
  | call _ _ => .leaf none
  | subquery _ => .leaf none
  | shorthand pairs => ⟨false, fun _ => if pairs.isEmpty then some true else none⟩

def foldings : List (Expr ν) → List Folding
  | [] => []
  | e :: rest => folding e :: foldings rest
end

theorem foldings_eq_map (es : List (Expr ν)) : foldings es = es.map folding := by
  induction es with
  | nil => rfl
  | cons e rest ih => rw [foldings, ih, List.map_cons]

/-- The constant that an expression is written as in a context. -/
def constantIn (context : Nat) (e : Expr ν) : Option Bool := e.folding.constant context

/-- Nested queries do not matter. -/
theorem folding_map (g : ν → μ) (e : Expr ν) : (e.map g).folding = e.folding := by
  induction e using Expr.induct with
  | literal | field | param | call | subquery => rfl
  | op name operands ih =>
      have hoperands : (operands.map (map g)).map folding = operands.map folding := by
        rw [List.map_map]
        exact List.map_congr_left ih
      simp only [map, maps_eq_map, folding, foldings_eq_map, hoperands, List.isEmpty_map]
  | shorthand pairs => simp [map, folding]

end Expr

/-! Operands that are compiled. -/

/-- The items up to the first that has a property, which is the last of them. -/
def upTo {ι : Type} (p : ι → Bool) : List ι → List ι
  | [] => []
  | x :: rest => if p x then [x] else x :: upTo p rest

namespace Expr

/-- An operand that decides a conjunction or disjunction as a whole. -/
def decides (name : String) (e : Expr ν) : Bool :=
  (Operator.find? name).any fun op => op.decider?.any fun v => e.constantIn op.rank == some v

/-- A test for membership in a list without items, of which only the subject is left. -/
def isEmptyMembership (name : String) (operands : List (Expr ν)) : Bool :=
  operands.length == 1 && (Operator.find? name).any (·.arity == .inList)

/-- The operands that are compiled: not the subject of an empty list, and none behind an operand
that decides the whole. -/
def compiledOperands (name : String) (operands : List (Expr ν)) : List (Expr ν) :=
  if isEmptyMembership name operands then [] else upTo (decides name) operands

end Expr

theorem upTo_map {ι κ : Type} (p : κ → Bool) (f : ι → κ) (xs : List ι) :
    upTo p (xs.map f) = (upTo (fun x => p (f x)) xs).map f := by
  induction xs with
  | nil => rfl
  | cons x rest ih =>
      rw [List.map_cons, upTo, upTo, ih]
      split <;> rfl

theorem mem_of_mem_upTo {ι : Type} {p : ι → Bool} {xs : List ι} {x : ι} (h : x ∈ upTo p xs) :
    x ∈ xs := by
  induction xs with
  | nil => exact h
  | cons y rest ih =>
      rw [upTo] at h
      split at h
      · exact List.mem_cons.mpr (.inl (List.mem_singleton.mp h))
      · exact List.mem_cons.mpr ((List.mem_cons.mp h).imp_right ih)

/-- If no item has the property there is nothing to stop at. -/
theorem upTo_of_none {ι : Type} {p : ι → Bool} {xs : List ι} (h : ∀ x ∈ xs, p x = false) :
    upTo p xs = xs := by
  induction xs with
  | nil => rfl
  | cons x rest ih =>
      obtain ⟨hx, hrest⟩ := List.forall_mem_cons.mp h
      rw [upTo, hx, if_neg Bool.false_ne_true, ih hrest]

namespace Expr

theorem decides_map (g : ν → μ) (name : String) (e : Expr ν) :
    (e.map g).decides name = e.decides name := by
  simp only [decides, constantIn, folding_map]

theorem compiledOperands_map (g : ν → μ) (name : String) (operands : List (Expr ν)) :
    compiledOperands name (operands.map (map g)) =
      (compiledOperands name operands).map (map g) := by
  have hdecides : (fun e : Expr ν => (e.map g).decides name) = decides name :=
    funext (decides_map g name)
  rw [compiledOperands, compiledOperands, isEmptyMembership, List.length_map, upTo_map, hdecides,
    apply_ite (List.map (map g)), List.map_nil]
  rfl

end Expr

/-! Texts. -/

/-- A compilation whose text is that constant, or none. -/
abbrev Build.HasConstant (constant : Option Bool) (x : Build Sql) : Prop :=
  x.Ensures (fun _ _ => True) fun sql => textConstant sql.render = constant

/-- A fragment that is folded as told. -/
structure Fragment.FoldsAs (f : Fragment) (folding : Folding) : Prop where
  atomic : f.atomic = folding.atomic
  constant : ∀ context, (f.sql context).HasConstant (folding.constant context)

namespace Build.HasConstant

variable {α : Type} {constant : Option Bool}

/-- Whatever comes before, the text at the end decides. -/
theorem after {x : Build α} {next : α → Build Sql} (h : ∀ a, (next a).HasConstant constant) :
    (x >>= next).HasConstant constant :=
  (Ensures.trivial x).bind fun a _ => h a

theorem text {sql : Sql} (h : ¬ IsConstant sql.render) :
    (pure sql : Build Sql).HasConstant none :=
  .pure (textConstant_of_not_constant h)

theorem word (v : Bool) : (pure (Sql.ofString (boolWord v)) : Build Sql).HasConstant (some v) := by
  refine .pure ?_
  rw [Sql.render_ofString]
  exact textConstant_boolWord v

end Build.HasConstant

open Build (HasConstant)

theorem parenthesized_constant (build : Build Sql) : (parenthesized build).HasConstant none :=
  .after fun sql => .text (parenthesized_not_constant sql)

theorem liftPlaceholder_constant (v : Value) : (liftPlaceholder v).HasConstant none :=
  .after fun _ => .text (mark_not_constant _)

theorem stringSql_constant (s : String) : (stringSql s).HasConstant none := by
  unfold stringSql
  split
  · exact .text (mark_not_constant _)
  · split
    · rename_i hstart
      split
      · refine .text ?_
        rw [Sql.render_ofString]
        rintro (rfl | rfl) <;> exact absurd hstart (by decide)
      · exact True.intro
    · exact liftPlaceholder_constant _

theorem literalSql_constant (v : Value) : (literalSql v).HasConstant v.constant := by
  cases v with
  | null => exact .text (by decide)
  | bool v => exact .word v
  | int n =>
      refine .text ?_
      rw [Sql.render_ofString]
      exact int_not_constant n
  | float x =>
      rw [literalSql]
      split
      · refine .text ?_
        rw [Sql.render_ofString]
        exact float_not_constant x
      · exact True.intro
  | text s => exact stringSql_constant s

theorem fieldSql_constant (b : Builtin) (scope : Scope) (name : String) :
    (fieldSql b.dialect scope name).HasConstant none := by
  refine .after fun field => .text ?_
  rw [Sql.render_ofString]
  exact fieldName_not_constant b scope field.name

theorem paramSql_constant (name : String) : (paramSql name).HasConstant none := by
  unfold paramSql
  split
  · exact .text (mark_not_constant _)
  · exact True.intro

theorem callSql_constant (name : String) (args : List Fragment) :
    (callSql name args).HasConstant none := by
  unfold callSql
  split
  · exact True.intro
  · exact .after fun args => .text (not_constant_of_mem (c := '(') (by simp) (by decide))

section Operators

variable {fs : List Fragment} {gs : List Folding} {op : Operator}

/-- Conjunctions and disjunctions have a decider, arithmetic has none. -/
theorem Operator.absorbing_eq (op : Operator) : absorbing? op.name = op.decider?.map boolWord := by
  unfold absorbing? decider?
  split <;> simp_all [boolWord]

/-- A text decides the whole if it is the constant of the decider. -/
theorem Expr.absorbing_iff_decides {name s : String} {op : Operator} {e : Expr ν}
    (hfind : Operator.find? name = some op) (hs : textConstant s = e.constantIn op.rank) :
    absorbing? op.name = some s ↔ e.decides name = true := by
  rw [op.absorbing_eq, decides, hfind, Option.any_some, ← hs]
  cases op.decider? with
  | none => simp
  | some v => simp [eq_comm (b := s), eq_boolWord_iff]

theorem Operator.neutral_eq (op : Operator) :
    neutral? op.name = op.decider?.map fun v => boolWord !v := by
  unfold neutral? decider?
  split <;> simp_all [boolWord]

/-- The operands that remain: none of them is a constant, and there are none if all were dropped. -/
def Remaining (decider : Bool) (constants : List (Option Bool)) :
    Option (List (Sql × Bool)) → Prop
  | none => some decider ∈ constants
  | some parts => some decider ∉ constants ∧
    (∀ part ∈ parts, textConstant part.1.render = none) ∧
    (parts = [] ↔ ∀ c ∈ constants, c = some !decider)

theorem keptOperands_remaining {decider : Bool} (hop : op.decider? = some decider)
    (h : List.Forall₂ Fragment.FoldsAs fs gs) : (keptOperands op fs).Ensures (fun _ _ => True)
      (Remaining decider (gs.map (·.constant op.rank))) := by
  induction h with
  | nil => exact .pure (by simp [Remaining])
  | @cons f g fs gs hf _ ih =>
      rw [keptOperands, op.absorbing_eq, op.neutral_eq, hop, List.map_cons]
      refine (hf.constant op.rank).bind fun sql hsql => ?_
      simp only [Option.map_some, Option.some.injEq, eq_comm (b := sql.render), eq_boolWord_iff,
        hsql]
      split
      · rename_i hdecides
        rw [hdecides]
        exact .pure List.mem_cons_self
      · rename_i hdecides
        refine ih.bind fun kept hkept => .pure ?_
        cases kept with
        | none =>
            rw [Option.map_none, ite_self]
            exact List.mem_cons_of_mem _ hkept
        | some parts =>
            obtain ⟨hrest, hparts, hempty⟩ := hkept
            split
            · rename_i hneutral
              refine ⟨?_, hparts, ?_⟩
              · simp [hrest, Ne.symm hdecides]
              · rw [hempty, List.forall_mem_cons]
                exact ⟨fun hall => ⟨hneutral, hall⟩, And.right⟩
            · rename_i hneutral
              have hnone : g.constant op.rank = none := by
                cases hconstant : g.constant op.rank with
                | none => rfl
                | some v =>
                    rw [hconstant] at hdecides hneutral
                    cases v <;> cases decider <;> simp_all
              refine ⟨?_, ?_, ?_⟩
              · simp [hrest, hnone]
              · rw [List.forall_mem_cons, hsql]
                exact ⟨hnone, hparts⟩
              · simp [hnone]

theorem joinOperands_empty (op : Operator) (name : String) (context : Nat) {decider : Bool}
    (hop : op.decider? = some decider) :
    joinOperands op name context [] = Sql.ofString (boolWord !decider) := by
  have hidentity : Operator.identity? op.name = some (boolWord !decider) := by
    unfold Operator.decider? at hop
    split at hop
    · cases hop
      simp_all [Operator.identity?, boolWord]
    · split at hop
      · cases hop
        simp_all [Operator.identity?, boolWord]
      · cases hop
  rw [joinOperands, hidentity, Option.getD_some]

/-- Two operands or more are no constant. -/
theorem joinOperands_several (op : Operator) (name : String) (context : Nat)
    (part next : Sql × Bool) (rest : List (Sql × Bool)) :
    ¬ IsConstant (joinOperands op name context (part :: next :: rest)).render :=
  wrap_not_constant (intercalate_not_constant _ (by simp) _ _ _) _ _

/-- A single operand passes its text on, unless it is put in parentheses. -/
theorem joinOperands_single (op : Operator) (name : String) (context : Nat) (sql : Sql)
    (atomic : Bool) : textConstant (joinOperands op name context [(sql, atomic)]).render =
      if atomic = true ∨ op.rank ≤ context then textConstant sql.render else none := by
  cases hconstant : textConstant sql.render with
  | none =>
      have hsql : ¬ IsConstant sql.render := by
        rintro (h | h) <;> simp [h, textConstant] at hconstant
      rw [ite_self]
      refine textConstant_of_not_constant ?_
      rw [joinOperands]
      split
      · exact hsql
      · exact wrap_not_constant hsql _ _
  | some v =>
      have henclosed : Text.isEnclosed sql.render = false := by
        rw [eq_boolWord_iff.mpr hconstant]
        cases v <;> decide
      rw [joinOperands, henclosed, Bool.or_false]
      cases atomic with
      | true => simp [hconstant]
      | false =>
          by_cases htight : context < op.rank
          · simp only [Operator.wrap, htight, if_true, Bool.false_eq_true, if_false, false_or]
            rw [if_neg (Nat.not_le.mpr htight)]
            exact textConstant_of_not_constant (parenthesized_not_constant sql)
          · simp [Operator.wrap, htight, hconstant, Nat.not_lt.mp htight]

/-- Without a decider every operand remains. -/
theorem keptOperands_all (hop : op.decider? = none) (h : List.Forall₂ Fragment.FoldsAs fs gs) :
    (keptOperands op fs).Ensures (fun _ _ => True) fun kept => ∃ parts, kept = some parts ∧
      List.Forall₂ (fun part g => part.2 = g.atomic ∧
        textConstant part.1.render = g.constant op.rank) parts gs := by
  induction h with
  | nil => exact .pure ⟨[], rfl, .nil⟩
  | cons hf _ ih =>
      rw [keptOperands, op.absorbing_eq, op.neutral_eq, hop]
      refine (hf.constant op.rank).bind fun sql hsql => ?_
      simp only [Option.map_none, reduceCtorEq, if_false]
      refine ih.bind ?_
      rintro _ ⟨parts, rfl, hparts⟩
      exact .pure ⟨_, rfl, .cons ⟨hf.atomic, hsql⟩ hparts⟩

theorem identity_of_arithmetic : ∀ op ∈ Operator.all, op.arity = .variadic → op.decider? = none →
    ¬ IsConstant ((Operator.identity? op.name).getD "NULL") := by
  decide

theorem variadicSql_constant (d : Dialect) (hop : op ∈ Operator.all) (harity : op.arity = .variadic)
    (h : List.Forall₂ Fragment.FoldsAs fs gs) (context : Nat) :
    (variadicSql d op fs context).HasConstant (op.constant context gs) := by
  refine .after fun name => ?_
  cases hdecider : op.decider? with
  | some decider =>
      simp only [Operator.constant, harity, hdecider]
      refine (keptOperands_remaining hdecider h).bind fun kept hkept => ?_
      cases kept with
      | none =>
          have habsorbing : absorbing? op.name = some (boolWord decider) := by
            rw [op.absorbing_eq, hdecider, Option.map_some]
          have hmem : some decider ∈ gs.map (·.constant op.rank) := hkept
          rw [habsorbing, Option.getD_some, Operator.joined, if_pos hmem]
          exact HasConstant.word decider
      | some parts =>
          obtain ⟨hdecides, hparts, hempty⟩ := hkept
          have hall : (gs.map (·.constant op.rank)).all (· == some !decider) = true ↔
              ∀ c ∈ gs.map (·.constant op.rank), c = some !decider := by
            simp only [List.all_eq_true, beq_iff_eq]
          rw [Operator.joined, if_neg hdecides]
          match parts with
          | [] =>
              rw [if_pos (hall.mpr (hempty.mp rfl))]
              refine .pure ?_
              rw [joinOperands_empty op name context hdecider, Sql.render_ofString]
              exact textConstant_boolWord _
          | [(sql, atomic)] =>
              rw [if_neg fun h => absurd (hempty.mpr (hall.mp h)) (by simp)]
              refine .pure ?_
              rw [joinOperands_single, hparts _ List.mem_cons_self, ite_self]
          | part :: next :: rest =>
              rw [if_neg fun h => absurd (hempty.mpr (hall.mp h)) (by simp)]
              exact HasConstant.text (joinOperands_several op name context part next rest)
  | none =>
      refine (keptOperands_all hdecider h).bind ?_
      rintro _ ⟨parts, rfl, hparts⟩
      refine .pure ?_
      simp only [Operator.constant, harity, hdecider]
      cases hparts with
      | nil =>
          refine textConstant_of_not_constant ?_
          rw [joinOperands, Sql.render_ofString]
          exact identity_of_arithmetic op hop harity hdecider
      | @cons part g parts gs hpart hrest =>
          cases hrest with
          | nil => rw [joinOperands_single, hpart.1, hpart.2]
          | cons => exact textConstant_of_not_constant (joinOperands_several op name context _ _ _)

theorem inListSql_constant (d : Dialect) {f : Fragment} {g : Folding}
    (harity : op.arity = .inList) (h : List.Forall₂ Fragment.FoldsAs fs gs) (context : Nat) :
    (inListSql d op f fs context).HasConstant (op.constant context (g :: gs)) := by
  refine .after fun name => ?_
  cases h with
  | nil =>
      simp only [Operator.constant, harity]
      exact .word _
  | cons =>
      simp only [Operator.constant, harity]
      exact .after fun left => .after fun right =>
        .text (wrap_not_constant (between_not_constant _ _ _) _ _)

theorem vendorSql_constant (b : Builtin) (op : Operator) (shown : String) (fs : List Fragment)
    (context : Nat) : (vendorSql b.dialect op shown fs context).HasConstant none := by
  refine .after fun operands => ?_
  split
  · exact True.intro
  · exact True.intro
  · exact .text (wrap_not_constant (vendorOperator_not_constant b ‹_›) _ _)

/-- Only the constants themselves are spelled so. -/
theorem textConstant_spelling (b : Builtin) {name spelled : String}
    (h : b.dialect.spelling name = .ok spelled) : textConstant spelled = textConstant name := by
  unfold Dialect.spelling at h
  split at h
  · rename_i spelled' hspelled
    cases h
    cases b with
    | postgres =>
        simp only [Builtin.dialect, Dialect.postgres] at hspelled
        split at hspelled
        · rename_i hname
          cases hspelled
          rw [hname]
          decide
        · cases hspelled
          rfl
    | mysql =>
        simp only [Builtin.dialect, Dialect.mysql, Option.ite_none_left_eq_some] at hspelled
        cases hspelled.2
        rfl
    | sqlite =>
        cases hspelled
        rfl
  · cases h

theorem operatorSql_constant (b : Builtin) (hop : op ∈ Operator.all) (shown : String)
    (h : List.Forall₂ Fragment.FoldsAs fs gs) (context : Nat) :
    (operatorSql b.dialect op shown fs context).HasConstant (op.constant context gs) := by
  unfold operatorSql
  split
  · rename_i harity
    cases h
    simp only [Operator.constant, harity]
    refine (Build.Ensures.ofExcept fun name hname => hname).bind fun name hname => .pure ?_
    rw [Sql.render_ofString]
    exact textConstant_spelling b hname
  · rename_i harity
    simp only [Operator.constant, harity]
    exact .after fun name => .after fun sql =>
      .text (wrap_not_constant (not_constant_of_mem (c := ' ') (by simp) (by decide)) _ _)
  · rename_i harity
    simp only [Operator.constant, harity]
    exact .after fun name => .after fun sql =>
      .text (wrap_not_constant (not_constant_of_mem (c := ' ') (by simp) (by decide)) _ _)
  · rename_i harity
    simp only [Operator.constant, harity]
    exact .after fun name => .after fun left => .after fun right =>
      .text (wrap_not_constant (between_not_constant _ _ _) _ _)
  · rename_i harity
    simp only [Operator.constant, harity]
    exact .after fun name => .after fun subject => .after fun low => .after fun high =>
      .text (wrap_not_constant (not_constant_of_mem (c := ' ') (by simp) (by decide)) _ _)
  · exact variadicSql_constant b.dialect hop ‹_› h context
  · cases h with
    | cons _ hrest => exact inListSql_constant b.dialect ‹_› hrest context
  · rename_i harity
    simp only [Operator.constant, harity]
    exact vendorSql_constant b op shown _ context
  · exact True.intro

theorem applicationSql_constant (b : Builtin) (name shown : String)
    (h : List.Forall₂ Fragment.FoldsAs fs gs) (context : Nat) :
    (applicationSql b.dialect name shown fs context).HasConstant
      ((Operator.find? name).bind fun op => op.constant context gs) := by
  unfold applicationSql
  split
  · exact True.intro
  · rename_i op hfind
    rw [hfind, Option.bind_some]
    exact operatorSql_constant b (Operator.find?_eq_some hfind).1 shown h context

end Operators

/-! Expressions. -/

/-- A comparison is no constant, but for the test for membership in an empty list. -/
theorem constant_of_comparison {name : String} (hname : name ∈ ["IS NULL", "=", "IN"])
    {gs : List Folding} (hgs : name = "IN" → gs.length ≠ 1) (context : Nat) :
    ((Operator.find? name).bind fun op => op.constant context gs) = none := by
  have harities : ∀ name ∈ ["IS NULL", "=", "IN"], ∀ op ∈ Operator.find? name,
      op.arity = .unaryPostfix ∨ op.arity = .binary ∨ op.arity = .inList ∧ name = "IN" := by
    decide +kernel
  cases hfind : Operator.find? name with
  | none => rfl
  | some op =>
      rw [Option.bind_some, Operator.constant.eq_def]
      obtain harity | harity | ⟨harity, hin⟩ := harities name hname op hfind
      · simp only [harity]
      · simp only [harity]
      · simp only [harity]
        split
        · cases ‹Arity.inList = .nullary›
        · exact absurd rfl (hgs hin)
        · cases ‹Arity.inList = .variadic›
        · rfl

/-- What compares is folded like an operator that is no constant. -/
theorem application_foldsAs (b : Builtin) {name : String} (hname : name ∈ ["IS NULL", "=", "IN"])
    (shown : String) {f : Fragment} {g : Folding} {fs : List Fragment} {gs : List Folding}
    (h : List.Forall₂ Fragment.FoldsAs (f :: fs) (g :: gs)) (hgs : name = "IN" → gs ≠ []) :
    (application b.dialect name shown (f :: fs)).FoldsAs ⟨false, fun _ => none⟩ := by
  refine ⟨rfl, fun context => ?_⟩
  have happlication := applicationSql_constant b name shown h context
  rwa [constant_of_comparison hname] at happlication
  intro hin
  simpa using hgs hin

theorem leaf_foldsAs {x : Build Sql} {constant : Option Bool} (h : x.HasConstant constant) :
    (Fragment.leaf x).FoldsAs (.leaf constant) :=
  ⟨rfl, fun _ => h⟩

theorem shorthandCondition_foldsAs (b : Builtin) (scope : Scope) (name : String)
    (v : FieldValue (Build Sql)) :
    (shorthandCondition b.dialect scope name v).Ensures (fun _ _ => True)
      (Fragment.FoldsAs · ⟨false, fun _ => none⟩) := by
  have htarget : (shorthandCondition.target b.dialect scope name).FoldsAs (.leaf none) :=
    leaf_foldsAs (fieldSql_constant b scope name)
  have hnull : (application b.dialect "IS NULL" name
      [shorthandCondition.target b.dialect scope name]).FoldsAs ⟨false, fun _ => none⟩ :=
    application_foldsAs b (by decide) name (.cons htarget .nil) (by decide)
  have hplaceholder : ∀ v, (liftPlaceholder v).Ensures (fun _ _ => True) fun sql =>
      (Fragment.leaf (pure sql)).FoldsAs (.leaf none) :=
    fun v => (liftPlaceholder_constant v).mono fun sql hsql => leaf_foldsAs (.pure hsql)
  match v with
  | .null | .value .null | .list [] => exact .pure hnull
  | .value (.bool _) | .value (.int _) | .value (.float _) | .value (.text _) =>
      refine (hplaceholder _).bind fun sql hsql => .pure ?_
      exact application_foldsAs b (by decide) name (.cons htarget (.cons hsql .nil)) (by decide)
  | .list (item :: items) =>
      refine (Build.Ensures.mapM_forall₂ fun v _ => hplaceholder v).bind fun sqls hsqls => .pure ?_
      have hfolded : List.Forall₂ Fragment.FoldsAs (sqls.map fun sql => .leaf (pure sql))
          ((item :: items).map fun _ => .leaf none) := by
        rw [List.forall₂_map_left_iff, List.forall₂_map_right_iff]
        exact hsqls.flip
      exact application_foldsAs b (by decide) name (.cons htarget hfolded) (by simp)
  | .subquery build =>
      have hnested : (⟨true, true, fun _ => parenthesized build⟩ : Fragment).FoldsAs (.leaf none) :=
        ⟨rfl, fun _ => parenthesized_constant build⟩
      exact .pure (application_foldsAs b (by decide) name (.cons htarget (.cons hnested .nil))
        (by simp))

/-- Conditions of which none is a constant are joined to one only if there are none. -/
theorem joined_of_none {α : Type} (decider : Bool) (items : List α) :
    Operator.joined decider (items.map fun _ => none) =
      if items.isEmpty then some !decider else none := by
  cases items <;> simp [Operator.joined]

/-- Every expression is written as the constant that it is folded to. -/
theorem Expr.fragment_foldsAs (b : Builtin) (scope : Scope) (e : Expr (Build Sql)) :
    (e.fragment b.dialect scope).FoldsAs e.folding := by
  induction e using Expr.induct with
  | literal v => exact leaf_foldsAs (literalSql_constant v)
  | field name label => exact leaf_foldsAs (fieldSql_constant b scope name)
  | param name => exact leaf_foldsAs (paramSql_constant name)
  | call name args => exact leaf_foldsAs (callSql_constant name _)
  | subquery build => exact ⟨rfl, fun _ => parenthesized_constant build⟩
  | op name operands ih =>
      have hoperands : List.Forall₂ Fragment.FoldsAs (fragments b.dialect scope operands)
          (foldings operands) := by
        rw [fragments_eq_map, foldings_eq_map, List.forall₂_map_left_iff,
          List.forall₂_map_right_iff, List.forall₂_same]
        exact ih
      refine ⟨?_, fun context => applicationSql_constant b name _ hoperands context⟩
      change (fragments b.dialect scope operands).isEmpty = _
      rw [fragments_eq_map, List.isEmpty_map, folding]
  | shorthand pairs =>
      refine ⟨rfl, fun context => ?_⟩
      refine (Build.Ensures.mapM_forall₂ fun pair _ =>
        shorthandCondition_foldsAs b scope pair.1 pair.2).bind fun conditions hconditions => ?_
      have hfolded : List.Forall₂ Fragment.FoldsAs conditions
          (pairs.map fun _ => ⟨false, fun _ => none⟩) := by
        rw [List.forall₂_map_right_iff]
        exact hconditions.flip
      have hand : ((Operator.find? "AND").bind fun op => op.constant context
          (pairs.map fun _ => ⟨false, fun _ => none⟩)) =
            if pairs.isEmpty then some true else none := by
        obtain ⟨op, hfind, harity, hdecider⟩ : ∃ op, Operator.find? "AND" = some op ∧
            op.arity = .variadic ∧ op.decider? = some false :=
          ⟨⟨"AND", .variadic, 41⟩, by decide +kernel⟩
        simp only [hfind, Option.bind_some, Operator.constant, harity, hdecider, List.map_map,
          Function.comp_def]
        exact joined_of_none false pairs
      have happlication := applicationSql_constant b "AND" "" hfolded context
      rwa [hand] at happlication

end QueryCompiler
