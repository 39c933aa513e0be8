import QueryCompiler.Proofs.FoldedConstant

/-!
# What is written as TRUE

Conjunctions and disjunctions are folded by the texts of their operands. An expression has the text
`TRUE` in no other way than through a constant, an empty conjunction, shorthand or list, and the
operators that pass such a text on.
-/
namespace QueryCompiler

variable {ν : Type}

/-- An expression whose text can be the constant. -/
inductive Expr.FoldsToTrue : Expr ν → Prop
  | literal : FoldsToTrue (.literal (.bool true))
  | keyword {name : String} (h : Operator.canonical name = "TRUE") : FoldsToTrue (.op name [])
  | empty : FoldsToTrue (.shorthand [])
  | notIn {name : String} {subject : Expr ν} (h : Operator.canonical name = "NOT IN") :
      FoldsToTrue (.op name [subject])
  | conj {name : String} {operands : List (Expr ν)} (h : Operator.canonical name = "AND")
      (hall : ∀ e ∈ operands, FoldsToTrue e) : FoldsToTrue (.op name operands)
  | disj {name : String} {operands : List (Expr ν)} {e : Expr ν}
      (h : Operator.canonical name = "OR") (he : e ∈ operands) (htrue : FoldsToTrue e) :
      FoldsToTrue (.op name operands)
  | single {name : String} {e : Expr ν} (h : Operator.canonical name ∈ ["*", "+", "||"])
      (htrue : FoldsToTrue e) : FoldsToTrue (.op name [e])

theorem Operator.variadic_names : ∀ op ∈ Operator.all, op.arity = .variadic →
    op.decider? = some false ∧ op.name = "AND" ∨ op.decider? = some true ∧ op.name = "OR" ∨
      op.decider? = none ∧ op.name ∈ ["*", "+", "||"] := by
  decide

/-- Joined operands are true if the decider is and they have it, or if they are nothing but its
negation. -/
theorem Operator.joined_eq_true {decider : Bool} {constants : List (Option Bool)}
    (h : joined decider constants = some true) :
    decider = true ∧ some true ∈ constants ∨ decider = false ∧ ∀ c ∈ constants, c = some true := by
  unfold joined at h
  split at h
  · rename_i hmem
    cases h
    exact .inl ⟨rfl, hmem⟩
  · split at h
    · rename_i hall
      cases decider with
      | false => exact .inr ⟨rfl, fun c hc => beq_iff_eq.mp (List.all_eq_true.mp hall c hc)⟩
      | true => cases h
    · cases h

/-- There is no other way to the constant. -/
theorem Expr.FoldsToTrue.of_constant {e : Expr ν} {context : Nat}
    (h : e.constantIn context = some true) : e.FoldsToTrue := by
  induction e using Expr.induct generalizing context with
  | literal v =>
      cases v with
      | bool v =>
          cases h
          exact .literal
      | null | int | float | text => cases h
  | field | param | call | subquery => cases h
  | shorthand pairs =>
      obtain ⟨hempty, -⟩ := Option.ite_none_right_eq_some.mp h
      obtain rfl : pairs = [] := by simpa using hempty
      exact .empty
  | op name operands ih =>
      obtain ⟨op, hfind, hconstant⟩ := Option.bind_eq_some_iff.mp h
      obtain ⟨hmem, hname⟩ := Operator.find?_eq_some hfind
      have hoperand : ∀ e ∈ operands, e.folding.constant op.rank = some true → e.FoldsToTrue :=
        fun e he hfolds => ih e he hfolds
      rw [foldings_eq_map, Operator.constant.eq_def] at hconstant
      split at hconstant
      · rename_i hnil
        obtain rfl := List.map_eq_nil_iff.mp hnil
        exact .keyword (hname.trans (eq_boolWord_iff.mpr hconstant))
      · rename_i hsingle
        obtain ⟨e, rfl, -⟩ := List.map_eq_singleton_iff.mp hsingle
        exact .notIn (hname.trans (by simpa using hconstant))
      · rename_i harity
        obtain ⟨hdecider, hand⟩ | ⟨hdecider, hor⟩ | ⟨hdecider, harithmetic⟩ :=
          Operator.variadic_names op hmem harity
        · simp only [hdecider] at hconstant
          obtain ⟨h, -⟩ | ⟨-, hall⟩ := Operator.joined_eq_true hconstant
          · cases h
          · refine .conj (hname.trans hand) fun e he => hoperand e he (hall _ ?_)
            exact List.mem_map_of_mem (List.mem_map_of_mem he)
        · simp only [hdecider] at hconstant
          obtain ⟨-, htrue⟩ | ⟨h, -⟩ := Operator.joined_eq_true hconstant
          · simp only [List.map_map, List.mem_map, Function.comp_apply] at htrue
            obtain ⟨e, he, hfolds⟩ := htrue
            exact .disj (hname.trans hor) he (hoperand e he hfolds)
          · cases h
        · simp only [hdecider] at hconstant
          split at hconstant
          · rename_i hsingle
            obtain ⟨e, rfl, rfl⟩ := List.map_eq_singleton_iff.mp hsingle
            obtain ⟨-, hfolds⟩ := Option.ite_none_right_eq_some.mp hconstant
            exact .single (hname ▸ harithmetic) (hoperand e List.mem_cons_self hfolds)
          · cases hconstant
      · cases hconstant

theorem Expr.fragment_true (b : Builtin) (scope : Scope) (e : Expr (Build Sql)) (context : Nat) :
    ((e.fragment b.dialect scope).sql context).Ensures (fun _ _ => True) fun sql =>
      sql.render = "TRUE" → e.FoldsToTrue := by
  refine ((e.fragment_foldsAs b scope).constant context).mono fun sql hsql htrue => ?_
  refine .of_constant (hsql.symm.trans ?_)
  rw [htrue]
  rfl

end QueryCompiler
