import QueryCompiler.Compile.Expr
import QueryCompiler.Dialect.Builtin
import QueryCompiler.Proofs.CalmText

/-!
# Texts that are a constant

Conjunctions and disjunctions compare the texts of their operands with `TRUE` and `FALSE`. Names,
numbers, placeholders and whatever is put together of several texts never read like that.
-/
namespace QueryCompiler

/-- One of the two texts by which conjunctions and disjunctions are folded. -/
def IsConstant (s : String) : Prop := s = "TRUE" ∨ s = "FALSE"

instance : DecidablePred IsConstant := fun s =>
  inferInstanceAs (Decidable (s = "TRUE" ∨ s = "FALSE"))

/-- A conjunction or disjunction is folded by constants only. -/
theorem absorbing?_constant {op c : String} (h : absorbing? op = some c) : IsConstant c := by
  unfold absorbing? at h
  split at h <;> cases h <;> decide

theorem neutral?_constant {op c : String} (h : neutral? op = some c) : IsConstant c := by
  unfold neutral? at h
  split at h <;> cases h <;> decide

theorem not_constant_of_mem {s : String} {c : Char} (hc : c ∈ s.toList)
    (h : c ∉ "TRUEFALSE".toList) : ¬ IsConstant s := by
  rintro (rfl | rfl)
  · exact h (List.mem_append_left "FALSE".toList hc)
  · exact h (List.mem_append_right "TRUE".toList hc)

/-- A text that became a constant was not parenthesized. -/
theorem wrap_of_constant {sql : Sql} {rank context : Nat}
    (h : IsConstant (Operator.wrap rank context sql).render) :
    Operator.wrap rank context sql = sql := by
  unfold Operator.wrap at h ⊢
  split
  · rename_i hloose
    rw [if_pos hloose] at h
    exact absurd h (not_constant_of_mem (c := '(') (by simp) (by decide))
  · rfl

theorem wrap_not_constant {sql : Sql} (h : ¬ IsConstant sql.render) (rank context : Nat) :
    ¬ IsConstant (Operator.wrap rank context sql).render :=
  fun hwrapped => h (wrap_of_constant hwrapped ▸ hwrapped)

theorem parenthesized_not_constant (sql : Sql) : ¬ IsConstant ("(" ++ sql ++ ")" : Sql).render :=
  not_constant_of_mem (c := '(') (by simp) (by decide)

theorem between_not_constant (left right : Sql) (word : String) :
    ¬ IsConstant (left ++ " " ++ word ++ " " ++ right : Sql).render :=
  not_constant_of_mem (c := ' ') (by simp) (by decide)

theorem intercalate_not_constant (separator : String) (hseparator : ' ' ∈ separator.toList)
    (part next : Sql) (rest : List Sql) :
    ¬ IsConstant (Sql.intercalate separator (part :: next :: rest)).render :=
  not_constant_of_mem (c := ' ') (by simp [Sql.intercalate, hseparator]) (by decide)

@[simp]
theorem Sql.render_ofMark (m : Mark) : (Sql.ofMark m).render = m.text := by
  simp [render, ofMark, Chunk.render]

theorem mark_not_constant (m : Mark) : ¬ IsConstant (Sql.ofMark m).render := by
  cases m with
  | positional => decide
  | reference name | lifted name =>
      exact not_constant_of_mem (c := ':')
        (by simp [Mark.text]) (by decide)

/-- Both constants hold the same letter. -/
theorem not_constant_of_quiet {s : String} (h : Quiet (· == 'E') s) : ¬ IsConstant s := by
  rintro (rfl | rfl) <;> exact absurd h (by decide)

theorem quiet_constant_of_digit (c : Char) (h : c.isDigit = true) :
    (c == 'E') = false ∧ Text.isQuote c = false := by
  refine ⟨?_, (unmarked_of_digit c h).2⟩
  rw [beq_eq_false_iff_ne]
  rintro rfl
  exact absurd h (by decide)

theorem int_not_constant (n : Int) : ¬ IsConstant (toString n) :=
  not_constant_of_quiet (quiet_int quiet_constant_of_digit (by decide) n)

theorem float_not_constant (x : Float) : ¬ IsConstant (Decimal.floatText x) :=
  not_constant_of_quiet
    (quiet_floatText quiet_constant_of_digit (by decide) (by decide) (by decide) x)

/-! Names. -/

theorem enclose_not_constant {quote : Char} (h : Text.isQuote quote = true) (s : String) :
    ¬ IsConstant (Text.enclose quote s) := by
  have hloud : (quote == 'E') = false := by
    rw [beq_eq_false_iff_ne]
    rintro rfl
    exact absurd h (by decide)
  exact not_constant_of_quiet (quiet_enclose h hloud s)

theorem dots_not_constant {parts : List String} (h : ∀ part ∈ parts, ¬ IsConstant part) :
    ¬ IsConstant (".".intercalate parts) := by
  match parts with
  | [] => decide
  | [part] => simpa using h part List.mem_cons_self
  | part :: next :: rest =>
      exact not_constant_of_mem (c := '.') (by simp [String.intercalate_cons_cons]) (by decide)

theorem quoteName_not_constant {quote : Char} (hquote : Text.isQuote quote = true)
    (name : String) : ¬ IsConstant (Identifier.quoteName quote name) := by
  refine dots_not_constant fun part hpart => ?_
  obtain ⟨word, -, rfl⟩ := List.mem_map.mp hpart
  unfold Identifier.quotePart
  split
  · exact enclose_not_constant hquote word
  · rename_i hbare
    rintro (rfl | rfl) <;> exact hbare (by decide +kernel)

/-- A built-in dialect quotes a constant when it is a name. -/
theorem Builtin.quoteIdentifier_not_constant (b : Builtin) (name : String) :
    ¬ IsConstant (b.dialect.quoteIdentifier name) := by
  cases b with
  | postgres | mysql => exact quoteName_not_constant rfl name
  | sqlite => exact enclose_not_constant rfl name

theorem verbatim_not_constant {name : String} (h : name = "*" ∨ Field.isVerbatim name = true) :
    ¬ IsConstant name := by
  rintro (rfl | rfl) <;> revert h <;> decide

theorem fieldName_not_constant (b : Builtin) (scope : Scope) (name : String) :
    ¬ IsConstant (b.dialect.fieldName scope name) := by
  unfold Dialect.fieldName
  split
  · exact verbatim_not_constant ‹_›
  · split
    · refine dots_not_constant fun part hpart => ?_
      obtain ⟨word, -, rfl⟩ := List.mem_map.mp hpart
      unfold Dialect.part
      split
      · exact verbatim_not_constant ‹_›
      · exact b.quoteIdentifier_not_constant word
    · split
      · exact not_constant_of_mem (c := '.') (by simp) (by decide)
      · exact b.quoteIdentifier_not_constant name

/-! Operators that a dialect builds from its operands. -/

theorem buildCase_not_constant {operands : List Sql} {sql : Sql}
    (h : buildCase operands = .ok sql) : ¬ IsConstant sql.render := by
  unfold buildCase at h
  split at h
  · cases h
  · cases h
    exact not_constant_of_mem (c := ' ') (by simp) (by decide)

theorem buildNativeIlike_not_constant {operands : List Sql} {sql : Sql}
    (h : buildNativeIlike operands = .ok sql) : ¬ IsConstant sql.render := by
  match operands with
  | [] | [_] | _ :: _ :: _ :: _ => cases h
  | [left, right] =>
      cases h
      exact not_constant_of_mem (c := ' ') (by simp) (by decide)

theorem buildLoweredIlike_not_constant {operands : List Sql} {sql : Sql}
    (h : buildLoweredIlike operands = .ok sql) : ¬ IsConstant sql.render := by
  match operands with
  | [] | [_] | _ :: _ :: _ :: _ => cases h
  | [left, right] =>
      cases h
      exact not_constant_of_mem (c := ' ') (by simp) (by decide)

theorem defaultVendorOperator_not_constant {ilike : List Sql → Except Fault Sql} {name : String}
    {operands : List Sql} {sql : Sql}
    (hilike : ilike operands = .ok sql → ¬ IsConstant sql.render)
    (h : defaultVendorOperator ilike name operands = some (.ok sql)) :
    ¬ IsConstant sql.render := by
  unfold defaultVendorOperator at h
  split at h
  · exact buildCase_not_constant (Option.some.inj h)
  · split at h
    · exact hilike (Option.some.inj h)
    · cases h

theorem vendorOperator_not_constant (b : Builtin) {name : String} {operands : List Sql} {sql : Sql}
    (h : b.dialect.markedVendorOperator name operands = some (.ok sql)) :
    ¬ IsConstant sql.render := by
  cases b with
  | postgres => exact defaultVendorOperator_not_constant buildNativeIlike_not_constant h
  | mysql | sqlite => exact defaultVendorOperator_not_constant buildLoweredIlike_not_constant h

end QueryCompiler
