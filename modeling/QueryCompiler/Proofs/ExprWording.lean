import QueryCompiler.Proofs.QueryFold
import QueryCompiler.Proofs.ExprAlike
import QueryCompiler.Proofs.Wording

/-!
# Expressions in two wordings

An expression whose texts belong to the vocabulary is compiled into related texts, if its nested
queries are. Each way of writing an operator keeps this.
-/
namespace QueryCompiler

variable {L : Build.Pairing} {V : Vocabulary} {b b' : Builtin} (W : Phrasing L V b b')

/-- Fragments that are written in related texts in every context. -/
structure Fragment.Related (f f' : Fragment) : Prop where
  atomic : f.atomic = f'.atomic
  isQuery : f.isQuery = f'.isQuery
  sql : ∀ context, L.Rel W.Good (f.sql context) (f'.sql context)

theorem Fragment.Related.leaf {x y : Build Sql} (h : L.Rel W.Good x y) :
    Fragment.Related W (.leaf x) (.leaf y) :=
  ⟨rfl, rfl, fun _ => h⟩

theorem parenthesized_related {x y : Build Sql} (h : L.Rel W.Whole x y) :
    L.Rel W.Good (parenthesized x) (parenthesized y) :=
  L.bind h fun _ _ hsql => L.pure (W.good_of_not_constant (W.group hsql)
    (parenthesized_not_constant _) (parenthesized_not_constant _))

theorem Fragment.Related.nested {x y : Build Sql} (h : L.Rel W.Whole x y) :
    Fragment.Related W ⟨true, true, fun _ => parenthesized x⟩
      ⟨true, true, fun _ => parenthesized y⟩ :=
  ⟨rfl, rfl, fun _ => parenthesized_related W h⟩

/-! Words of the table. -/

/-- Operands that are folded in the same way decide or leave a conjunction alike. -/
theorem constant_iff {choice : Option String} (hchoice : ∀ c, choice = some c → IsConstant c)
    {s t : String} (h : SameConstant s t) : choice = some s ↔ choice = some t := by
  cases choice with
  | none => simp
  | some c => simpa using h.eq_iff (hchoice c rfl)

theorem bracketed_not_constant (sql : Sql) : ¬ IsConstant (bracketed sql).render := by
  unfold bracketed
  split
  · rename_i henclosed
    intro hconstant
    obtain h | h := hconstant <;> exact absurd (h ▸ henclosed) (by decide)
  · exact parenthesized_not_constant sql

section Operators

variable {fs fs' : List Fragment} (h : List.Forall₂ (Fragment.Related W) fs fs')

include h

theorem Fragment.alone_related :
    L.Rel (List.Forall₂ (W.Rel 0 0)) (alone fs) (alone fs') :=
  L.mapM (h.imp fun _ _ hf => L.mono (hf.sql _) fun _ _ hsql => hsql.1)

theorem keptOperands_related (op : Operator) :
    L.Rel (Option.Rel (List.Forall₂ fun p p' => W.Good p.1 p'.1 ∧ p.2 = p'.2))
      (keptOperands op fs) (keptOperands op fs') := by
  induction h with
  | nil => exact L.pure (.some .nil)
  | @cons f f' fs fs' hf _ ih =>
      simp only [keptOperands]
      refine L.bind (hf.sql _) fun sql sql' hsql => ?_
      have habsorbing := constant_iff (fun c => @absorbing?_constant op.name c) hsql.2
      have hneutral := constant_iff (fun c => @neutral?_constant op.name c) hsql.2
      simp only [habsorbing]
      split
      · exact L.pure .none
      · refine L.bind ih fun kept kept' hkept => L.pure ?_
        simp only [hneutral]
        split
        · exact hkept
        · cases hkept with
          | none => exact .none
          | some hparts => exact .some (.cons ⟨hsql, hf.atomic⟩ hparts)

end Operators

theorem joinOperands_related (op : Operator) {name name' : String}
    (hname : SpelledAlike b b' name name') (context : Nat) {parts parts' : List (Sql × Bool)}
    (h : List.Forall₂ (fun p p' => W.Good p.1 p'.1 ∧ p.2 = p'.2) parts parts') :
    W.Good (joinOperands op name context parts) (joinOperands op name' context parts') := by
  match parts, parts', h with
  | [], [], _ => exact W.good_text (ownText_identity op.name)
  | [(sql, atomic)], [(sql', atomic')], .cons hpart .nil =>
      obtain ⟨hsql, rfl⟩ := hpart
      have hsplit : ∀ a : Sql, (if atomic || Text.isEnclosed a.render then a
          else Operator.wrap op.rank context a) =
          if atomic ∨ ¬ context < op.rank then a else bracketed a := by
        intro a
        unfold Operator.wrap bracketed
        cases atomic <;> by_cases hcontext : context < op.rank <;> simp [hcontext]
      simp only [joinOperands, hsplit]
      split
      · exact hsql
      · exact W.good_of_not_constant (W.bracketed hsql.1) (bracketed_not_constant sql)
          (bracketed_not_constant sql')
  | first :: second :: rest, first' :: second' :: rest', h =>
      have hseparator : W.Rel 0 0 (" " ++ name ++ " " : String) (" " ++ name' ++ " " : String) :=
        W.word ((OwnText.append (by decide) hname.own).append (by decide))
          ((OwnText.append (by decide) hname.own').append (by decide))
          fun hb => by rw [hname.same hb]
      have hparts : List.Forall₂ (W.Rel 0 0) ((first :: second :: rest).map (·.1))
          ((first' :: second' :: rest').map (·.1)) :=
        List.forall₂_map_left_iff.mpr (List.forall₂_map_right_iff.mpr (h.imp fun _ _ hp => hp.1.1))
      refine (W.good_of_not_constant (W.intercalate hseparator hparts) ?_ ?_).wrap op.rank context
      · exact intercalate_not_constant _ (by simp) _ _ _
      · exact intercalate_not_constant _ (by simp) _ _ _

section Operators

variable {fs fs' : List Fragment} (h : List.Forall₂ (Fragment.Related W) fs fs')
  {op : Operator} (hop : op ∈ Operator.all)

include h

theorem membersSql_related : L.Rel (W.Rel 0 0) (membersSql fs) (membersSql fs') := by
  have hlist : ∀ {gs gs' : List Fragment}, List.Forall₂ (Fragment.Related W) gs gs' →
      L.Rel (W.Rel 0 0)
        (do return "(" ++ Sql.intercalate ", " (← Fragment.alone gs) ++ ")")
        (do return "(" ++ Sql.intercalate ", " (← Fragment.alone gs') ++ ")") := fun hgs =>
    L.bind (Fragment.alone_related W hgs) fun _ _ hsqls =>
      L.pure (W.parenthesized (W.commas hsqls))
  match fs, fs', h with
  | [], [], _ => exact hlist .nil
  | [f], [f'], .cons hf .nil =>
      simp only [membersSql, hf.isQuery]
      refine L.bind (hf.sql _) fun sql sql' hsql => L.pure ?_
      split
      · exact hsql.1
      · exact W.parenthesized hsql.1
  | _ :: _ :: _, _ :: _ :: _, h => exact hlist h

include hop

theorem variadicSql_related (context : Nat) :
    L.Rel W.Good (variadicSql b.dialect op fs context) (variadicSql b'.dialect op fs' context) := by
  refine L.bind (W.spelling hop) fun name name' hname => ?_
  refine L.bind (keptOperands_related W h op) fun kept kept' hkept => ?_
  cases hkept with
  | none => exact L.pure (W.good_text (ownText_absorbing op.name))
  | some hparts => exact L.pure (joinOperands_related W op hname context hparts)

theorem inListSql_related {subject subject' : Fragment} (hsubject : subject.Related W subject')
    (context : Nat) :
    L.Rel W.Good (inListSql b.dialect op subject fs context)
      (inListSql b'.dialect op subject' fs' context) := by
  refine L.bind (W.spelling hop) fun name name' hname => ?_
  have hempty : fs.isEmpty = fs'.isEmpty := by cases h <;> rfl
  rw [hempty]
  split
  · exact L.pure (W.good_text (ownText_boolWord _))
  · refine L.bind (hsubject.sql _) fun left left' hleft => ?_
    refine L.bind (membersSql_related W h) fun right right' hright => L.pure ?_
    exact (W.binary hname hleft.1 hright).wrap _ _

end Operators

/-! Operators that a dialect builds itself. -/

/-- What two dialects make of the operands of one operator. -/
inductive VendorRelated : Option (Except Fault Sql) → Option (Except Fault Sql) → Prop
  | missing : VendorRelated none none
  | refused (fault : Fault) : VendorRelated (some (.error fault)) (some (.error fault))
  | built {sql sql' : Sql} (h : W.Rel 0 0 sql sql') :
      VendorRelated (some (.ok sql)) (some (.ok sql'))

theorem caseBranches_related {operands operands' : List Sql}
    (h : List.Forall₂ (W.Rel 0 0) operands operands') :
    W.Rel 0 0 (caseBranches operands) (caseBranches operands') := by
  have hword : ∀ word ∈ [" WHEN ", " THEN ", " ELSE ", ""], W.Rel 0 0 word word :=
    fun word hword => W.text (by revert word; decide)
  induction operands using caseBranches.induct generalizing operands' with
  | case1 condition result rest ih =>
      obtain _ | ⟨hcondition, _ | ⟨hresult, hrest⟩⟩ := h
      refine W.append (W.append (W.append (W.append ?_ hcondition) ?_) hresult) (ih hrest)
      · exact hword " WHEN " (by simp)
      · exact hword " THEN " (by simp)
  | case2 otherwise =>
      obtain _ | ⟨hotherwise, ⟨⟩⟩ := h
      exact W.append (hword " ELSE " (by simp)) hotherwise
  | case3 =>
      cases h
      exact hword "" (by simp)

theorem vendorOperator_related (name : String) {operands operands' : List Sql}
    (h : List.Forall₂ (W.Rel 0 0) operands operands') :
    VendorRelated W (b.dialect.markedVendorOperator name operands)
      (b'.dialect.markedVendorOperator name operands') := by
  rw [b.markedVendorOperator_eq, b'.markedVendorOperator_eq]
  unfold defaultVendorOperator
  have hlength := h.length_eq
  split
  · rw [buildCase, buildCase, hlength]
    split
    · exact .refused _
    · exact .built (W.append (W.append (W.text (by decide)) (caseBranches_related W h))
        (W.text (by decide)))
  · split
    · match operands, operands', h with
      | [], [], _ | [_], [_], _ | _ :: _ :: _ :: _, _ :: _ :: _ :: _, _ =>
          have hrefused : ∀ (b : Builtin) (operands : List Sql), operands.length ≠ 2 →
              b.ilike operands = .error (.arity "ILIKE" "2" operands.length "") := by
            intro b operands hne
            match operands with
            | [] | [_] | _ :: _ :: _ :: _ => cases b <;> rfl
            | [_, _] => exact absurd rfl hne
          rw [hrefused b _ (by simp), hrefused b' _ (by simp), hlength]
          exact .refused _
      | [_, _], [_, _], .cons hleft (.cons hright .nil) =>
          obtain ⟨sql, sql', hsql, hsql', hrel⟩ := W.ilike hleft hright
          rw [hsql, hsql']
          exact .built hrel
    · exact .missing

section Operators

variable {fs fs' : List Fragment} (h : List.Forall₂ (Fragment.Related W) fs fs')

include h

/-- A dialect without the operator says so under its own name. -/
theorem vendorSql_related {op : Operator} (hop : op ∈ Operator.all) (harity : op.arity = .vendor)
    {shown shown' : String} (hshown : shown = shown' ∨ L.Lenient) (context : Nat) :
    L.Rel W.Good (vendorSql b.dialect op shown fs context)
      (vendorSql b'.dialect op shown' fs' context) := by
  have hoperands : L.Rel (List.Forall₂ (W.Rel 0 0))
      (fs.mapM fun f => f.sql (Operator.leftContext op.rank))
      (fs'.mapM fun f => f.sql (Operator.leftContext op.rank)) :=
    L.mapM (h.imp fun _ _ hf => L.mono (hf.sql _) fun _ _ hsql => hsql.1)
  refine L.bind hoperands fun operands operands' hsqls => ?_
  have hvendor := vendorOperator_related W op.name hsqls
  have hknown : b.dialect.markedVendorOperator op.name operands ≠ none := by
    have hnames : ∀ op ∈ Operator.all,
        op.arity = .vendor → op.name = "CASE" ∨ op.name = "ILIKE" := by
      decide
    rw [b.markedVendorOperator_eq]
    obtain hname | hname := hnames op hop harity <;> simp [defaultVendorOperator, hname]
  have hleft := fun sql => @vendorOperator_not_constant b op.name operands sql
  have hright := fun sql => @vendorOperator_not_constant b' op.name operands' sql
  generalize b.dialect.markedVendorOperator op.name operands = built at *
  generalize b'.dialect.markedVendorOperator op.name operands' = built' at *
  cases hvendor with
  | missing => exact absurd rfl hknown
  | refused fault => exact L.failShowing hshown fun shown => fault.showing shown
  | built hsql =>
      exact L.pure ((W.good_of_not_constant hsql (hleft _ rfl) (hright _ rfl)).wrap _ _)

theorem operatorSql_related {op : Operator} (hop : op ∈ Operator.all) {shown shown' : String}
    (hshown : shown = shown' ∨ L.Lenient) (context : Nat) :
    L.Rel W.Good (operatorSql b.dialect op shown fs context)
      (operatorSql b'.dialect op shown' fs' context) := by
  have hblank : W.Rel 0 0 " " " " := W.text (by decide)
  have hrefused : ∀ expected,
      L.Rel W.Good (Build.fail (.arity op.name expected fs.length shown))
        (Build.fail (.arity op.name expected fs'.length shown')) := by
    intro expected
    rw [h.length_eq]
    exact L.failShowing hshown fun shown => .arity op.name expected fs'.length shown
  have hname := W.spelling hop
  unfold operatorSql
  cases harity : op.arity with
  | nullary =>
      cases h with
      | nil =>
          refine L.bind hname fun name name' hname => L.pure ⟨W.spelled hname, ?_⟩
          rw [Sql.render_ofString, Sql.render_ofString]
          exact hname.constant
      | cons _ _ =>
          exact hrefused _
  | unaryPrefix =>
      match fs, fs', h with
      | [], [], _ | _ :: _ :: _, _ :: _ :: _, _ =>
          exact hrefused _
      | [_], [_], .cons hf .nil =>
          refine L.bind hname fun name name' hname => L.bind (hf.sql _) fun sql sql' hsql => ?_
          refine L.pure ((W.good_of_not_constant ?_ ?_ ?_).wrap _ _)
          · exact W.append (W.append (W.spelled hname) hblank) hsql.1
          · exact not_constant_of_mem (c := ' ') (by simp) (by decide)
          · exact not_constant_of_mem (c := ' ') (by simp) (by decide)
  | unaryPostfix =>
      match fs, fs', h with
      | [], [], _ | _ :: _ :: _, _ :: _ :: _, _ =>
          exact hrefused _
      | [_], [_], .cons hf .nil =>
          refine L.bind hname fun name name' hname => L.bind (hf.sql _) fun sql sql' hsql => ?_
          refine L.pure ((W.good_of_not_constant ?_ ?_ ?_).wrap _ _)
          · exact W.append (W.append hsql.1 hblank) (W.spelled hname)
          · exact not_constant_of_mem (c := ' ') (by simp) (by decide)
          · exact not_constant_of_mem (c := ' ') (by simp) (by decide)
  | binary =>
      match fs, fs', h with
      | [], [], _ | [_], [_], _ | _ :: _ :: _ :: _, _ :: _ :: _ :: _, _ =>
          exact hrefused _
      | [_, _], [_, _], .cons hl (.cons hr .nil) =>
          refine L.bind hname fun name name' hname => L.bind (hl.sql _) fun left left' hleft =>
            L.bind (hr.sql _) fun right right' hright => L.pure ?_
          exact (W.binary hname hleft.1 hright.1).wrap _ _
  | ternary =>
      match fs, fs', h with
      | [], [], _ | [_], [_], _ | [_, _], [_, _], _ =>
          exact hrefused _
      | _ :: _ :: _ :: _ :: _, _ :: _ :: _ :: _ :: _, _ =>
          exact hrefused _
      | [_, _, _], [_, _, _], .cons hs (.cons hl (.cons hh .nil)) =>
          refine L.bind hname fun name name' hname =>
            L.bind (hs.sql _) fun subject subject' hsubject =>
            L.bind (hl.sql _) fun low low' hlow => L.bind (hh.sql _) fun high high' hhigh => ?_
          refine L.pure ((W.good_of_not_constant ?_ ?_ ?_).wrap _ _)
          · exact W.append (W.append (W.binary hname hsubject.1 hlow.1).1 (W.text (by decide)))
              hhigh.1
          · exact not_constant_of_mem (c := ' ') (by simp) (by decide)
          · exact not_constant_of_mem (c := ' ') (by simp) (by decide)
  | variadic => exact variadicSql_related W h hop context
  | inList =>
      cases h with
      | nil => exact hrefused _
      | cons hf hrest => exact inListSql_related W hrest hop hf context
  | vendor => exact vendorSql_related W h hop harity hshown context

theorem applicationSql_related (name : String) {shown shown' : String}
    (hshown : shown = shown' ∨ L.Lenient) (context : Nat) :
    L.Rel W.Good (applicationSql b.dialect name shown fs context)
      (applicationSql b'.dialect name shown' fs' context) := by
  unfold applicationSql
  cases hfind : Operator.find? name with
  | none => exact L.failShowing hshown (.unknownOperator name)
  | some op => exact operatorSql_related W h (Operator.find?_eq_some hfind).1 hshown context

theorem application_related (name : String) {shown shown' : String}
    (hshown : shown = shown' ∨ L.Lenient) :
    Fragment.Related W (application b.dialect name shown fs)
      (application b'.dialect name shown' fs') := by
  refine ⟨?_, rfl, applicationSql_related W h name hshown⟩
  cases h <;> rfl

theorem callSql_related (name : String) : L.Rel W.Good (callSql name fs) (callSql name fs') := by
  unfold callSql
  split
  · exact L.fail _
  · rename_i hname
    have hown : OwnText 0 0 name.toUpper := ownText_function (by simpa using hname)
    refine L.bind (Fragment.alone_related W h) fun sqls sqls' hsqls => L.pure ?_
    refine W.good_of_not_constant ?_ (not_constant_of_mem (c := '(') (by simp) (by decide))
      (not_constant_of_mem (c := '(') (by simp) (by decide))
    exact W.append (W.append (W.append (W.text hown) (W.text (by decide)))
      (W.raise (W.commas hsqls) 1)) (W.text (by decide))

end Operators

/-! Leaves. -/

theorem mark_related {m : Mark} (h : m.IsOwn) (hm : W.Allowed m) :
    L.Rel W.Good (pure (.ofMark m)) (pure (.ofMark (m.unname W.names))) :=
  L.pure (W.good_of_not_constant (W.mark h hm) (mark_not_constant _) (mark_not_constant _))

theorem liftPlaceholder_related (v : Value) :
    L.Rel W.Good (liftPlaceholder v) (liftPlaceholder v) :=
  L.bind (L.lift v) fun _ _ hname => L.pure (W.good_of_not_constant (W.lifted hname)
    (mark_not_constant _) (mark_not_constant _))

theorem stringSql_related {s : String} (h : V.string s) (hmark : Mark.ofText? s = none) :
    L.Rel W.Good (stringSql s) (stringSql s) := by
  unfold stringSql
  rw [hmark]
  simp only
  split
  · rename_i hstart
    split
    · have hconstant : ¬ IsConstant s := by
        rintro (rfl | rfl) <;> exact absurd hstart (by decide)
      rw [← Sql.render_ofString s] at hconstant
      exact L.pure (W.good_of_not_constant (W.string h hstart ‹_›) hconstant hconstant)
    · exact L.fail _
  · exact liftPlaceholder_related W _

theorem literalSql_related {v : Value} (h : ∀ s, v = .text s → V.string s)
    (hmark : ∀ s, v = .text s → ∀ m ∈ Mark.ofText? s, W.Allowed m) :
    L.Rel W.Good (literalSql v) (literalSql (v.unname W.names)) := by
  cases v with
  | null => exact L.pure (W.good_text (by decide))
  | bool b => exact L.pure (W.good_text (ownText_boolWord b))
  | int n => exact L.pure (W.good_text (ownText_int n))
  | float x =>
      rw [Value.unname, literalSql]
      split
      · exact L.pure (W.good_text (ownText_float x))
      · exact L.fail _
      · simp
  | text s =>
      rw [Value.unname]
      cases hm : Mark.ofText? s with
      | none => exact stringSql_related W (h s rfl) hm
      | some m =>
          have hsame : stringSql s = pure (.ofMark m) := by
            rw [stringSql, hm]
          rw [literalSql, hsame, literalSql, stringSql_unname hm]
          exact mark_related W (Mark.isOwn_ofText hm) (hmark s rfl m hm)

theorem fieldSql_related (scope : Scope) {name : String} (h : V.field name) :
    L.Rel W.Good (fieldSql b.dialect scope name) (fieldSql b'.dialect scope name) := by
  unfold fieldSql
  cases hparse : Field.parse name with
  | error fault => exact L.fail fault
  | ok f =>
      refine L.pure (W.good_of_not_constant (W.field h scope hparse) ?_ ?_)
      · rw [Sql.render_ofString]
        exact fieldName_not_constant b scope f.name
      · rw [Sql.render_ofString]
        exact fieldName_not_constant b' scope f.name

variable {ν : Type} {g g' : ν → Build Sql}

theorem param_related (d d' : Dialect) (scope : Scope) {name : String}
    (hm : W.Allowed (.reference name)) :
    Fragment.Related W ((Expr.param name).fragment d scope)
      ((((Expr.param name : Expr ν).revise W.revision).map g').fragment d' scope) := by
  by_cases hname : Text.isIdentifier name = true
  · have hmark := mark_related W (.inr ⟨name, rfl, hname⟩) hm
    have hwritten : paramSql name = pure (.ofMark (.reference name)) := if_pos hname
    rw [← hwritten, Mark.unname] at hmark
    by_cases hmem : name ∈ W.names
    · simp only [Expr.revise, Phrasing.revision, Revision.unnaming, hmem, hname, and_self, if_true]
      rw [if_pos hmem] at hmark
      exact .leaf W hmark
    · simp only [Expr.revise, Phrasing.revision, Revision.unnaming, hmem, false_and, if_false]
      rw [if_neg hmem, ← hwritten] at hmark
      exact .leaf W hmark
  · have hfails : paramSql name = .fail (.invalidValue (.parameterName name)) := if_neg hname
    have hstay : (Expr.param name : Expr ν).revise W.revision = .param name := by
      simp [Expr.revise, Phrasing.revision, Revision.unnaming, hname]
    rw [hstay]
    exact .leaf W (hfails ▸ L.fail _)

theorem shorthandCondition_related (scope : Scope) {name : String} (hname : V.field name)
    (v : FieldValue ν) (hv : ∀ q ∈ v.subquery?, L.Rel W.Whole (g q) (g' q)) :
    L.Rel (Fragment.Related W) (shorthandCondition b.dialect scope name (v.map g))
      (shorthandCondition b'.dialect scope name (v.map g')) := by
  have htarget : Fragment.Related W (shorthandCondition.target b.dialect scope name)
      (shorthandCondition.target b'.dialect scope name) := .leaf W (fieldSql_related W scope hname)
  have hleaf : ∀ {sql sql' : Sql}, W.Good sql sql' →
      Fragment.Related W (.leaf (pure sql)) (.leaf (pure sql')) := fun hsql =>
    .leaf W (L.pure hsql)
  have hnull : L.Rel (Fragment.Related W)
      (pure (application b.dialect "IS NULL" name
        [shorthandCondition.target b.dialect scope name]))
      (pure (application b'.dialect "IS NULL" name
        [shorthandCondition.target b'.dialect scope name])) :=
    L.pure (application_related W (.cons htarget .nil) _ (.inl rfl))
  have hvalue : ∀ v : Value, L.Rel (Fragment.Related W)
      (liftPlaceholder v >>= fun placeholder => pure (application b.dialect "=" name
        [shorthandCondition.target b.dialect scope name, .leaf (pure placeholder)]))
      (liftPlaceholder v >>= fun placeholder => pure (application b'.dialect "=" name
        [shorthandCondition.target b'.dialect scope name, .leaf (pure placeholder)])) :=
    fun v => L.bind (liftPlaceholder_related W v) fun _ _ hsql =>
      L.pure (application_related W (.cons htarget (.cons (hleaf hsql) .nil)) _ (.inl rfl))
  match v with
  | .null | .value .null | .list [] => exact hnull
  | .value (.bool _) | .value (.int _) | .value (.float _) | .value (.text _) => exact hvalue _
  | .list (first :: rest) =>
      have hitems : L.Rel (List.Forall₂ W.Good) ((first :: rest).mapM liftPlaceholder)
          ((first :: rest).mapM liftPlaceholder) :=
        L.mapM (List.forall₂_same.mpr fun v _ => liftPlaceholder_related W v)
      refine L.bind hitems fun sqls sqls' hsqls => L.pure ?_
      refine application_related W (.cons htarget ?_) _ (.inl rfl)
      exact List.forall₂_map_left_iff.mpr (List.forall₂_map_right_iff.mpr
        (hsqls.imp fun _ _ => hleaf))
  | .subquery q =>
      have hq : L.Rel W.Whole (g q) (g' q) := hv q rfl
      exact L.pure (application_related W (.cons htarget (.cons (.nested W hq) .nil)) _ (.inl rfl))

namespace Expr

/-- How an expression is shown does not depend on what its nested queries have become. -/
theorem display_map {μ : Type} (f : ν → μ) (e : Expr ν) : (e.map f).display = e.display := by
  have hdisplays : ∀ {ι : Type} (es : List (Expr ι)), displays es = es.map display := by
    intro ι es
    induction es with
    | nil => rfl
    | cons e rest ih => rw [displays, ih, List.map_cons]
  have hrest : ∀ {ι : Type} (es : List (Expr ι)),
      displayRest es = es.map fun e => ", " ++ e.display := by
    intro ι es
    induction es with
    | nil => rfl
    | cons e rest ih => rw [displayRest, ih, List.map_cons]
  induction e using Expr.induct with
  | literal | param | subquery => rfl
  | field name label => cases label <;> rfl
  | op name operands ih =>
      simp only [map, display, maps_eq_map, hrest, List.map_map, Function.comp_def]
      rw [List.map_congr_left fun e he => by rw [ih e he]]
  | call name args ih =>
      simp only [map, display, maps_eq_map, hdisplays, List.map_map, Function.comp_def]
      rw [List.map_congr_left fun e he => by rw [ih e he]]
  | shorthand pairs =>
      have hvalue : ∀ v : FieldValue ν, (v.map f).display = v.display := by
        intro v
        cases v <;> rfl
      simp [map, display, Function.comp_def, hvalue]

theorem fragment_related (scope : Scope) {e : Expr ν} (he : e.Fits V W.Allowed)
    (h : ∀ q ∈ e.subqueries, L.Rel W.Whole (g q) (g' q)) :
    Fragment.Related W ((e.map g).fragment b.dialect scope)
      (((e.revise W.revision).map g').fragment b'.dialect scope) := by
  have hfragments : ∀ {es : List (Expr ν)},
      (∀ e ∈ es, Fragment.Related W ((e.map g).fragment b.dialect scope)
        (((e.revise W.revision).map g').fragment b'.dialect scope)) →
      List.Forall₂ (Fragment.Related W) (fragments b.dialect scope (maps g es))
        (fragments b'.dialect scope (maps g' (reviseAll W.revision es))) := by
    intro es hes
    rw [maps_eq_map, maps_eq_map, reviseAll_eq_map, fragments_eq_map, fragments_eq_map,
      List.map_map, List.map_map, List.map_map, List.forall₂_map_left_iff,
      List.forall₂_map_right_iff, List.forall₂_same]
    exact hes
  have hnested : ∀ {es : List (Expr ν)} {e : Expr ν}, e ∈ es →
      (∀ q ∈ subqueriesOf es, L.Rel W.Whole (g q) (g' q)) →
        ∀ q ∈ e.subqueries, L.Rel W.Whole (g q) (g' q) := by
    intro es e he hes q hq
    refine hes q ?_
    rw [subqueriesOf_eq_flatMap]
    exact List.mem_flatMap.mpr ⟨e, he, hq⟩
  induction e using Expr.induct with
  | literal v =>
      cases he with
      | literal hv hmark => exact .leaf W (literalSql_related W hv hmark)
  | field name label =>
      cases he with
      | field hname => exact .leaf W (fieldSql_related W scope hname)
  | param name =>
      cases he with
      | param hmark => exact param_related W b.dialect b'.dialect scope hmark
  | subquery q => exact .nested W (h q List.mem_cons_self)
  | op name operands ih =>
      cases he with
      | op hes =>
          have hshown : (op name (maps g operands)).display =
              (op name (maps g' (reviseAll W.revision operands))).display ∨ L.Lenient := by
            refine W.shown.imp_left fun hnames => ?_
            have hstay : reviseAll W.revision operands = operands := by
              rw [reviseAll_eq_map, Phrasing.revision, hnames, Revision.unnaming_nil]
              exact listMap_self fun e _ => e.revise_unchanged
            rw [hstay]
            exact (display_map g (.op name operands)).trans
              (display_map g' (.op name operands)).symm
          exact application_related W
            (hfragments fun e he => ih e he (hes e he) (hnested he h)) _ hshown
  | call name args ih =>
      cases he with
      | call hes =>
          exact .leaf W (callSql_related W
            (hfragments fun e he => ih e he (hes e he) (hnested he h)) name)
  | shorthand pairs =>
      cases he with
      | shorthand hnames =>
          have hstay : (shorthand pairs).revise W.revision = shorthand pairs := by
            simp [revise, @FieldValue.revise_self _ W.revision fun _ => rfl]
          rw [hstay]
          refine ⟨rfl, rfl, fun context => ?_⟩
          have hpairs : L.Rel (List.Forall₂ (Fragment.Related W))
              ((pairs.map fun pair => (pair.1, pair.2.map g)).mapM fun pair =>
                shorthandCondition b.dialect scope pair.1 pair.2)
              ((pairs.map fun pair => (pair.1, pair.2.map g')).mapM fun pair =>
                shorthandCondition b'.dialect scope pair.1 pair.2) :=
            L.mapM_map fun pair hpair =>
              shorthandCondition_related W scope (hnames pair hpair) pair.2 fun q hq =>
                h q (List.mem_filterMap.mpr ⟨pair, hpair, hq⟩)
          exact L.bind hpairs fun _ _ hconditions =>
            applicationSql_related W hconditions _ (.inl rfl) context

/-- An expression is written in related texts. -/
theorem sql_related (scope : Scope) {e : Expr ν} (he : e.Fits V W.Allowed)
    (h : ∀ q ∈ e.subqueries, L.Rel W.Whole (g q) (g' q)) :
    L.Rel (W.Rel 0 0) ((e.map g).sql b.dialect scope)
      (((e.revise W.revision).map g').sql b'.dialect scope) :=
  L.mono ((fragment_related W scope he h).sql _) fun _ _ hsql => hsql.1

end Expr

end QueryCompiler
