import QueryCompiler.Proofs.AloneBinder
import QueryCompiler.Proofs.QueryWording
import QueryCompiler.Proofs.Rewording
import QueryCompiler.Proofs.TextShape

/-!
# Nested queries up to the names of lifted values

The statement of a nested query is written in the same way inside the outer query and alone, but for
the names under which values are lifted.
-/
namespace QueryCompiler

/-- A mark with another name for a lifted value; what the query refers to itself stays. -/
def Mark.rename (ρ : String → String) : Mark → Mark
  | lifted name => lifted (ρ name)
  | m => m

def Chunk.rename (ρ : String → String) : Chunk → Chunk
  | text s => text s
  | mark m => mark (m.rename ρ)

/-- A text with other names for lifted values. -/
def Sql.rename (ρ : String → String) (sql : Sql) : Sql := ⟨sql.chunks.map (Chunk.rename ρ)⟩

/-- The same chunk, or a value that was lifted under two related names. -/
inductive Chunk.Renamed (named : String → String → Prop) : Chunk → Chunk → Prop
  | text (s : String) : Renamed named (text s) (text s)
  | own {m : Mark} (h : m.IsOwn) : Renamed named (mark m) (mark m)
  | lifted {name name' : String} (h : named name name') :
      Renamed named (mark (.lifted name)) (mark (.lifted name'))

variable {named : String → String → Prop}

theorem Chunk.Renamed.eq_rename {ρ : String → String}
    (hρ : ∀ name name', named name name' → ρ name' = name) {c c' : Chunk}
    (h : c.Renamed named c') : c = c'.rename ρ := by
  cases h with
  | text s => rfl
  | own h =>
      obtain rfl | ⟨name, rfl, -⟩ := h
      · rfl
      · rfl
  | lifted h => rw [rename, Mark.rename, hρ _ _ h]

theorem Chunk.eq_map_rename {ρ : String → String}
    (hρ : ∀ name name', named name name' → ρ name' = name) {chunks chunks' : List Chunk}
    (h : List.Forall₂ (Chunk.Renamed named) chunks chunks') :
    chunks = chunks'.map (Chunk.rename ρ) := by
  induction h with
  | nil => rfl
  | cons hc _ ih => rw [List.map_cons, ← ih, ← hc.eq_rename hρ]

/-- Every value that is lifted on the right has a name on the left. -/
theorem Chunk.named_of_mem {chunks chunks' : List Chunk}
    (h : List.Forall₂ (Chunk.Renamed named) chunks chunks') {name' : String}
    (hmem : .mark (.lifted name') ∈ chunks') : ∃ name, named name name' := by
  induction h with
  | nil => exact absurd hmem List.not_mem_nil
  | cons hc _ ih =>
      obtain heq | hrest := List.mem_cons.mp hmem
      · subst heq
        cases hc with
        | own h => obtain h | ⟨name, h, -⟩ := h <;> cases h
        | lifted h => exact ⟨_, h⟩
      · exact ih hrest

theorem Sql.mem_marks {sql : Sql} {m : Mark} : m ∈ sql.marks ↔ .mark m ∈ sql.chunks := by
  rw [marks, List.mem_filterMap]
  constructor
  · rintro ⟨chunk, hchunk, hmark⟩
    cases chunk with
    | text s => cases hmark
    | mark m' =>
        obtain rfl := Option.some.inj hmark
        exact hchunk
  · exact fun h => ⟨.mark m, h, rfl⟩

theorem isBone_of_identifierPart {c : Char} (h : Text.isIdentifierPart c = true) :
    isBone c = false := by
  obtain ⟨hparenthesis, hquote⟩ := unparenthesized_of (by decide) h
  have hblank : c ≠ ' ' := by
    rintro rfl
    exact absurd h (by decide)
  simp [isBone, hparenthesis, hquote, hblank]

theorem Mark.boneless_lifted {name : String} (h : Text.isIdentifier name = true) :
    ∀ c ∈ (lifted name).text.toList, isBone c = false := by
  intro c hc
  have hcons : c ∈ ':' :: name.toList := by simpa [Mark.text] using hc
  obtain rfl | hname := List.mem_cons.mp hcons
  · decide
  · exact isBone_of_identifierPart (Text.isIdentifierPart_of_mem h hname)

/-- Texts that differ in the names of lifted values only. -/
def Builtin.renaming (b : Builtin) (allowed : Bag → Prop)
    (hnamed : ∀ name name', named name name' →
      Text.isIdentifier name = true ∧ Text.isIdentifier name' = true) :
    Rewording (Build.steps (fun _ => False) allowed named) .all b where
  Rel _ _ a a' :=
    List.Forall₂ (Chunk.Renamed named) a.chunks a'.chunks ∧ SameShape a.render a'.render
  Whole a a' :=
    List.Forall₂ (Chunk.Renamed named) a.chunks a'.chunks ∧ SameShape a.render a'.render
  text _ := ⟨.cons (.text _) .nil, .refl _⟩
  nothing := ⟨.nil, .refl _⟩
  append ha hc := ⟨List.rel_append ha.1 hc.1, by
    rw [Sql.render_append, Sql.render_append]
    exact ha.2.append hc.2⟩
  raise h _ := h
  mark h := ⟨by rw [Mark.unname_nil]; exact .cons (.own h) .nil, by
    rw [Mark.unname_nil]
    exact .refl _⟩
  lifted h := ⟨.cons (.lifted h) .nil, by
    obtain ⟨hname, hname'⟩ := hnamed _ _ h
    rw [Sql.render_ofMark, Sql.render_ofMark]
    exact .of_boneless (Mark.boneless_lifted hname) (Mark.boneless_lifted hname')
      (by simp [Mark.text]) (by simp [Mark.text])⟩
  string _ _ _ := ⟨.cons (.text _) .nil, .refl _⟩
  field _ _ _ _ := ⟨.cons (.text _) .nil, .refl _⟩
  table _ := ⟨.cons (.text _) .nil, .refl _⟩
  label _ := ⟨.cons (.text _) .nil, .refl _⟩
  enclosed h := h.2.enclosed
  blank h := h.2.blank
  whole h := h
  wholeAppend ha hc := ⟨List.rel_append ha.1 hc.1, by
    rw [Sql.render_append, Sql.render_append]
    exact ha.2.append hc.2⟩
  group h := ⟨.cons (.text _) (List.rel_append h.1 (.cons (.text _) .nil)), by
    simpa using SameShape.group h.2.bones⟩

/-- Lists of lifted values that differ in the names only: there is a function from the names on the
right to those on the left. -/
theorem exists_renaming {lifts lifts' : List (String × Value)}
    (h : List.Forall₂ (fun l l' => l.2 = l'.2) lifts lifts') (hnodup : (lifts'.map (·.1)).Nodup) :
    ∃ ρ : String → String, lifts'.map (fun l => (ρ l.1, l.2)) = lifts := by
  induction h with
  | nil => exact ⟨id, rfl⟩
  | @cons first first' rest rest' hvalue _ ih =>
      rw [List.map_cons, List.nodup_cons] at hnodup
      obtain ⟨ρ, hρ⟩ := ih hnodup.2
      refine ⟨Function.update ρ first'.1 first.1, ?_⟩
      rw [List.map_cons, Function.update_self, ← hvalue, ← hρ]
      congr 1
      refine List.map_congr_left fun l hl => ?_
      have hne : l.1 ≠ first'.1 := fun heq => hnodup.1 (heq ▸ List.mem_map_of_mem hl)
      rw [Function.update_of_ne hne]

/-- A compilation that writes the same up to the names of lifted values writes, with a binder of its
own, the same text up to a renaming that is one to one, and binds the same values. -/
theorem Build.run_rename {steps : Build Sql} {allowed : Bag → Prop} {names : String → Prop}
    (hallowed : ∀ bag, allowed bag → ∀ entry ∈ bag.entries, names entry.1)
    (hsteps : ∀ named : String → String → Prop, (∀ name name', named name name' →
        Text.isIdentifier name = true ∧ Text.isIdentifier name' = true) →
      Paired (fun _ => False) allowed named
        (fun a a' => List.Forall₂ (Chunk.Renamed named) a.chunks a'.chunks) steps steps)
    {outer own after : Binder} (hserves : outer.Serves names own) {sql : Sql}
    (hrun : steps.run outer = (.ok sql, after)) :
    ∃ (alone : Sql) (after' : Binder) (ρ : String → String),
      steps.run own = (.ok alone, after') ∧ sql = alone.rename ρ ∧
      (∀ x y, .lifted x ∈ alone.marks → .lifted y ∈ alone.marks → ρ x = ρ y → x = y) ∧
      ∀ x, .lifted x ∈ alone.marks →
        ∃ v, after'.bag.get? x = some v ∧ after.bag.get? (ρ x) = some v := by
  have hidentifier : ∀ n, Text.isIdentifier (Binder.generatedName n) = true :=
    Binder.isIdentifier_generatedName
  obtain ⟨alone, after', hrun', -, hvalues⟩ := Paired.run_alone
    (fun m n => ⟨hidentifier m, hidentifier n⟩) hallowed
    (hsteps (fun name name' => Text.isIdentifier name = true ∧ Text.isIdentifier name' = true)
      fun _ _ h => h) hserves hrun
  obtain ⟨ρ, hρ⟩ := exists_renaming hvalues (lifts_nodup steps own)
  let named (name name' : String) : Prop :=
    ρ name' = name ∧ ∃ v, (name', v) ∈ steps.lifts own
  have houter : ∀ {name v}, (name, v) ∈ steps.lifts own → (ρ name, v) ∈ steps.lifts outer := by
    intro name v hmem
    rw [← hρ]
    exact List.mem_map.mpr ⟨(name, v), hmem, rfl⟩
  have hnamed : ∀ name name', named name name' →
      Text.isIdentifier name = true ∧ Text.isIdentifier name' = true := by
    rintro _ name' ⟨rfl, v, hmem⟩
    exact ⟨isIdentifier_of_lifts (houter hmem), isIdentifier_of_lifts hmem⟩
  have hpairs :
      List.Forall₂ (fun l l' => named l.1 l'.1) (steps.lifts outer) (steps.lifts own) := by
    rw [← hρ, List.forall₂_map_left_iff, List.forall₂_same]
    exact fun l hl => ⟨rfl, l.2, hl⟩
  have hrelated := (hsteps named hnamed).run_related hpairs hrun hrun'
  have hlifted : ∀ {x}, .lifted x ∈ alone.marks → ∃ v, (x, v) ∈ steps.lifts own := by
    intro x hx
    obtain ⟨_, -, hmem⟩ := Chunk.named_of_mem hrelated (Sql.mem_marks.mp hx)
    exact hmem
  refine ⟨alone, after', ρ, hrun', ?_, fun x y hx hy heq => ?_, fun x hx => ?_⟩
  · exact congrArg Sql.mk (Chunk.eq_map_rename (fun _ _ h => h.1) hrelated)
  · obtain ⟨v, hxv⟩ := hlifted hx
    obtain ⟨w, hyw⟩ := hlifted hy
    have hnodup := lifts_nodup steps outer
    rw [← hρ, List.map_map] at hnodup
    exact congrArg Prod.fst (List.inj_on_of_nodup_map hnodup hxv hyw heq)
  · obtain ⟨v, hxv⟩ := hlifted hx
    have hown := (lifts_spec steps own _ hxv).2
    have houter := (lifts_spec steps outer _ (houter hxv)).2
    rw [hrun'] at hown
    rw [hrun] at houter
    exact ⟨v, hown, houter⟩

namespace Query

/-- A text is that of a query compiled alone, up to a renaming of lifted values that is one to one;
each of them is held by a bag under the new name as it was under the old one. -/
def IsTextOf (d : Dialect) (q : Query) (params : Bag) (chunks : List Chunk) : Prop :=
  ∃ (alone : Sql) (own : Bag) (ρ : String → String),
    q.written d = .ok (alone, own) ∧ chunks = (alone.rename ρ).chunks ∧
    (∀ x y, .lifted x ∈ alone.marks → .lifted y ∈ alone.marks → ρ x = ρ y → x = y) ∧
    ∀ x, .lifted x ∈ alone.marks → ∃ v, own.get? x = some v ∧ params.get? (ρ x) = some v

theorem statement_renamed (b : Builtin) (q : Query) (hnamed : ∀ name name', named name name' →
    Text.isIdentifier name = true ∧ Text.isIdentifier name' = true) :
    Build.Paired (fun _ => False) (· ∈ q.nestedBags) named
      (fun a a' => List.Forall₂ (Chunk.Renamed named) a.chunks a'.chunks)
      ((prepared b.dialect q.statement).sql b.dialect)
      ((prepared b.dialect q.statement).sql b.dialect) := by
  have hrelated := prepared_related (b.renaming (· ∈ q.nestedBags) hnamed).toWording q.uses_all
    fun _ hbag => Build.Paired.merge hbag
  exact Build.Pairing.mono _ hrelated fun _ _ h => h.1

theorem written_of_runs {d : Dialect} {q : Query} {reserved after : Binder} {sql : Sql}
    (hreserve : (reserve q.nestedBags).run (Binder.ofBag q.bound) = (.ok (), reserved))
    (hrun : ((prepared d q.statement).sql d).run reserved = (.ok sql, after)) :
    q.written d = .ok (sql, after.bag) := by
  rw [written, compileSteps, Build.run_bind, hreserve]
  simp only [hrun]

/-- Wherever a nested query is written inside the outer one, its text is that of the query alone. -/
theorem NestedIn.isTextOf {inner q : Query} (h : inner.NestedIn q) (b : Builtin)
    {reserved binder after : Binder} {sql : Sql} {params : Bag}
    (hreserve : (reserve q.nestedBags).run (Binder.ofBag q.bound) = (.ok (), reserved))
    (hwithin : reserved.bag.Within binder.bag)
    (hrun : ((prepared b.dialect inner.statement).sql b.dialect).run binder = (.ok sql, after))
    (hparams : after.bag.Within params) : inner.IsTextOf b.dialect params sql.chunks := by
  obtain ⟨start, hstart, hserves⟩ := h.reserve_alone hreserve
  obtain ⟨alone, after', ρ, hrun', rfl, hinj, hvalues⟩ := Build.run_rename isBound_of_nestedBags
    (fun _ hnamed => statement_renamed b inner hnamed) (hserves.within hwithin) hrun
  refine ⟨alone, after'.bag, ρ, written_of_runs hstart hrun', rfl, hinj, fun x hx => ?_⟩
  obtain ⟨v, hown, houter⟩ := hvalues x hx
  exact ⟨v, hown, hparams _ _ houter⟩

end Query

end QueryCompiler
