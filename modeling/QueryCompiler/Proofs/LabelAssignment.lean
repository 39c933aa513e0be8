import Mathlib.Data.List.DropRight
import Mathlib.Data.List.Duplicate
import Mathlib.Data.List.ReduceOption
import Mathlib.Order.Bounds.Defs
import QueryCompiler.Compile.Label
import QueryCompiler.Proofs.BinderGrowth
import QueryCompiler.Proofs.ClauseText
import QueryCompiler.Proofs.NameReading
import QueryCompiler.Proofs.TableNames

/-!
# The assignment of labels

Labels are refused only where one is written out twice. Otherwise every table has its slot, labels
that are written out stay where they are, and all labels differ: a label that is made up is searched
among everything written out and everything made up for the tables before. `assign_getElem?` says
what stands in a slot, and what was in use when it was filled.
-/
namespace QueryCompiler

variable {ν : Type}

/-- The labels that are written out, table by table. -/
def Statement.givenLabels (s : Statement ν) : List String := s.allTables.filterMap TableRef.label

/-- A search from zero ends at the least number whose name is free. -/
theorem Search.isLeast {taken : String → Bool} {name : Nat → String} {n : Nat}
    (h : Search taken name 0 n) : IsLeast {m | taken (name m) = false} n := by
  refine ⟨h.free, fun m hm => ?_⟩
  by_contra hlt
  have hused := h.used_below (Nat.zero_le m) (Nat.lt_of_not_le hlt)
  have hfree : taken (name m) = false := hm
  simp [hused] at hfree

/-- Trimming takes characters of a class from both ends, until others stand there. -/
theorem Text.exists_trimmed (drop : Char → Bool) (s : String) : ∃ opening closing : String,
    s = opening ++ trim drop s ++ closing ∧
      (∀ c ∈ (opening ++ closing).toList, drop c = true) ∧
      (∀ c ∈ (trim drop s).toList.head?, drop c = false) ∧
      ∀ c ∈ (trim drop s).toList.getLast?, drop c = false := by
  let inner := s.toList.dropWhile drop
  have htrim : (trim drop s).toList = inner.rdropWhile drop := String.toList_ofList
  refine ⟨String.ofList (s.toList.takeWhile drop), String.ofList (inner.rtakeWhile drop),
    ?_, ?_, ?_, ?_⟩
  · apply String.toList_injective
    rw [String.toList_append, String.toList_append, htrim, String.toList_ofList,
      String.toList_ofList, List.append_assoc, List.rdropWhile_append_rtakeWhile,
      List.takeWhile_append_dropWhile]
  · intro c hc
    rw [String.toList_append, String.toList_ofList, String.toList_ofList] at hc
    rcases List.mem_append.mp hc with hfront | hback
    · exact List.mem_takeWhile_imp hfront
    · exact List.mem_rtakeWhile_imp hback
  · intro c hc
    rw [htrim] at hc
    obtain ⟨rest, hrest⟩ : inner.rdropWhile drop <+: inner := List.rdropWhile_prefix drop _
    have hhead : inner.head? = some c := by
      rw [← hrest, List.head?_append, hc, Option.some_or]
    have hnot := List.head?_dropWhile_not drop s.toList
    rw [hhead] at hnot
    exact hnot
  · intro c hc
    rw [htrim] at hc
    have hne : inner.rdropWhile drop ≠ [] := by
      intro hnil
      rw [hnil] at hc
      cases hc
    have hlast := List.rdropWhile_last_not drop inner hne
    obtain rfl : (inner.rdropWhile drop).getLast hne = c := by
      rw [List.getLast?_eq_some_getLast hne] at hc
      exact Option.some.inj hc
    exact Bool.eq_false_iff.mpr hlast

namespace Labels

/-- The labels of all tables, those of the joins behind those of FROM. -/
def slots (labels : Labels) : List (Option String) := labels.tables ++ labels.joins

theorem numbered_ne_base (base : String) {n : Nat} (hn : n ≠ 0) : numbered base n ≠ base := by
  intro h
  have hdigits := congrArg String.toList h
  simp [numbered, hn, Nat.toDigits_ne_nil] at hdigits

theorem numbered_injective (base : String) : Function.Injective (numbered base) := by
  intro m n h
  have hzero : numbered base 0 = base := rfl
  by_cases hm : m = 0 <;> by_cases hn : n = 0
  · rw [hm, hn]
  · subst hm
    exact absurd (h.symm.trans hzero) (numbered_ne_base base hn)
  · subst hn
    exact absurd (h.trans hzero) (numbered_ne_base base hm)
  · apply Binder.generatedName_injective
    simpa [numbered, hm, hn, Binder.generatedName] using h

/-- An unused label is found by counting upwards without a bound. -/
theorem unused_search (taken : List String) (base : String) :
    ∃ n, Search taken.contains (numbered base) 0 n ∧ unused taken base = numbered base n := by
  have hused : ∀ s, taken.contains s = true → s ∈ taken := fun s hs => List.contains_iff_mem.mp hs
  exact ⟨_, firstFree_search_of_used (numbered_injective base) hused (Nat.le_refl _) 0, rfl⟩

theorem unused_not_mem (taken : List String) (base : String) : unused taken base ∉ taken := by
  obtain ⟨n, hsearch, hn⟩ := unused_search taken base
  have hfree := hsearch.free
  rw [hn]
  simpa using hfree

/-! Labels that are written out. -/

/-- Reserving ends with all labels that are written out, or at one that came before. -/
theorem reserve_cases {taken : List String} (htaken : taken.Nodup) (tables : List (TableRef ν)) :
    (∃ all, reserve taken tables = .ok all ∧ (taken ++ tables.filterMap TableRef.label).Nodup ∧
        ∀ s, s ∈ all ↔ s ∈ taken ∨ s ∈ tables.filterMap TableRef.label) ∨
      ∃ label, reserve taken tables = .error (.duplicateAlias label) ∧
        List.Duplicate label (taken ++ tables.filterMap TableRef.label) := by
  induction tables generalizing taken with
  | nil => exact .inl ⟨taken, rfl, by simpa using htaken, by simp⟩
  | cons t rest ih =>
      cases hlabel : t.label with
      | none => simpa [reserve, hlabel] using ih htaken
      | some label =>
          have hmiddle : (taken ++ label :: rest.filterMap TableRef.label).Perm
              (label :: taken ++ rest.filterMap TableRef.label) := List.perm_middle
          simp only [reserve, hlabel, List.filterMap_cons]
          by_cases hin : label ∈ taken
          · refine .inr ⟨label, by simp [hin], ?_⟩
            rw [List.duplicate_iff_two_le_count, hmiddle.count_eq]
            have hcount := List.count_pos_iff.mpr hin
            simp only [List.cons_append, List.count_cons_self, List.count_append]
            omega
          · rw [if_neg (by simpa using hin)]
            obtain ⟨all, hall, hnodup, hmem⟩ | ⟨twice, hfault, htwice⟩ :=
              ih (List.nodup_cons.mpr ⟨hin, htaken⟩)
            · refine .inl ⟨all, hall, hmiddle.nodup_iff.mpr hnodup, fun s => ?_⟩
              rw [hmem]
              simp only [List.mem_cons]
              tauto
            · refine .inr ⟨twice, hfault, ?_⟩
              rwa [List.duplicate_iff_two_le_count, hmiddle.count_eq,
                ← List.duplicate_iff_two_le_count]

/-! Slots. -/

/-- What stands in the slot of a table, given the labels in use. -/
def slot (multi : Bool) (used : List String) (t : TableRef ν) : Option String :=
  match t.label with
  | some label => some label
  | none => if needsLabel multi t then some (unused used (baseName t)) else none

theorem slot_of_label {multi : Bool} {used : List String} {t : TableRef ν} {label : String}
    (h : t.label = some label) : slot multi used t = some label := by
  rw [slot, h]

/-- The labels in use once a table has its own. -/
theorem assign_cons (multi : Bool) (taken : List String) (t : TableRef ν)
    (rest : List (TableRef ν)) : ∃ taken', (∀ s, s ∈ taken' ↔
        s ∈ taken ∨ t.label = none ∧ slot multi taken t = some s) ∧
      assign multi taken (t :: rest) = slot multi taken t :: assign multi taken' rest := by
  cases hlabel : t.label with
  | some label => exact ⟨taken, by simp, by simp [assign, slot, hlabel]⟩
  | none =>
      by_cases hneeds : needsLabel multi t = true
      · refine ⟨unused taken (baseName t) :: taken, ?_, by simp [assign, slot, hlabel, hneeds]⟩
        intro s
        simp [slot, hlabel, hneeds, or_comm, eq_comm]
      · exact ⟨taken, by simp [slot, hlabel, hneeds], by simp [assign, slot, hlabel, hneeds]⟩

theorem length_assign (multi : Bool) (taken : List String) (tables : List (TableRef ν)) :
    (assign multi taken tables).length = tables.length := by
  induction tables generalizing taken with
  | nil => rfl
  | cons t rest ih =>
      obtain ⟨taken', -, hassign⟩ := assign_cons multi taken t rest
      rw [hassign, List.length_cons, List.length_cons, ih]

/-- The slot of a table is filled when the labels written out and those in the slots before are in
use, and no others. -/
theorem assign_getElem? (multi : Bool) {taken : List String} {tables : List (TableRef ν)}
    (hgiven : ∀ label ∈ tables.filterMap TableRef.label, label ∈ taken) {i : Nat} {t : TableRef ν}
    (h : tables[i]? = some t) : ∃ used,
      (∀ s, s ∈ used ↔ s ∈ taken ∨ some s ∈ (assign multi taken tables).take i) ∧
      (assign multi taken tables)[i]? = some (slot multi used t) := by
  induction tables generalizing taken i with
  | nil => cases h
  | cons first rest ih =>
      obtain ⟨taken', htaken', hassign⟩ := assign_cons multi taken first rest
      rw [hassign]
      cases i with
      | zero =>
          obtain rfl : first = t := by simpa using h
          exact ⟨taken, by simp, by simp⟩
      | succ i =>
          have hrest : ∀ label ∈ rest.filterMap TableRef.label, label ∈ taken' := by
            intro label hlabel
            obtain ⟨u, hu, hul⟩ := List.mem_filterMap.mp hlabel
            refine (htaken' label).mpr (.inl (hgiven label ?_))
            exact List.mem_filterMap.mpr ⟨u, List.mem_cons_of_mem first hu, hul⟩
          obtain ⟨used, hused, hslot⟩ := ih hrest (i := i) (by simpa using h)
          refine ⟨used, fun s => ?_, by simpa using hslot⟩
          rw [hused, htaken', List.take_succ_cons, List.mem_cons, or_assoc]
          -- a label that is written out is in use from the start
          have hfirst : some s = slot multi taken first → s ∈ taken ∨ first.label = none := by
            intro hs
            cases hlabel : first.label with
            | none => exact .inr rfl
            | some label =>
                rw [slot_of_label hlabel] at hs
                refine .inl (hgiven s (List.mem_filterMap.mpr ⟨first, List.mem_cons_self, ?_⟩))
                rw [hlabel, hs]
          constructor
          · rintro (hs | ⟨-, hs⟩ | hs)
            · exact .inl hs
            · exact .inr (.inl hs.symm)
            · exact .inr (.inr hs)
          · rintro (hs | hs | hs)
            · exact .inl hs
            · exact (hfirst hs).imp id fun hnone => .inl ⟨hnone, hs.symm⟩
            · exact .inr (.inr hs)

/-- Once several tables are visible each of them has a label. -/
theorem isSome_of_mem_assign {taken : List String} {tables : List (TableRef ν)}
    {label : Option String} (h : label ∈ assign true taken tables) : label.isSome = true := by
  induction tables generalizing taken with
  | nil => exact absurd h List.not_mem_nil
  | cons t rest ih =>
      obtain ⟨taken', -, hassign⟩ := assign_cons true taken t rest
      rw [hassign] at h
      obtain rfl | h := List.mem_cons.mp h
      · cases hlabel : t.label <;> simp [slot, hlabel, needsLabel]
      · exact ih h

/-- A label is written out, or it was made up and not in use. -/
theorem mem_assign {multi : Bool} {taken : List String} {tables : List (TableRef ν)}
    {label : String} (h : some label ∈ assign multi taken tables) :
    label ∈ tables.filterMap TableRef.label ∨ label ∉ taken := by
  induction tables generalizing taken with
  | nil => exact absurd h List.not_mem_nil
  | cons t rest ih =>
      obtain ⟨taken', htaken', hassign⟩ := assign_cons multi taken t rest
      rw [hassign] at h
      obtain h | h := List.mem_cons.mp h
      · cases hlabel : t.label with
        | some given =>
            rw [slot_of_label hlabel] at h
            exact .inl (List.mem_filterMap.mpr ⟨t, List.mem_cons_self, by rw [hlabel, h]⟩)
        | none =>
            by_cases hneeds : needsLabel multi t = true
            · have hunused : label = unused taken (baseName t) := by
                simpa [slot, hlabel, hneeds] using h
              exact .inr (hunused ▸ unused_not_mem taken (baseName t))
            · simp [slot, hlabel, hneeds] at h
      · refine (ih h).imp (fun hmem => ?_) fun hfree hmem => hfree ((htaken' label).mpr (.inl hmem))
        obtain ⟨u, hu, hul⟩ := List.mem_filterMap.mp hmem
        exact List.mem_filterMap.mpr ⟨u, List.mem_cons_of_mem t hu, hul⟩

theorem nodup_assign {multi : Bool} {taken : List String} {tables : List (TableRef ν)}
    (hgiven : ∀ label ∈ tables.filterMap TableRef.label, label ∈ taken)
    (hnodup : (tables.filterMap TableRef.label).Nodup) :
    (assign multi taken tables).reduceOption.Nodup := by
  induction tables generalizing taken with
  | nil => exact List.nodup_nil
  | cons t rest ih =>
      obtain ⟨taken', htaken', hassign⟩ := assign_cons multi taken t rest
      have hsub : (rest.filterMap TableRef.label).Sublist ((t :: rest).filterMap TableRef.label) :=
        (List.sublist_cons_self t rest).filterMap _
      have hrest : (assign multi taken' rest).reduceOption.Nodup :=
        ih (fun label hlabel => (htaken' label).mpr (.inl (hgiven label (hsub.subset hlabel))))
          (hnodup.sublist hsub)
      rw [hassign]
      cases hslot : slot multi taken t with
      | none => simpa using hrest
      | some label =>
          rw [List.reduceOption_cons_of_some]
          refine List.nodup_cons.mpr ⟨fun hmem => ?_, hrest⟩
          have hlater := mem_assign (List.reduceOption_mem_iff.mp hmem)
          cases hlabel : t.label with
          | some given =>
              obtain rfl : given = label := by
                rw [slot_of_label hlabel] at hslot
                exact Option.some.inj hslot
              rw [List.filterMap_cons, hlabel] at hnodup
              obtain hlater | hfree := hlater
              · exact (List.nodup_cons.mp hnodup).1 hlater
              · exact hfree ((htaken' _).mpr (.inl (hgiven _ (by simp [hlabel]))))
          | none =>
              have hin : label ∈ taken' := (htaken' label).mpr (.inr ⟨hlabel, hslot⟩)
              obtain hlater | hfree := hlater
              · have hfresh : label ∉ taken := by
                  by_cases hneeds : needsLabel multi t = true
                  · have hunused : unused taken (baseName t) = label := by
                      simpa [slot, hlabel, hneeds] using hslot
                    exact hunused ▸ unused_not_mem taken (baseName t)
                  · simp [slot, hlabel, hneeds] at hslot
                exact hfresh (hgiven label (hsub.subset hlater))
              · exact hfree hin

/-! The labels of a statement. -/

/-- Labels are resolved unless one is written out twice. -/
theorem resolve_cases (s : Statement ν) :
    (∃ taken, (∀ label, label ∈ taken ↔ label ∈ s.givenLabels) ∧ s.givenLabels.Nodup ∧
        resolve s = .ok
          ⟨(assign (1 < s.tables.length || !s.joins.isEmpty) taken s.allTables).take s.tables.length,
            (assign (1 < s.tables.length || !s.joins.isEmpty) taken s.allTables).drop
              s.tables.length, 1 < s.tables.length || !s.joins.isEmpty⟩) ∨
      ∃ label, resolve s = .error (.duplicateAlias label) ∧
        List.Duplicate label s.givenLabels := by
  obtain ⟨taken, htaken, hnodup, hmem⟩ | ⟨label, hfault, htwice⟩ :=
    reserve_cases List.nodup_nil s.allTables
  · refine .inl ⟨taken, fun label => ?_, hnodup, ?_⟩
    · rw [hmem]
      simp [Statement.givenLabels]
    · rw [resolve, htaken]
      rfl
  · refine .inr ⟨label, ?_, htwice⟩
    rw [resolve, hfault]
    rfl

theorem resolve_ok {s : Statement ν} {labels : Labels} (h : resolve s = .ok labels) :
    labels.tables.length = s.tables.length ∧ labels.joins.length = s.joins.length ∧
      labels.multi = (1 < s.tables.length || !s.joins.isEmpty) ∧
      ∃ taken, (∀ label, label ∈ taken ↔ label ∈ s.givenLabels) ∧ s.givenLabels.Nodup ∧
        labels.slots = assign labels.multi taken s.allTables := by
  obtain ⟨taken, htaken, hnodup, hok⟩ | ⟨label, hfault, -⟩ := resolve_cases s
  · obtain rfl := Except.ok.inj (hok.symm.trans h)
    refine ⟨?_, ?_, rfl, taken, htaken, hnodup, by simp [slots]⟩
    · simp [length_assign, Statement.allTables]
    · simp [length_assign, Statement.allTables]
  · cases hfault.symm.trans h

theorem length_tables {s : Statement ν} {labels : Labels} (h : resolve s = .ok labels) :
    labels.tables.length = s.tables.length :=
  (resolve_ok h).1

theorem tables_cons {s : Statement ν} {labels : Labels} (h : resolve s = .ok labels)
    {t : TableRef ν} {rest : List (TableRef ν)} (htables : s.tables = t :: rest) :
    ∃ label others, labels.tables = label :: others :=
  List.exists_cons_of_length_eq_add_one
    ((length_tables h).trans (congrArg List.length htables))

theorem resolve_several {s : Statement ν} {labels : Labels} (h : resolve s = .ok labels)
    (hseveral : 1 < s.allTables.length) :
    labels.multi = true ∧ ∀ label ∈ labels.tables ++ labels.joins, label.isSome = true := by
  obtain ⟨-, -, hmulti, taken, -, -, hslots⟩ := resolve_ok h
  have hmulti : labels.multi = true := by
    rw [hmulti, Bool.or_eq_true, decide_eq_true_iff, Bool.not_eq_true',
      List.isEmpty_eq_false_iff_exists_mem]
    rw [Statement.allTables, List.length_append, List.length_map] at hseveral
    by_cases hjoins : s.joins = []
    · exact .inl (by simpa [hjoins] using hseveral)
    · exact .inr (List.exists_mem_of_ne_nil _ hjoins)
  rw [hmulti] at hslots
  refine ⟨hmulti, fun label hlabel => ?_⟩
  have hslot : label ∈ assign true taken s.allTables := hslots ▸ hlabel
  exact isSome_of_mem_assign hslot

/-- A short name is the last part of a name between dots, without the quotes at its ends. -/
theorem exists_shortName (name : String) : ∃ front opening closing : String,
    name = front ++ (opening ++ shortName name ++ closing) ∧
      (front = "" ∨ front.toList.getLast? = some '.') ∧
      '.' ∉ (opening ++ shortName name ++ closing).toList ∧
      (∀ c ∈ (opening ++ closing).toList, c = '"' ∨ c = '\x60') ∧
      (∀ c ∈ (shortName name).toList.head?, c ≠ '"' ∧ c ≠ '\x60') ∧
      ∀ c ∈ (shortName name).toList.getLast?, c ≠ '"' ∧ c ≠ '\x60' := by
  obtain ⟨last, hlast⟩ : ∃ last, (Text.dotParts name).getLast? = some last :=
    ⟨_, List.getLast?_eq_some_getLast (dotParts_ne_nil name)⟩
  obtain ⟨front, hname, hfront⟩ := Text.intercalate_last hlast
  obtain ⟨opening, closing, htext, hquotes, hhead, hend⟩ :=
    Text.exists_trimmed (fun c => c == '"' || c == '\x60') last
  have hshort : shortName name = Text.trim (fun c => c == '"' || c == '\x60') last := by
    rw [shortName, hlast, Option.getD_some]
  rw [Text.intercalate_dotParts] at hname
  rw [← hshort] at htext hhead hend
  refine ⟨front, opening, closing, ?_, hfront.imp_left And.left, ?_, ?_, ?_, ?_⟩
  · rw [← htext, hname]
  · rw [← htext]
    exact not_dot_mem_part (List.mem_of_getLast? hlast)
  · simpa using hquotes
  · simpa using hhead
  · simpa using hend

/-- What a label is made of: the short name of a table, and a word of its own for nested queries. -/
theorem baseName_eq (t : TableRef ν) : baseName t = (t.name?.map shortName).getD "sub" := by
  obtain ⟨source, label, info⟩ := t
  cases source <;> rfl

/-- What holds of the labels of a statement, table by table. -/
structure Complete (s : Statement ν) (labels : Labels) : Prop where
  /-- One slot for each table of FROM. -/
  tables : labels.tables.length = s.tables.length
  /-- One slot for each join. -/
  joins : labels.joins.length = s.joins.length
  /-- A label that is written out stays in its own slot. -/
  given : ∀ (i : Nat) (t : TableRef ν) (label : String), s.allTables[i]? = some t → t.label = some label →
    labels.slots[i]? = some (some label)
  distinct : labels.slots.reduceOption.Nodup
  several : 1 < s.allTables.length → ∀ label ∈ labels.slots, label.isSome = true
  /-- A nested query always has a label. -/
  nested : ∀ (i : Nat) (t : TableRef ν), s.allTables[i]? = some t → t.name? = none →
    ∃ label, labels.slots[i]? = some (some label)
  /-- Any other label is the base name with the least number, none standing for zero, that makes it
  differ from all labels written out and from those in the slots before. The search for that number
  comes to an end. -/
  derived : ∀ (i : Nat) (t : TableRef ν) (label : String), s.allTables[i]? = some t → t.label = none →
    labels.slots[i]? = some (some label) →
      ∃ n, label = numbered (baseName t) n ∧
        Search (s.givenLabels ++ (labels.slots.take i).reduceOption).contains
          (numbered (baseName t)) 0 n ∧
        IsLeast {m | numbered (baseName t) m ∉
          s.givenLabels ++ (labels.slots.take i).reduceOption} n

theorem resolve_complete {s : Statement ν} {labels : Labels} (h : resolve s = .ok labels) :
    labels.Complete s := by
  obtain ⟨htables, hjoins, -, taken, htaken, hnodup, hslots⟩ := resolve_ok h
  have hgiven : ∀ label ∈ s.allTables.filterMap TableRef.label, label ∈ taken :=
    fun label hlabel => (htaken label).mpr hlabel
  refine ⟨htables, hjoins, ?_, ?_, fun hseveral => (resolve_several h hseveral).2, ?_, ?_⟩
  case refine_1 =>
    intro i t label ht hlabel
    obtain ⟨used, -, hslot⟩ := assign_getElem? labels.multi hgiven ht
    rw [hslots, hslot, slot_of_label hlabel]
  case refine_2 =>
    rw [hslots]
    exact nodup_assign hgiven hnodup
  case refine_3 =>
    intro i t ht hname
    obtain ⟨used, -, hslot⟩ := assign_getElem? labels.multi hgiven ht
    rw [hslots, hslot]
    cases hlabel : t.label <;> simp [slot, hlabel, needsLabel, hname]
  case refine_4 =>
    intro i t label ht hnone hlabel
    obtain ⟨used, hused, hslot⟩ := assign_getElem? labels.multi hgiven ht
    have hin : used.contains =
        (s.givenLabels ++ (labels.slots.take i).reduceOption).contains := by
      funext name
      rw [Bool.eq_iff_iff, List.contains_iff_mem, List.contains_iff_mem, hused, ← hslots,
        List.mem_append, List.reduceOption_mem_iff, htaken]
    have hmade : label = unused used (baseName t) := by
      rw [hslots, hslot, slot, hnone] at hlabel
      by_cases hneeds : needsLabel labels.multi t = true
      · simpa [hneeds, eq_comm] using hlabel
      · simp [hneeds] at hlabel
    obtain ⟨n, hsearch, hn⟩ := unused_search used (baseName t)
    rw [hin] at hsearch
    refine ⟨n, hmade.trans hn, hsearch, ?_⟩
    have hleast := hsearch.isLeast
    simpa only [List.contains_eq_mem, decide_eq_false_iff_not] using hleast

end Labels

namespace Query

/-- Labels are refused exactly where two tables carry the same one, and the fault names such a
label. All other labels are complete and distinct. -/
theorem labels_complete (q : Query) :
    (∀ fault, Labels.resolve q.statement = .error fault →
        ∃ label, fault = .duplicateAlias label ∧ List.Duplicate label q.statement.givenLabels) ∧
      ((∃ fault, Labels.resolve q.statement = .error fault) ↔
        ∃ label, List.Duplicate label q.statement.givenLabels) ∧
      ∀ labels, Labels.resolve q.statement = .ok labels → labels.Complete q.statement := by
  obtain ⟨taken, -, hnodup, hok⟩ | ⟨label, hfault, htwice⟩ := Labels.resolve_cases q.statement
  · refine ⟨fun fault h => ?_, ⟨fun ⟨fault, h⟩ => ?_, fun hlabel => ?_⟩, fun _ =>
      Labels.resolve_complete⟩
    · cases hok.symm.trans h
    · cases hok.symm.trans h
    · exact absurd hnodup (List.exists_duplicate_iff_not_nodup.mp hlabel)
  · refine ⟨fun fault h => ⟨label, ?_, htwice⟩, ⟨fun _ => ⟨label, htwice⟩, fun _ => ⟨_, hfault⟩⟩,
      fun _ => Labels.resolve_complete⟩
    exact (Except.error.inj (hfault.symm.trans h)).symm

/-- A label that is written out behind two tables of one name is left to its table. -/
example : (Labels.resolve ({ Statement.empty with
    tables := [.named "app.users", .named "users"],
    joins := [⟨(TableRef.named "teams").withLabel "users1", "cross", none⟩] } :
      Statement Query)).toOption =
    some ⟨[some "users", some "users2"], [some "users1"], true⟩ := by
  decide +kernel

end Query

end QueryCompiler
