import QueryCompiler.Proofs.NameReading
import QueryCompiler.Proofs.WrittenText

/-!
# Lists in SQL text

A list is cut at its commas outside quotes and parentheses, and the blanks in front of an entry are
not part of it. Texts without delimiters outside quotes are read back from the list that they are
joined to, and so are lists of such texts in parentheses.
-/
namespace QueryCompiler

open Text (isQuote openQuote)

namespace SqlList

/-- The open parentheses behind a character outside quotes. -/
def depthAfter (depth : Nat) (c : Char) : Nat :=
  if c = '(' then depth + 1 else if c = ')' then depth - 1 else depth

/-- Cut a text at the commas outside quotes and parentheses. -/
def cut : Option Char → Nat → List Char → List (List Char)
  | _, _, [] => [[]]
  | some quote, depth, c :: rest =>
    Field.extendFirst c (cut (openQuote (some quote) c) depth rest)
  | none, depth, c :: rest =>
    if depth = 0 ∧ c = ',' then [] :: cut none 0 rest
    else Field.extendFirst c (cut (openQuote none c) (depthAfter depth c) rest)

/-- The entries of a list; an empty text has none. -/
def entries (s : String) : List String :=
  if s.isEmpty then []
  else (cut none 0 s.toList).map fun part => String.ofList (part.dropWhile (· == ' '))

/-- What stands between the parentheses around a text. -/
def inner (s : String) : String := String.ofList (s.toList.drop 1).dropLast

/-- The entries of the lists in parentheses of which a list consists. -/
def rows (s : String) : List (List String) := (entries s).map fun row => entries (inner row)

/-- Put a text in front of the first entry. -/
def prepend (cs : List Char) (parts : List (List Char)) : List (List Char) :=
  cs.foldr Field.extendFirst parts

theorem prepend_cons (cs part : List Char) (parts : List (List Char)) :
    prepend cs (part :: parts) = (cs ++ part) :: parts := by
  induction cs with
  | nil => rfl
  | cons c rest ih =>
      rw [prepend, List.foldr_cons]
      rw [prepend] at ih
      rw [ih]
      rfl

/-- A character at which a list is cut under some parentheses, or that opens or closes one. -/
def isBreak (depth : Nat) (c : Char) : Bool := c == '(' || c == ')' || (depth == 0 && c == ',')

/-- A text without such characters outside quotes is part of one entry. -/
theorem cut_quiet {depth : Nat} {quote : Option Char} {cs : List Char}
    (h : quietFrom (isBreak depth) quote cs = true) (rest : List Char) :
    cut quote depth (cs ++ rest) = prepend cs (cut none depth rest) := by
  induction cs generalizing quote with
  | nil =>
      obtain rfl : quote = none := by simpa [quietFrom] using h
      rfl
  | cons c cs ih =>
      cases quote with
      | some quote =>
          rw [List.cons_append, cut, ih h]
          rfl
      | none =>
          simp only [quietFrom, isBreak, Bool.and_eq_true, Bool.not_eq_true', Bool.or_eq_false_iff,
            beq_eq_false_iff_ne] at h
          obtain ⟨⟨⟨hopen, hclose⟩, hcomma⟩, hrest⟩ := h
          have hcut : ¬ (depth = 0 ∧ c = ',') := by simpa using hcomma
          have hdepth : depthAfter depth c = depth := by simp [depthAfter, hopen, hclose]
          rw [List.cons_append, cut, if_neg hcut, hdepth, ih hrest]
          rfl

/-- An entry: it is not empty, does not start with a blank, and is passed over as a whole. -/
structure IsEntry (s : String) : Prop where
  nonempty : s.toList ≠ []
  unindented : s.toList.head? ≠ some ' '
  passed : ∀ rest, cut none 0 (s.toList ++ rest) = prepend s.toList (cut none 0 rest)

theorem IsEntry.dropWhile {s : String} (h : IsEntry s) :
    s.toList.dropWhile (· == ' ') = s.toList := by
  obtain ⟨c, rest, hs⟩ := List.exists_cons_of_ne_nil h.nonempty
  have hc : c ≠ ' ' := fun hc => h.unindented (by rw [hs, hc]; rfl)
  rw [hs, List.dropWhile_cons_of_neg (by simpa using hc)]

theorem cut_ne_nil (quote : Option Char) (depth : Nat) (cs : List Char) :
    cut quote depth cs ≠ [] := by
  have hextend : ∀ (c : Char) (parts : List (List Char)), Field.extendFirst c parts ≠ [] := by
    intro c parts
    cases parts <;> exact List.cons_ne_nil _ _
  cases cs with
  | nil => exact List.cons_ne_nil _ _
  | cons c rest =>
      cases quote with
      | some quote => exact hextend _ _
      | none =>
          rw [cut]
          split
          · exact List.cons_ne_nil _ _
          · exact hextend _ _

/-- A blank behind a comma is not part of an entry. -/
theorem cut_blank (cs : List Char) : (cut none 0 (' ' :: cs)).map (·.dropWhile (· == ' ')) =
    (cut none 0 cs).map (·.dropWhile (· == ' ')) := by
  have hblank : cut none 0 (' ' :: cs) = Field.extendFirst ' ' (cut none 0 cs) := rfl
  obtain ⟨part, others, hcut⟩ := List.exists_cons_of_ne_nil (cut_ne_nil none 0 cs)
  rw [hblank, hcut, Field.extendFirst, List.map_cons, List.map_cons, List.dropWhile_cons_of_pos rfl]

theorem cut_intercalate {parts : List String} (hne : parts ≠ [])
    (h : ∀ part ∈ parts, IsEntry part) :
    (cut none 0 (", ".intercalate parts).toList).map (·.dropWhile (· == ' ')) =
      parts.map String.toList := by
  induction parts with
  | nil => exact absurd rfl hne
  | cons part rest ih =>
      obtain ⟨hpart, hrest⟩ := List.forall_mem_cons.mp h
      cases rest with
      | nil =>
          have hsingle := hpart.passed []
          rw [List.append_nil, cut, prepend_cons, List.append_nil] at hsingle
          simp [hsingle, hpart.dropWhile]
      | cons next rest =>
          have htext : (", ".intercalate (part :: next :: rest)).toList =
              part.toList ++ ',' :: ' ' :: (", ".intercalate (next :: rest)).toList := by
            rw [String.intercalate_cons_cons, String.toList_append, String.toList_append,
              List.append_assoc]
            rfl
          rw [htext, hpart.passed, cut, if_pos ⟨rfl, rfl⟩, prepend_cons, List.append_nil,
            List.map_cons, hpart.dropWhile, cut_blank, ih (List.cons_ne_nil _ _) hrest]
          rfl

/-- A list is read back entry by entry. -/
theorem entries_intercalate {parts : List String} (h : ∀ part ∈ parts, IsEntry part) :
    entries (", ".intercalate parts) = parts := by
  cases parts with
  | nil => rfl
  | cons part rest =>
      have hcut := cut_intercalate (List.cons_ne_nil part rest) h
      have hne : (", ".intercalate (part :: rest)).isEmpty = false := by
        rw [Bool.eq_false_iff, ne_eq, String.isEmpty_iff]
        intro hempty
        rw [hempty, String.toList_empty, cut, List.map_singleton] at hcut
        exact (h part List.mem_cons_self).nonempty (List.cons.inj hcut).1.symm
      have hmap := congrArg (List.map String.ofList) hcut
      rw [entries, hne]
      simpa [Function.comp_def] using hmap

/-- Delimiters break a list at most. -/
theorem quiet_isBreak {s : String} (h : Quiet isDelimiter s) (depth : Nat) :
    Quiet (isBreak depth) s := by
  refine quiet_mono (fun c hc => ?_) h
  simp only [isDelimiter, Bool.or_eq_false_iff] at hc
  simp [isBreak, hc]

/-- A text without delimiters outside quotes is an entry. -/
theorem isEntry_of_quiet {s : String} (hne : s ≠ "") (h : Quiet isDelimiter s) : IsEntry s where
  nonempty hnil := hne (String.toList_eq_nil_iff.mp hnil)
  unindented hblank := by
    obtain ⟨rest, hs⟩ := List.head?_eq_some_iff.mp hblank
    rw [Quiet, hs, quietFrom] at h
    cases h
  passed rest := cut_quiet (quiet_isBreak h 0) rest

/-- A list in parentheses is an entry of a list. -/
theorem isEntry_row {parts : List String} (h : ∀ part ∈ parts, Quiet isDelimiter part) :
    IsEntry ("(" ++ ", ".intercalate parts ++ ")") := by
  have hinner : Quiet (isBreak 1) (", ".intercalate parts) :=
    quiet_intercalate (by decide) fun part hpart => quiet_isBreak (h part hpart) 1
  have htext : ("(" ++ ", ".intercalate parts ++ ")").toList =
      '(' :: ((", ".intercalate parts).toList ++ [')']) := by simp
  refine ⟨by simp [htext], by simp [htext], fun rest => ?_⟩
  have hopen : ∀ cs, cut none 0 ('(' :: cs) = Field.extendFirst '(' (cut none 1 cs) := fun _ => rfl
  have hclose : cut none 1 (')' :: rest) = Field.extendFirst ')' (cut none 0 rest) := rfl
  rw [htext, List.cons_append, hopen, List.append_assoc, cut_quiet hinner, List.singleton_append,
    hclose]
  simp [prepend]

theorem inner_parenthesized (s : String) : inner ("(" ++ s ++ ")") = s := by
  simp [inner]

/-- Lists in parentheses are read back as a whole. -/
theorem rows_intercalate {table : List (List String)}
    (hne : ∀ row ∈ table, ∀ entry ∈ row, entry ≠ "")
    (h : ∀ row ∈ table, ∀ entry ∈ row, Quiet isDelimiter entry) :
    rows (", ".intercalate (table.map fun row => "(" ++ ", ".intercalate row ++ ")")) = table := by
  rw [rows, entries_intercalate, List.map_map]
  · refine (List.map_congr_left fun row hrow => ?_).trans (List.map_id table)
    rw [Function.comp_apply, inner_parenthesized]
    exact entries_intercalate fun entry hentry =>
      isEntry_of_quiet (hne row hrow entry hentry) (h row hrow entry hentry)
  · intro text htext
    obtain ⟨row, hrow, rfl⟩ := List.mem_map.mp htext
    exact isEntry_row (h row hrow)

end SqlList

end QueryCompiler
