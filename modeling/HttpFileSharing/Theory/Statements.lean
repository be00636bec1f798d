import Mathlib.Data.List.TakeWhile
import HttpFileSharing.Core.Init

/-!
# The Texts of the Statements

What a statement text reads back to. The two statements of the check are put
together from names, types and constraints with separators between them. Names
and types are identifiers, which have none of the separators in them, so the
text is cut where it was joined. They are no keywords either, so a column is not
taken for a constraint, nor its name for the word that may stand in front of it.
A constraint begins with a keyword, so it is not taken for a part of the type.

## Main definitions

* `IsText`, `IsWord`: The texts and the words that are considered.
* `IsColumn`: The columns that are what their text says.

## Theorems

* `readColumns_columnTexts`: A list of columns is read back.
* `readStatement_createQuery`: A table is read back.
* `readStatement_alterQuery`: A column is read back.
* `readTableInfo_append`: The query about a table is read back.
-/

namespace HttpFileSharing

/-- A text without a comma, a parenthesis or a quote. -/
def IsText (s : Bytes) : Prop := ∀ c ∈ s, c ∉ [',', '(', ')', '\'', '"']

/-- A single word. -/
structure IsWord (s : Bytes) : Prop where
  ne : s ≠ []
  single : ∀ c ∈ s, c.isWhitespace = false
  text : IsText s

/-- A name and a type that are identifiers, and behind them a constraint or
    nothing. -/
structure IsColumn (col : DbColInfo) : Prop where
  name : isIdentifier col.name = true
  colType : isIdentifier col.colType = true
  text : IsText col.constraint
  plain : IsPlain col.constraint
  constraint : isConstraint col.constraint = true

instance (s : Bytes) : Decidable (IsText s) := List.decidableBAll _ s

theorem isWord_iff (s : Bytes) :
    IsWord s ↔ s ≠ [] ∧ (∀ c ∈ s, c.isWhitespace = false) ∧ IsText s :=
  ⟨fun h => ⟨h.ne, h.single, h.text⟩, fun h => ⟨h.1, h.2.1, h.2.2⟩⟩

instance (s : Bytes) : Decidable (IsWord s) :=
  have : Decidable (∀ c ∈ s, c.isWhitespace = false) := List.decidableBAll _ s
  decidable_of_iff _ (isWord_iff s).symm

theorem isColumn_iff (col : DbColInfo) :
    IsColumn col ↔ isIdentifier col.name = true ∧ isIdentifier col.colType = true ∧
      IsText col.constraint ∧ IsPlain col.constraint ∧ isConstraint col.constraint = true :=
  ⟨fun h => ⟨h.name, h.colType, h.text, h.plain, h.constraint⟩,
    fun h => ⟨h.1, h.2.1, h.2.2.1, h.2.2.2.1, h.2.2.2.2⟩⟩

instance (col : DbColInfo) : Decidable (IsColumn col) :=
  decidable_of_iff _ (isColumn_iff col).symm

/-- No identifier has a blank in it. -/
theorem isIdChar_whitespace (c : Char) (h : c.isWhitespace = true) : isIdChar c = false := by
  simp only [Char.isWhitespace, Bool.or_eq_true, decide_eq_true_eq] at h
  rcases h with ((rfl | rfl) | rfl) | rfl <;> decide

theorem IsText.not_mem {s : Bytes} (h : IsText s) (c : Char)
    (hc : c ∈ [',', '(', ')', '\'', '"']) : c ∉ s := fun hmem => h c hmem hc

section Identifiers

variable {s : Bytes} (h : isIdentifier s = true)

include h

theorem isIdentifier_ne : s ≠ [] := by
  rintro rfl
  exact absurd h (by decide)

/-- A character that no identifier has. -/
theorem isIdentifier_not_mem (c : Char) (hc : isIdChar c = false) : c ∉ s := fun hmem => by
  rw [isIdentifier, Bool.and_eq_true, Bool.and_eq_true] at h
  exact Bool.false_ne_true (hc.symm.trans (List.all_eq_true.mp h.1.2 c hmem))

theorem isIdentifier_isIdChar : ∀ c ∈ s, isIdChar c = true := by
  rw [isIdentifier, Bool.and_eq_true, Bool.and_eq_true] at h
  exact List.all_eq_true.mp h.1.2

theorem isIdentifier_not_keyword : s.map Char.toLower ∉ sqlKeywords := by
  rw [isIdentifier, Bool.and_eq_true, Bool.not_eq_true'] at h
  exact fun hmem => Bool.false_ne_true (h.2.symm.trans (List.contains_iff_mem.mpr hmem))

theorem isKeyword_identifier (keyword : Bytes) (hkeyword : keyword ∈ sqlKeywords) :
    isKeyword keyword s = false :=
  decide_eq_false (fun hmap => isIdentifier_not_keyword h (hmap ▸ hkeyword))

theorem readTable_identifier : readTable s = some s := by
  have hmain : dropKeyword "main.".toList s = none := if_neg (fun hpre =>
    isIdentifier_not_mem h '.' (by decide) (hpre.subset (by decide)))
  simp only [readTable, hmain, if_pos h]

end Identifiers

section Plain

/-- A text without one of the characters of a pattern does not join a pattern
    across it. -/
theorem not_infix_append_cons {α : Type*} {p l r : List α} {x : α} (hx : x ∉ p)
    (hl : ¬ p <:+: l) (hr : ¬ p <:+: r) : ¬ p <:+: l ++ x :: r := by
  induction l with
  | nil =>
      rw [List.nil_append, List.infix_cons_iff, not_or]
      refine ⟨fun hpre => ?_, hr⟩
      cases p with
      | nil => exact hr (List.nil_infix)
      | cons y p => exact hx ((List.cons_prefix_cons.mp hpre).1 ▸ List.mem_cons_self)
  | cons y l ih =>
      rw [List.cons_append, List.infix_cons_iff, not_or]
      refine ⟨fun hpre => ?_, ih (fun hin => hl (hin.trans (List.suffix_cons y l).isInfix))⟩
      rcases List.prefix_or_prefix_of_prefix hpre (List.prefix_append (y :: l) (x :: r)) with
        hshort | ⟨q, rfl⟩
      · exact hl hshort.isInfix
      · -- The pattern goes on behind the first part, so it has the character.
        rw [← List.cons_append, List.prefix_append_right_inj] at hpre
        cases q with
        | nil => exact hl (by rw [List.append_nil])
        | cons z q =>
            rw [(List.cons_prefix_cons.mp hpre).1] at hx
            exact hx (List.mem_append_right _ List.mem_cons_self)

theorem isPlain_nil : IsPlain [] := by decide

/-- Plain texts with a plain character between them. -/
theorem isPlain_append_cons {l r : Bytes} {c : Char} (hc : c ∉ quoting ++ ['-', '/', '*'])
    (hl : IsPlain l) (hr : IsPlain r) : IsPlain (l ++ c :: r) := by
  rw [List.mem_append, not_or] at hc
  refine ⟨fun d hd => ?_, not_infix_append_cons (fun hmem => hc.2 (?_)) hl.2.1 hr.2.1,
    not_infix_append_cons (fun hmem => hc.2 (?_)) hl.2.2 hr.2.2⟩
  · rcases List.mem_append.mp hd with hd | hd
    · exact hl.1 d hd
    · rcases List.mem_cons.mp hd with rfl | hd
      · exact hc.1
      · exact hr.1 d hd
  · exact List.subset_def.mp (by decide : "--".toList ⊆ ['-', '/', '*']) hmem
  · exact List.subset_def.mp (by decide : "/*".toList ⊆ ['-', '/', '*']) hmem

theorem isPlain_identifier {s : Bytes} (h : isIdentifier s = true) : IsPlain s := by
  have hquoting : ∀ c ∈ quoting, isIdChar c = false := by
    intro c hc
    simp only [quoting, List.mem_cons, List.not_mem_nil, or_false] at hc
    rcases hc with rfl | rfl | rfl | rfl | rfl | rfl | rfl <;> decide
  refine ⟨fun c hc hquoted => isIdentifier_not_mem h c (hquoting c hquoted) hc, fun hin => ?_,
    fun hin => ?_⟩
  · exact isIdentifier_not_mem h '-' (by decide) (hin.subset (by decide))
  · exact isIdentifier_not_mem h '/' (by decide) (hin.subset (by decide))

end Plain

theorem dropKeyword_append (keyword rest : Bytes) :
    dropKeyword keyword (keyword ++ rest) = some rest := by
  rw [dropKeyword, if_pos (List.prefix_append keyword rest), List.drop_left]

section Column

theorem columnText_eq (col : DbColInfo) :
    columnText col = col.name ++ ' ' :: (col.colType ++ ' ' :: col.constraint) := by
  have hspace : " ".toList = [' '] := rfl
  rw [columnText, hspace]
  simp only [List.append_assoc, List.cons_append, List.nil_append]

variable {col : DbColInfo} (h : IsColumn col)

include h

/-- What follows the name is no constraint, since it begins with the type. -/
theorem isConstraint_colType : isConstraint (col.colType ++ ' ' :: col.constraint) = false := by
  have hkeywords : ∀ k ∈ constraintKeywords, k ∈ sqlKeywords := by decide +kernel
  have hnot : col.colType.map Char.toLower ∉ constraintKeywords := fun hmem =>
    isIdentifier_not_keyword h.colType (hkeywords _ hmem)
  have htaken : (col.colType ++ ' ' :: col.constraint).takeWhile isIdChar = col.colType := by
    rw [List.takeWhile_append_of_pos (isIdentifier_isIdChar h.colType),
      List.takeWhile_cons_of_neg (by decide), List.append_nil]
  have hdropped : (col.colType ++ ' ' :: col.constraint).dropWhile Char.isWhitespace
      = col.colType ++ ' ' :: col.constraint := by
    cases htype : col.colType with
    | nil => exact absurd htype (isIdentifier_ne h.colType)
    | cons c rest =>
        have hc : isIdChar c = true :=
          isIdentifier_isIdChar h.colType c (htype ▸ List.mem_cons_self)
        rw [List.cons_append, List.dropWhile_cons_of_neg (fun hspace =>
          Bool.false_ne_true ((isIdChar_whitespace c hspace).symm.trans hc))]
  simp only [isConstraint, hdropped, htaken, List.append_eq_nil_iff, reduceCtorEq, and_false,
    decide_false, Bool.false_or]
  exact Bool.eq_false_of_not_eq_true (fun hmem => hnot (List.contains_iff_mem.mp hmem))

theorem readColumn_columnText : readColumn (columnText col) = some col := by
  rw [columnText_eq, readColumn,
    takeUntil_append ' ' col.name _ (isIdentifier_not_mem h.name ' ' (by decide))]
  simp only [takeUntil_append ' ' col.colType col.constraint
    (isIdentifier_not_mem h.colType ' ' (by decide)), isConstraint_colType h,
    Bool.false_eq_true, if_false]
  rw [if_pos h.name, if_pos ⟨h.colType, h.constraint⟩]

/-- A column text has no character that ends it or the list of columns. -/
theorem not_mem_columnText (c : Char) (hc : c ∈ [',', '(', ')', '\'', '"']) :
    c ∉ columnText col := by
  have hspecial : ∀ c ∈ [',', '(', ')', '\'', '"'], isIdChar c = false ∧ c ≠ ' ' := by
    intro c hc
    simp only [List.mem_cons, List.not_mem_nil, or_false] at hc
    rcases hc with rfl | rfl | rfl | rfl | rfl <;> decide
  rw [columnText_eq]
  simp only [List.mem_append, List.mem_cons, not_or]
  exact ⟨isIdentifier_not_mem h.name c (hspecial c hc).1, (hspecial c hc).2,
    isIdentifier_not_mem h.colType c (hspecial c hc).1, (hspecial c hc).2, h.text.not_mem c hc⟩

theorem isPlain_columnText : IsPlain (columnText col) := by
  rw [columnText_eq]
  exact isPlain_append_cons (by decide) (isPlain_identifier h.name)
    (isPlain_append_cons (by decide) (isPlain_identifier h.colType) h.plain)

/-- The blanks in front of a column are dropped, and it is no constraint. -/
theorem dropWhile_columnText (lead : Bytes) (hlead : lead = [] ∨ lead = [' ']) :
    (lead ++ columnText col).dropWhile (· = ' ') = columnText col := by
  have hhere : (columnText col).dropWhile (· = ' ') = columnText col := by
    rw [columnText_eq]
    cases hcol : col.name with
    | nil => exact absurd hcol (isIdentifier_ne h.name)
    | cons c rest =>
        have hc : ¬ decide (c = ' ') = true := fun hspace =>
          isIdentifier_not_mem h.name ' ' (by decide) (by
            rw [hcol, of_decide_eq_true hspace]
            exact List.mem_cons_self)
        rw [List.cons_append, List.dropWhile_cons, if_neg hc]
  rcases hlead with rfl | rfl
  · exact hhere
  · exact hhere

theorem isNamedConstraint_columnText : isNamedConstraint (columnText col) = false := by
  rw [columnText_eq, isNamedConstraint,
    takeUntil_append ' ' col.name _ (isIdentifier_not_mem h.name ' ' (by decide))]
  simp only [isKeyword_identifier h.name "constraint".toList (by decide +kernel), Bool.false_and]

end Column

/-- The columns of a table are cut where they were joined, the first behind a
    space or none. -/
theorem splitOn_columnTexts (col : DbColInfo) (cols : DbTable) (lead : Bytes)
    (hlead : lead = [] ∨ lead = [' ']) (hcols : ∀ c ∈ col :: cols, IsColumn c) :
    ((lead ++ columnText col ++ columnTexts false cols).splitOn ',').map
      (fun part => part.dropWhile (· = ' ')) = (col :: cols).map columnText := by
  have hcol := hcols col List.mem_cons_self
  have hcomma : ',' ∉ lead ++ columnText col := by
    rw [List.mem_append, not_or]
    refine ⟨?_, not_mem_columnText hcol ',' (by decide)⟩
    rcases hlead with rfl | rfl <;> decide
  induction cols generalizing col lead with
  | nil =>
      rw [columnTexts, List.append_nil, List.splitOn_eq_singleton hcomma, List.map_singleton,
        dropWhile_columnText hcol lead hlead, List.map_singleton]
  | cons next cols ih =>
      have hrest : ∀ c ∈ next :: cols, IsColumn c := fun c hc =>
        hcols c (List.mem_cons_of_mem col hc)
      have hnext := hrest next List.mem_cons_self
      have hcomma' : ',' ∉ [' '] ++ columnText next := by
        rw [List.mem_append, not_or]
        exact ⟨by decide, not_mem_columnText hnext ',' (by decide)⟩
      have hsep : columnTexts false (next :: cols)
          = ',' :: ([' '] ++ columnText next ++ columnTexts false cols) := by
        have htext : ", ".toList = [',', ' '] := rfl
        rw [columnTexts, if_neg Bool.false_ne_true, htext]
        rfl
      rw [hsep, List.splitOn_append_cons_self, List.splitOn_eq_singleton hcomma,
        List.singleton_append, List.map_cons, dropWhile_columnText hcol lead hlead,
        ih next [' '] (Or.inr rfl) hrest hnext hcomma']
      rfl

/-- The columns of a table read back. -/
theorem readColumns_columnTexts (cols : DbTable) (hne : cols ≠ [])
    (hcols : ∀ c ∈ cols, IsColumn c) : readColumns (columnTexts true cols) = some cols := by
  have hparts : ((columnTexts true cols).splitOn ',').map (fun part => part.dropWhile (· = ' '))
      = cols.map columnText := by
    cases cols with
    | nil => exact absurd rfl hne
    | cons col cols =>
        rw [columnTexts, if_pos rfl]
        exact splitOn_columnTexts col cols [] (Or.inl rfl) hcols
  have htaken : (cols.map columnText).takeWhile (fun part => !isNamedConstraint part)
      = cols.map columnText := by
    refine List.takeWhile_eq_self_iff.mpr (fun part hpart => ?_)
    rcases List.mem_map.mp hpart with ⟨c, hc, rfl⟩
    rw [isNamedConstraint_columnText (hcols c hc), Bool.not_false]
  have hread : ∀ rest : DbTable, (∀ c ∈ rest, IsColumn c) →
      (rest.map columnText).mapM readColumn = some rest := by
    intro rest hrest
    induction rest with
    | nil => rfl
    | cons c rest ih =>
        rw [List.map_cons, List.mapM_cons, readColumn_columnText (hrest c List.mem_cons_self),
          ih (fun d hd => hrest d (List.mem_cons_of_mem c hd))]
        rfl
  rw [readColumns]
  simp only [hparts, htaken, List.drop_length, List.all_nil]
  rw [if_pos ⟨fun hnil => hne (List.map_eq_nil_iff.mp hnil), trivial⟩]
  exact hread cols hcols

/-- No column ends the list of columns. -/
theorem not_mem_columnTexts (isFirst : Bool) (cols : DbTable) (hcols : ∀ c ∈ cols, IsColumn c)
    (c : Char) (hc : c ∈ ['(', ')']) : c ∉ columnTexts isFirst cols := by
  have hspecial : ∀ c ∈ ['(', ')'], c ∈ [',', '(', ')', '\'', '"'] ∧ c ∉ ", ".toList := by
    intro c hc
    simp only [List.mem_cons, List.not_mem_nil, or_false] at hc
    rcases hc with rfl | rfl <;> decide
  induction cols generalizing isFirst with
  | nil => exact List.not_mem_nil
  | cons col cols ih =>
      rw [columnTexts, List.mem_append, List.mem_append, not_or, not_or]
      refine ⟨⟨?_, not_mem_columnText (hcols col List.mem_cons_self) c (hspecial c hc).1⟩,
        ih false (fun c hc => hcols c (List.mem_cons_of_mem col hc))⟩
      split
      · exact List.not_mem_nil
      · exact (hspecial c hc).2

theorem isPlain_columnTexts (cols : DbTable) (hcols : ∀ c ∈ cols, IsColumn c) :
    IsPlain (columnTexts true cols) := by
  cases cols with
  | nil => exact isPlain_nil
  | cons col cols =>
      rw [columnTexts, if_pos rfl, List.nil_append]
      induction cols generalizing col with
      | nil =>
          rw [columnTexts, List.append_nil]
          exact isPlain_columnText (hcols col List.mem_cons_self)
      | cons next cols ih =>
          have hnext := ih next (fun c hc => hcols c (List.mem_cons_of_mem col hc))
          have hsep : columnTexts false (next :: cols)
              = ',' :: ([] ++ ' ' :: (columnText next ++ columnTexts false cols)) := by
            have htext : ", ".toList = [',', ' '] := rfl
            rw [columnTexts, if_neg Bool.false_ne_true, htext]
            rfl
          rw [hsep]
          exact isPlain_append_cons (by decide) (isPlain_columnText (hcols col List.mem_cons_self))
            (isPlain_append_cons (by decide) isPlain_nil hnext)

/-- **A table is read back**: the text it is created with says its name and its
    columns in order. -/
theorem readStatement_createQuery (table : Bytes) (cols : DbTable)
    (htable : isIdentifier table = true) (hne : cols ≠ []) (hcols : ∀ c ∈ cols, IsColumn c) :
    readStatement (createQuery table cols) = some (.createTable table cols) := by
  -- The keyword, the table, the columns in parentheses, and a semicolon.
  have hgroup : ∀ keyword opening body closing : Bytes, opening = [' ', '('] →
      closing = [')', ';'] → keyword ++ table ++ opening ++ body ++ closing
        = keyword ++ (table ++ ' ' :: '(' :: (body ++ [')'])) ++ [';'] := by
    intro keyword opening body closing hopening hclosing
    rw [hopening, hclosing]
    simp only [List.append_assoc, List.cons_append, List.nil_append]
  have hquery : createQuery table cols = "CREATE TABLE ".toList
      ++ (table ++ ' ' :: '(' :: (columnTexts true cols ++ [')'])) ++ [';'] :=
    hgroup _ _ _ _ rfl rfl
  have hplain : IsPlain ("CREATE TABLE ".toList
      ++ (table ++ ' ' :: '(' :: (columnTexts true cols ++ [')']))) := by
    have hkeyword : "CREATE TABLE ".toList = "CREATE TABLE".toList ++ [' '] := rfl
    rw [hkeyword, List.append_assoc]
    exact isPlain_append_cons (by decide) (by decide) (isPlain_append_cons (by decide)
      (isPlain_identifier htable) (isPlain_append_cons (l := []) (by decide) isPlain_nil
        (isPlain_append_cons (by decide) (isPlain_columnTexts cols hcols) isPlain_nil)))
  rw [readStatement, hquery, List.getLast?_concat, if_pos rfl, List.dropLast_concat]
  simp only [dropKeyword_append, if_pos hplain]
  rw [readCreate, takeUntil_append ' ' table _ (isIdentifier_not_mem htable ' ' (by decide))]
  simp only [readTable_identifier htable, List.getLast?_concat, List.dropLast_concat,
    readColumns_columnTexts cols hne hcols, Option.map_some]
  rw [if_pos ⟨trivial, not_mem_columnTexts true cols hcols '(' (by decide),
    not_mem_columnTexts true cols hcols ')' (by decide)⟩]

/-- A keyword is not in front of a text that begins with another one. -/
theorem dropKeyword_other (keyword other rest : Bytes) (c d : Char)
    (hkeyword : keyword.head? = some c) (hother : other.head? = some d) (hne : c ≠ d) :
    dropKeyword keyword (other ++ rest) = none := by
  cases keyword with
  | nil => exact absurd hkeyword (by simp only [List.head?_nil, reduceCtorEq, not_false_eq_true])
  | cons c' keyword =>
      cases other with
      | nil => exact absurd hother (by simp only [List.head?_nil, reduceCtorEq, not_false_eq_true])
      | cons d' other =>
          rw [List.head?_cons, Option.some.injEq] at hkeyword hother
          rw [hkeyword, hother, dropKeyword, List.cons_append, if_neg]
          exact fun hpre => hne (List.cons_prefix_cons.mp hpre).1

/-- Reading the text to add a column, behind the keyword. -/
theorem readAlter_columnText (table : Bytes) (col : DbColInfo)
    (htable : isIdentifier table = true) (hcol : IsColumn col) :
    readAlter (table ++ ' ' :: ("ADD ".toList ++ columnText col))
      = some (.addColumn table col) := by
  have hfirst : (takeUntil ' ' (columnText col)).1 = col.name := by
    rw [columnText_eq,
      takeUntil_append ' ' col.name _ (isIdentifier_not_mem hcol.name ' ' (by decide))]
  rw [readAlter, takeUntil_append ' ' table _ (isIdentifier_not_mem htable ' ' (by decide))]
  simp only [readTable_identifier htable, dropKeyword_append, hfirst,
    isKeyword_identifier hcol.name "column".toList (by decide +kernel), Bool.false_eq_true,
    if_false, readColumn_columnText hcol, Option.map_some]

/-- **A column is read back**: the text it is added with says its table and the
    whole column. -/
theorem readStatement_alterQuery (table : Bytes) (col : DbColInfo)
    (htable : isIdentifier table = true) (hcol : IsColumn col) :
    readStatement (alterQuery table col) = some (.addColumn table col) := by
  have hgroup : ∀ keyword adding add text : Bytes, adding = ' ' :: add →
      keyword ++ table ++ adding ++ text = keyword ++ (table ++ ' ' :: (add ++ text)) := by
    intro keyword adding add text hadding
    rw [hadding]
    simp only [List.append_assoc, List.cons_append]
  have hquery : alterQuery table col
      = "ALTER TABLE ".toList ++ (table ++ ' ' :: ("ADD ".toList ++ columnText col)) :=
    hgroup "ALTER TABLE ".toList " ADD ".toList "ADD ".toList (columnText col) (by decide)
  have hplain : IsPlain (alterQuery table col) := by
    have hkeyword : "ALTER TABLE ".toList = "ALTER TABLE".toList ++ [' '] := rfl
    have hadd : "ADD ".toList = "ADD".toList ++ [' '] := rfl
    rw [hquery, hkeyword, hadd, List.append_assoc, List.append_assoc]
    exact isPlain_append_cons (by decide) (by decide) (isPlain_append_cons (by decide)
      (isPlain_identifier htable) (isPlain_append_cons (by decide) (by decide)
        (isPlain_columnText hcol)))
  have hlast : (alterQuery table col).getLast? ≠ some ';' := fun hlast =>
    hplain.1 ';' (List.mem_of_getLast? hlast) (by decide)
  have hcreate : dropKeyword "CREATE TABLE ".toList (alterQuery table col) = none := by
    rw [hquery]
    exact dropKeyword_other _ _ _ 'C' 'A' (by decide) (by decide) (by decide)
  have halter : dropKeyword "ALTER TABLE ".toList (alterQuery table col)
      = some (table ++ ' ' :: ("ADD ".toList ++ columnText col)) := by
    rw [hquery, dropKeyword_append]
  rw [readStatement]
  simp only [if_neg hlast, if_pos hplain, hcreate, halter, readAlter_columnText table col htable
    hcol]

/-- The query about a table is read back. -/
theorem readTableInfo_append (table : Bytes) (h : '\'' ∉ table) :
    readTableInfo ("PRAGMA table_info('".toList ++ table ++ "')".toList) = some table := by
  have hgroup : ∀ keyword closing : Bytes, closing = ['\'', ')'] →
      keyword ++ table ++ closing = keyword ++ (table ++ '\'' :: [')']) := by
    intro keyword closing hclosing
    rw [hclosing, List.append_assoc]
  rw [hgroup "PRAGMA table_info('".toList "')".toList (by decide), readTableInfo,
    dropKeyword_append]
  simp only [takeUntil_append '\'' table [')'] h, if_true]

end HttpFileSharing
