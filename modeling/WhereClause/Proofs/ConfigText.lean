/-
WhereClause/Proofs/ConfigText.lean

A configuration is read back from its JSON text.

The text is an object with four entries, which may come in any order, and so may the entries
of its columns.  Such a text follows the grammar of JSON (`value_objectText`).  A key is looked
up among the entries, and the order of the entries does not matter since no key comes twice
(`Config.unique?_of_perm`).  The columns are put back in the order of their names while they
are filled into a table (`Table.ofList_of_perm`).
-/
import Mathlib.Data.List.Perm.Basic
import WhereClause.Json.Config
import WhereClause.Proofs.JsonText

namespace WhereClause

/-! ### Tables from entries in any order -/

namespace Table

variable {α : Type}

/-- A value under a new name is one more entry. -/
theorem perm_put {name : String} {value : α} {entries : List (String × α)}
    (h : name ∉ entries.map Prod.fst) : (put name value entries).Perm ((name, value) :: entries) := by
  induction entries with
  | nil => exact .refl _
  | cons head rest ih =>
      obtain ⟨key, old⟩ := head
      rw [List.map_cons, List.mem_cons, not_or] at h
      rw [put, if_neg h.1]
      split
      · exact .refl _
      · exact ((ih h.2).cons _).trans (.swap _ _ _)

theorem perm_entries_foldl {entries : List (String × α)} (t : Table α)
    (h : (t.entries ++ entries).map Prod.fst |>.Nodup) :
    (entries.foldl (fun t e => t.insert e.1 e.2) t).entries.Perm (t.entries ++ entries) := by
  induction entries generalizing t with
  | nil => rw [List.append_nil, List.foldl_nil]
  | cons e rest ih =>
      have hmiddle : (t.entries ++ e :: rest).Perm (e :: t.entries ++ rest) := List.perm_middle
      have hnodup := (hmiddle.map Prod.fst).nodup_iff.mp h
      have hput : (t.insert e.1 e.2).entries.Perm (e :: t.entries) := by
        refine perm_put fun hmem => ?_
        rw [List.cons_append, List.map_cons, List.nodup_cons, List.map_append] at hnodup
        exact hnodup.1 (List.mem_append_left _ hmem)
      have hrest := hput.append_right rest
      rw [List.foldl_cons]
      exact ((ih _ ((hrest.map Prod.fst).nodup_iff.mpr hnodup)).trans hrest).trans hmiddle.symm

/-- No name comes twice in a table. -/
theorem nodup_names (t : Table α) : t.names.Nodup := by
  rw [names, List.nodup_iff_pairwise_ne, List.pairwise_map]
  refine t.sorted.imp fun {a b} hlt heq => ?_
  rw [heq] at hlt
  exact String.lt_irrefl _ hlt

/-- A table is filled again with its entries, whatever their order. -/
theorem ofList_of_perm {t : Table α} {entries : List (String × α)} (h : entries.Perm t.entries) :
    ofList entries = t := by
  have hnodup : (entries.map Prod.fst).Nodup := (h.map Prod.fst).nodup_iff.mpr t.nodup_names
  have hfilled : (ofList entries).entries.Perm t.entries := (perm_entries_foldl empty hnodup).trans h
  refine Table.ext (hfilled.eq_of_pairwise ?_ (ofList entries).sorted t.sorted)
  intro a b _ _ hab hba
  exact absurd (String.lt_trans hab hba) (String.lt_irrefl _)

end Table

/-! ### Objects and their entries -/

namespace Config

open Json

/-- A named value and the text of an entry. -/
def IsEntry (entry : String × Json) (text : List Char) : Prop :=
  Member (some entry.1, entry.2) text

theorem isEntry_entryText {key : String} {value : Json} {cs : List Char} (h : Value value cs) :
    IsEntry (key, value) (entryText key cs) := by
  obtain ⟨marks, hchars, htext⟩ := exists_chars_textOf key
  have hmember := Member.intro gap_nil hchars gap_nil h.element
  rw [htext] at hmember
  have heq : entryText key cs =
      [] ++ '"' :: key.toList.flatMap escaped ++ '"' :: [] ++ ':' :: cs := by
    simp [entryText, quoted]
  rw [IsEntry, heq]
  exact hmember

theorem elements_commaSeparated {values : List Json} {texts : List (List Char)}
    (h : List.Forall₂ Value values texts) (hne : values ≠ []) :
    Elements values (commaSeparated texts) := by
  induction h with
  | nil => exact absurd rfl hne
  | cons hvalue hrest ih =>
      cases hrest with
      | nil => exact .last hvalue.element
      | cons hnext hlater => exact .more hvalue.element (ih (List.cons_ne_nil _ _))

theorem members_commaSeparated {entries : List (String × Json)} {texts : List (List Char)}
    (h : List.Forall₂ IsEntry entries texts) (hne : entries ≠ []) :
    Members (entries.map fun e => (some e.1, e.2)) (commaSeparated texts) := by
  induction h with
  | nil => exact absurd rfl hne
  | cons hentry hrest ih =>
      cases hrest with
      | nil => exact .last hentry
      | cons hnext hlater => exact .more hentry (ih (List.cons_ne_nil _ _))

/-- An object is written with the texts of its entries. -/
theorem value_objectText {entries : List (String × Json)} {texts : List (List Char)}
    (h : List.Forall₂ IsEntry entries texts) :
    Value (object (entries.map fun e => (some e.1, e.2))) (objectText texts) := by
  rcases h with - | ⟨hentry, hrest⟩
  · exact .emptyObject gap_nil
  · exact .object (members_commaSeparated (.cons hentry hrest) (List.cons_ne_nil _ _))

/-- The value of some columns. -/
def columnsValue (columns : List (String × String)) : Json :=
  object ((columns.map fun c => (c.1, string (some c.2))).map fun e => (some e.1, e.2))

/-- The value of the list of allowed fields. -/
def allowFieldsValue : Option (List String) → Json
  | none => null
  | some fields => array (fields.map fun field => string (some field))

/-- The entries of a configuration. -/
def entryValues (c : Config) (columns : List (String × String)) : List (String × Json) :=
  [("table", string (some c.table)), ("dialect", string (some c.dialect.name)),
    ("columns", columnsValue columns), ("allow_fields", allowFieldsValue c.allowFields)]

theorem value_columnsText (columns : List (String × String)) :
    Value (columnsValue columns) (columnsText columns) := by
  refine value_objectText ?_
  rw [List.forall₂_map_left_iff, List.forall₂_map_right_iff, List.forall₂_same]
  exact fun c _ => isEntry_entryText (value_quoted c.2)

theorem value_allowFieldsText (allowFields : Option (List String)) :
    Value (allowFieldsValue allowFields) (allowFieldsText allowFields) := by
  rcases allowFields with - | fields
  · exact .null
  · rcases fields with - | ⟨field, fields⟩
    · exact .emptyArray gap_nil
    · refine .array (elements_commaSeparated ?_ (by simp))
      rw [List.forall₂_map_left_iff, List.forall₂_map_right_iff, List.forall₂_same]
      exact fun field _ => value_quoted field

theorem isEntry_entryTexts (c : Config) (columns : List (String × String)) :
    List.Forall₂ IsEntry (c.entryValues columns) (c.entryTexts columns) :=
  .cons (isEntry_entryText (value_quoted c.table)) <|
    .cons (isEntry_entryText (value_quoted c.dialect.name)) <|
      .cons (isEntry_entryText (value_columnsText columns)) <|
        .cons (isEntry_entryText (value_allowFieldsText c.allowFields)) .nil

/-! ### Reading -/

/-- What is found in each of some values is what these values were made from. -/
theorem mapM_map_eq_some {α β : Type} {read : β → Option α} {write : α → β}
    (h : ∀ a, read (write a) = some a) (as : List α) : (as.map write).mapM read = some as := by
  induction as with
  | nil => rfl
  | cons a rest ih =>
      rw [List.map_cons, List.mapM_cons, h, ih]
      rfl

theorem columns?_columnsValue (columns : List (String × String)) :
    columns? (columnsValue columns) = some (Table.ofList columns) := by
  rw [columnsValue, columns?, List.map_map, mapM_map_eq_some]
  · rfl
  · intro c
    rfl

theorem allowFields?_allowFieldsValue (allowFields : Option (List String)) :
    allowFields? (allowFieldsValue allowFields) = some allowFields := by
  rcases allowFields with - | fields
  · rfl
  · have htexts : texts? (fields.map fun field => string (some field)) = some fields := by
      apply mapM_map_eq_some
      intro field
      rfl
    rw [allowFieldsValue, allowFields?, htexts]
    rfl

/-- A key that comes once is found wherever it stands. -/
theorem unique?_of_perm {entries others : List (String × Json)} (h : entries.Perm others)
    {key : String} {value : Json}
    (hkey : (others.filter fun e => e.1 == key) = [(key, value)]) :
    unique? entries key = some (some value) := by
  have hfiltered := h.filter fun e => e.1 == key
  rw [hkey, List.perm_singleton] at hfiltered
  rw [unique?, hfiltered]

/-- The entries of a configuration stand for it in any order. -/
theorem ofValue?_of_perm {c : Config} {columns : List (String × String)}
    {entries : List (String × Json)} (hcolumns : columns.Perm c.columns.entries)
    (hentries : entries.Perm (c.entryValues columns)) :
    ofValue? (object (entries.map fun e => (some e.1, e.2))) = some c := by
  have htable : unique? entries "table" = some (some (string (some c.table))) :=
    unique?_of_perm hentries rfl
  have hdialect : unique? entries "dialect" = some (some (string (some c.dialect.name))) :=
    unique?_of_perm hentries rfl
  have hcolumn : unique? entries "columns" = some (some (columnsValue columns)) :=
    unique?_of_perm hentries rfl
  have hallow : unique? entries "allow_fields" = some (some (allowFieldsValue c.allowFields)) :=
    unique?_of_perm hentries rfl
  rw [ofValue?, mapM_map_eq_some]
  · simp [htable, hdialect, hcolumn, hallow, ofParts?, dialect?, Json.text?, Json.name?,
      columns?_columnsValue, Table.ofList_of_perm hcolumns, allowFields?_allowFieldsValue]
  · intro e
    rfl

/-- A configuration is read back from its JSON text, in whatever order its entries and those of
its columns are written.  So the columns of all fields are the same, filters may mention the
same fields, of which an empty list allows none and a missing one allows all, and every node
has the same statement or is refused alike. -/
theorem ofJson?_reordered (c : Config) (columns : List (String × String))
    (texts : List (List Char)) (hcolumns : columns.Perm c.columns.entries)
    (htexts : texts.Perm (c.entryTexts columns)) :
    ∃ found, Config.ofJson? (String.ofList (objectText texts)) = some found ∧ found = c ∧
      (∀ field, found.columnName field = c.columnName field) ∧
      found.newFilter = c.newFilter ∧
      (c.allowFields = some [] → ∀ field, found.newFilter.allowed.allows field = false) ∧
      (c.allowFields = none → ∀ field, found.newFilter.allowed.allows field = true) ∧
      ∀ n : Node, found.compile n.formula = c.compile n.formula := by
  have hflipped : List.Forall₂ (fun text entry => IsEntry entry text) (c.entryTexts columns)
      (c.entryValues columns) := (c.isEntry_entryTexts columns).flip
  -- the entries may be put in the order of their texts
  obtain ⟨entries, hentries, hperm⟩ := List.perm_comp_forall₂ htexts hflipped
  have hvalue := value_objectText hentries.flip
  refine ⟨c, ?_, rfl, fun field => rfl, rfl, fun hempty field => ?_, fun hnone field => ?_,
    fun n => rfl⟩
  · rw [ofJson?, hvalue.element.ofText?]
    exact ofValue?_of_perm hcolumns hperm
  · show c.allowList.allows field = false
    rw [allowList, hempty]
    rfl
  · show c.allowList.allows field = true
    rw [allowList, hnone]
    rfl

/-- The entries are written backwards, and the columns too. -/
theorem ofJson?_reordered_backwards :
    let c : Config :=
      { table := "t", dialect := .mysql, columns := Table.ofList [("a", "x"), ("b", "y")],
        allowFields := some [] }
    let columns := [("b", "y"), ("a", "x")]
    columns.Perm c.columns.entries ∧ (c.entryTexts columns).reverse.Perm (c.entryTexts columns) ∧
      Config.ofJson? ("\x7b\"allow_fields\":[],\"columns\":\x7b\"b\":\"y\",\"a\":\"x\"\x7d," ++
        "\"dialect\":\"mysql\",\"table\":\"t\"\x7d") = some c := by
  intro c columns
  have hcolumns : columns.Perm c.columns.entries := by decide
  obtain ⟨found, hfound, rfl, -⟩ := ofJson?_reordered c columns (c.entryTexts columns).reverse
    hcolumns (List.reverse_perm _)
  refine ⟨hcolumns, List.reverse_perm _, ?_⟩
  rw [← hfound]
  exact congrArg Config.ofJson? (by decide +kernel)

end Config

end WhereClause
