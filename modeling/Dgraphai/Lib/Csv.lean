import Dgraphai.Lib.PyDict

/-!
# Comma-separated values (Python's `csv`, dialect `excel`)

`writerow` quotes a field that has a comma, a quote or a line end in it, and a lone empty field. `reader` is the
automaton of `csv.reader` over the lines of a text; it reads back the rows that were written (`reader_writerows`).
`DictWriter` and `DictReader` take a row for a dictionary over the names of a header.
-/

namespace Csv

abbrev Text := List Char

/-! ### Writing -/

def needsQuotes (field : Text) : Bool := field.any fun c => c = ',' ∨ c = '"' ∨ c = '\r' ∨ c = '\n'

/-- A field with its quotes doubled. -/
def doubled (field : Text) : Text := field.flatMap fun c => if c = '"' then ['"', '"'] else [c]

def fieldText (field : Text) : Text := if needsQuotes field then '"' :: (doubled field ++ ['"']) else field

def joined : List Text → Text
  | [] => []
  | [field] => fieldText field
  | field :: fields => fieldText field ++ ',' :: joined fields

theorem joined_cons_cons (f g : Text) (row : List Text) :
    joined (f :: g :: row) = fieldText f ++ ',' :: joined (g :: row) := rfl

def writerow (row : List Text) : Text := (if row = [[]] then ['"', '"'] else joined row) ++ ['\r', '\n']

/-! ### Reading -/

inductive Mode where
  | startRecord | startField | inField | inQuotedField | quoteInQuotedField | eatCrnl
  deriving DecidableEq, Repr

structure Reader where
  mode : Mode
  field : Text
  fields : List Text
  rows : List (List Text)
  deriving DecidableEq, Repr

namespace Reader

/-- Between two records. -/
def after (rows : List (List Text)) : Reader := ⟨.startRecord, [], [], rows⟩

/-- `parse_save_field`. -/
def save (s : Reader) (mode : Mode) : Reader := { s with mode := mode, field := [], fields := s.fields ++ [s.field] }

/-- `parse_add_char`. -/
def add (s : Reader) (c : Char) (mode : Mode) : Reader := { s with mode := mode, field := s.field ++ [c] }

def emit (s : Reader) : Reader := .after (s.rows ++ [s.fields])

def beginField (s : Reader) (c : Char) : Reader :=
  if c = '\n' ∨ c = '\r' then s.save .eatCrnl
  else if c = '"' then { s with mode := .inQuotedField }
  else if c = ',' then s.save .startField
  else s.add c .inField

/-- `parse_process_char`; `none` where a new line stands in an unquoted field. -/
def processChar (s : Reader) (c : Char) : Option Reader :=
  match s.mode with
  | .startRecord => some (if c = '\n' ∨ c = '\r' then { s with mode := .eatCrnl } else s.beginField c)
  | .startField => some (s.beginField c)
  | .inField =>
    some (if c = '\n' ∨ c = '\r' then s.save .eatCrnl else if c = ',' then s.save .startField else s.add c .inField)
  | .inQuotedField => some (if c = '"' then { s with mode := .quoteInQuotedField } else s.add c .inQuotedField)
  | .quoteInQuotedField =>
    some (if c = '"' then s.add c .inQuotedField
      else if c = ',' then s.save .startField
      else if c = '\n' ∨ c = '\r' then s.save .eatCrnl
      else s.add c .inField)
  | .eatCrnl => if c = '\n' ∨ c = '\r' then some s else none

/-- `parse_process_char` at the end of a line. -/
def endLine (s : Reader) : Reader :=
  match s.mode with
  | .startRecord | .eatCrnl => s.emit
  | .inQuotedField => s
  | .startField | .inField | .quoteInQuotedField => (s.save s.mode).emit

def feed (s : Reader) (c : Char) : Option Reader :=
  (s.processChar c).map fun s => if c = '\n' then s.endLine else s

def feedAll (s : Reader) : Text → Option Reader
  | [] => some s
  | c :: text => (s.feed c).bind fun s => feedAll s text

/-- The rows when the lines are used up. -/
def finish (s : Reader) : List (List Text) :=
  match s.mode with
  | .startRecord => s.rows
  | .inQuotedField => (s.save s.mode).emit.rows
  | _ => s.endLine.rows

end Reader

/-- `list(csv.reader(io.StringIO(text)))`. -/
def reader (text : Text) : Option (List (List Text)) := ((Reader.after []).feedAll text).map Reader.finish

/-! ### What was written is read back -/

namespace Reader
variable {s : Reader} {f : Text} {fields : List Text} {rows : List (List Text)}

theorem feedAll_append (s : Reader) (a b : Text) : s.feedAll (a ++ b) = (s.feedAll a).bind fun s => s.feedAll b := by
  induction a generalizing s with
  | nil => rfl
  | cons c a ih =>
    rw [List.cons_append, feedAll, feedAll, Option.bind_assoc]
    exact congrArg _ (funext fun s => ih s)

theorem feedAll_of_eq_some {s' : Reader} {a : Text} (h : s.feedAll a = some s') (b : Text) :
    s.feedAll (a ++ b) = s'.feedAll b := by
  rw [feedAll_append, h, Option.bind_some]

theorem feedAll_inField (h : needsQuotes f = false) (g : Text) :
    feedAll ⟨.inField, g, fields, rows⟩ f = some ⟨.inField, g ++ f, fields, rows⟩ := by
  induction f generalizing g with
  | nil => rw [List.append_nil]; rfl
  | cons c f ih =>
    obtain ⟨hc, hf⟩ := Bool.or_eq_false_iff.1 h
    obtain ⟨hcomma, -, hcr, hnl⟩ : c ≠ ',' ∧ c ≠ '"' ∧ c ≠ '\r' ∧ c ≠ '\n' := by simpa using hc
    have hfeed : feed ⟨.inField, g, fields, rows⟩ c = some ⟨.inField, g ++ [c], fields, rows⟩ := by
      simp [feed, processChar, add, hcomma, hcr, hnl]
    rw [feedAll, hfeed, Option.bind_some, ih hf, List.append_assoc]
    rfl

theorem feedAll_doubled (f g : Text) :
    feedAll ⟨.inQuotedField, g, fields, rows⟩ (doubled f) = some ⟨.inQuotedField, g ++ f, fields, rows⟩ := by
  induction f generalizing g with
  | nil => rw [List.append_nil]; rfl
  | cons c f ih =>
    have hstep : feedAll ⟨.inQuotedField, g, fields, rows⟩ (if c = '"' then ['"', '"'] else [c]) =
        some ⟨.inQuotedField, g ++ [c], fields, rows⟩ := by
      by_cases hc : c = '"'
      · subst hc
        rfl
      · by_cases hnl : c = '\n' <;> simp [feedAll, feed, processChar, add, endLine, hc, hnl]
    rw [doubled, List.flatMap_cons, feedAll_of_eq_some hstep, ← doubled, ih, List.append_assoc]
    rfl

/-- A field at its start: an empty one leaves the mode as it is. -/
theorem feedAll_fieldText (hmode : s.mode = .startRecord ∨ s.mode = .startField) (hfield : s.field = []) (f : Text) :
    ∃ mode, s.feedAll (fieldText f) = some ⟨mode, f, s.fields, s.rows⟩ ∧
      (mode = .inField ∨ mode = .quoteInQuotedField ∨ mode = s.mode ∧ f = []) := by
  obtain ⟨mode, field, fields, rows⟩ := s
  dsimp only at hmode hfield
  subst hfield
  unfold fieldText
  split_ifs with hquotes
  · refine ⟨.quoteInQuotedField, ?_, .inr (.inl rfl)⟩
    have hopen : feed ⟨mode, [], fields, rows⟩ '"' = some ⟨.inQuotedField, [], fields, rows⟩ := by
      rcases hmode with rfl | rfl <;> rfl
    rw [feedAll, hopen, Option.bind_some, feedAll_of_eq_some (feedAll_doubled f [])]
    rfl
  · cases f with
    | nil => exact ⟨mode, rfl, .inr (.inr ⟨rfl, rfl⟩)⟩
    | cons c f =>
      refine ⟨.inField, ?_, .inl rfl⟩
      obtain ⟨hc, hf⟩ := Bool.or_eq_false_iff.1 (Bool.not_eq_true _ ▸ hquotes)
      obtain ⟨hcomma, hquote, hcr, hnl⟩ : c ≠ ',' ∧ c ≠ '"' ∧ c ≠ '\r' ∧ c ≠ '\n' := by simpa using hc
      have hfeed : feed ⟨mode, [], fields, rows⟩ c = some ⟨.inField, [c], fields, rows⟩ := by
        rcases hmode with rfl | rfl <;> simp [feed, processChar, beginField, add, hcomma, hquote, hcr, hnl]
      rw [feedAll, hfeed, Option.bind_some, feedAll_inField hf]
      rfl

theorem feed_comma (hmode : s.mode ≠ .inQuotedField) (hmode' : s.mode ≠ .eatCrnl) :
    s.feed ',' = some ⟨.startField, [], s.fields ++ [s.field], s.rows⟩ := by
  obtain ⟨mode, field, fields, rows⟩ := s
  cases mode <;> first | rfl | exact absurd rfl hmode | exact absurd rfl hmode'

theorem feedAll_crlf (hmode : s.mode = .startField ∨ s.mode = .inField ∨ s.mode = .quoteInQuotedField) :
    s.feedAll ['\r', '\n'] = some (.after (s.rows ++ [s.fields ++ [s.field]])) := by
  obtain ⟨mode, field, fields, rows⟩ := s
  dsimp only at hmode
  rcases hmode with rfl | rfl | rfl <;> rfl

/-- The rest of a record from the start of a field. -/
theorem feedAll_joined (row : List Text) (hrow : row ≠ []) (fields : List Text) :
    feedAll ⟨.startField, [], fields, rows⟩ (joined row ++ ['\r', '\n']) = some (.after (rows ++ [fields ++ row])) := by
  induction row generalizing fields with
  | nil => exact absurd rfl hrow
  | cons f row ih =>
    obtain ⟨mode, hfeed, hmode⟩ := feedAll_fieldText (s := ⟨.startField, [], fields, rows⟩) (.inr rfl) rfl f
    cases row with
    | nil =>
      rw [joined, feedAll_of_eq_some hfeed, feedAll_crlf]
      rcases hmode with rfl | rfl | ⟨rfl, -⟩
      exacts [.inr (.inl rfl), .inr (.inr rfl), .inl rfl]
    | cons g row =>
      rw [joined_cons_cons, List.append_assoc, feedAll_of_eq_some hfeed, List.cons_append, feedAll, feed_comma,
        Option.bind_some, ih (List.cons_ne_nil _ _), List.append_assoc]
      · rfl
      all_goals rcases hmode with rfl | rfl | ⟨rfl, -⟩ <;> exact Mode.noConfusion

theorem feedAll_writerow (rows : List (List Text)) (row : List Text) :
    (Reader.after rows).feedAll (writerow row) = some (.after (rows ++ [row])) := by
  unfold writerow
  split_ifs with hlone
  · rw [hlone]
    rfl
  match row with
  | [] => rfl
  | f :: row =>
    obtain ⟨mode, hfeed, hmode⟩ := feedAll_fieldText (s := .after rows) (.inl rfl) rfl f
    cases row with
    | nil =>
      rw [joined, feedAll_of_eq_some hfeed, feedAll_crlf]
      · rfl
      rcases hmode with rfl | rfl | ⟨-, rfl⟩
      exacts [.inr (.inl rfl), .inr (.inr rfl), absurd rfl hlone]
    | cons g row =>
      rw [joined_cons_cons, List.append_assoc, feedAll_of_eq_some hfeed, List.cons_append, feedAll, feed_comma,
        Option.bind_some, feedAll_joined _ (List.cons_ne_nil _ _)]
      · rfl
      all_goals rcases hmode with rfl | rfl | ⟨rfl, -⟩ <;> exact Mode.noConfusion

end Reader

theorem reader_writerows (rows : List (List Text)) : reader (rows.flatMap writerow) = some rows := by
  have hfeed : ∀ done, (Reader.after done).feedAll (rows.flatMap writerow) = some (.after (done ++ rows)) := by
    induction rows with
    | nil => intro done; rw [List.append_nil]; rfl
    | cons row rows ih =>
      intro done
      rw [List.flatMap_cons, Reader.feedAll_of_eq_some (Reader.feedAll_writerow done row), ih, List.append_assoc]
      rfl
  rw [reader, hfeed]
  rfl

/-! ### Dictionaries -/

/-- `DictWriter(fieldnames)` of a row; `none` raises for a key without a column. -/
def dictRow {κ : Type*} [DecidableEq κ] (fieldnames : List κ) (row : PyDict κ Text) : Option (List Text) :=
  if ∀ k ∈ row.keys, k ∈ fieldnames then some (fieldnames.map fun k => (row.get? k).getD []) else none

/-- What `DictReader` makes of a row: a value for each column, `None` where the row is too short, and under `None`
what is left over. -/
structure Record where
  columns : List (Text × Option Text)
  rest : List Text
  deriving DecidableEq, Repr

def record : List Text → List Text → Record
  | [], row => ⟨[], row⟩
  | name :: names, [] => ⟨(name :: names).map fun n => (n, none), []⟩
  | name :: names, value :: row => { record names row with columns := (name, some value) :: (record names row).columns }

/-- `list(csv.DictReader(io.StringIO(text)))`; empty lines are skipped. -/
def dictReader (text : Text) : Option (List Record) := do
  match ← reader text with
  | [] => pure []
  | names :: rows => pure ((rows.filter (· ≠ [])).map (record names))

end Csv
