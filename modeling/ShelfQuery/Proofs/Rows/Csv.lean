import ShelfQuery.Rows.Row

set_option autoImplicit false

namespace ShelfQuery.Rows.Csv

open ShelfQuery.Text

/-- At the start of a field, in a field without quotes, in a quoted field, or after a quote in a quoted field. -/
inductive Place where
  | start | plain | quoted | closed
  deriving DecidableEq

structure Reader where
  place : Place := .start
  field : List Char := []
  record : List String := []
  records : List (List String) := []

namespace Reader

def endField (r : Reader) : Reader := { r with place := .start, field := [], record := r.record ++ [String.ofList r.field] }

def endRecord (r : Reader) : Reader := { records := r.records ++ [r.endField.record] }

def push (r : Reader) (place : Place) (c : Char) : Reader := { r with place, field := r.field ++ [c] }

def step (r : Reader) (c : Char) : Option Reader :=
  if r.place = .quoted then some (if c = '"' then { r with place := .closed } else r.push .quoted c)
  else if c = ',' then some r.endField
  else if c = '\n' then some r.endRecord
  else if c = '"' then
    match r.place with
    | .start => some { r with place := .quoted }
    | .closed => some (r.push .quoted c)
    | _ => none
  else if c = '\r' ∨ r.place = .closed then none
  else some (r.push .plain c)

end Reader

/-- The records of a text, if it is CSV and ends where a record does. -/
def decode (text : String) : Option (List (List String)) := do
  let r ← text.toList.foldlM Reader.step {}
  if r.place = .start ∧ r.record = [] then some r.records else none

theorem foldlM_plain {cs : List Char} (hcs : Dataset.needsQuotes cs = false) (r : Reader)
    (hplace : r.place = .start ∨ r.place = .plain) :
    ∃ place ≠ .quoted, cs.foldlM Reader.step r = some { r with place, field := r.field ++ cs } := by
  induction cs generalizing r with
  | nil =>
    refine ⟨r.place, ?_, by simp⟩
    rcases hplace with hplace | hplace <;> simp [hplace]
  | cons c cs ih =>
    simp only [Dataset.needsQuotes, List.any_cons, Bool.or_eq_false_iff, beq_eq_false_iff_ne, and_assoc] at hcs
    obtain ⟨hcomma, hquote, hfeed, hreturn, hrest⟩ := hcs
    have hstep : r.step c = some (r.push .plain c) := by
      rcases hplace with hplace | hplace <;> simp [Reader.step, hplace, hcomma, hquote, hfeed, hreturn]
    obtain ⟨place, hne, hfold⟩ := ih hrest (r.push .plain c) (.inr rfl)
    refine ⟨place, hne, ?_⟩
    rw [List.foldlM_cons, hstep]
    simpa [Reader.push] using hfold

theorem foldlM_quoted (cs : List Char) (r : Reader) (hplace : r.place = .quoted) :
    (cs.flatMap (fun c => if c = '"' then ['"', '"'] else [c]) ++ ['"']).foldlM Reader.step r =
      some { r with place := .closed, field := r.field ++ cs } := by
  induction cs generalizing r with
  | nil => simp [Reader.step, hplace]
  | cons c cs ih =>
    have hchar : (if c = '"' then ['"', '"'] else [c]).foldlM Reader.step r = some (r.push .quoted c) := by
      by_cases hc : c = '"'
      · subst hc
        simp [Reader.step, hplace, Reader.push]
      · simp [Reader.step, hplace, Reader.push, hc]
    rw [List.flatMap_cons, List.append_assoc, List.foldlM_append, hchar]
    change List.foldlM Reader.step (r.push .quoted c) _ = _
    rw [ih _ rfl]
    simp [Reader.push]

theorem foldlM_csvField (s : String) (r : Reader) (hplace : r.place = .start) (hfield : r.field = []) :
    ∃ place ≠ .quoted, (Dataset.csvField s).toList.foldlM Reader.step r = some { r with place, field := s.toList } := by
  unfold Dataset.csvField
  split
  · refine ⟨.closed, by decide, ?_⟩
    have hopen : r.step '"' = some { r with place := .quoted } := by simp [Reader.step, hplace]
    rw [String.toList_ofList, List.cons_append, List.foldlM_cons, hopen]
    simpa [hfield] using foldlM_quoted s.toList { r with place := .quoted } rfl
  · next hplain => simpa [hfield] using foldlM_plain (Bool.eq_false_iff.mpr hplain) r (.inl hplace)

theorem foldlM_csvLine {fields : List String} (hne : fields ≠ []) (r : Reader) (hplace : r.place = .start)
    (hfield : r.field = []) :
    (Dataset.csvLine fields).toList.foldlM Reader.step r = some { records := r.records ++ [r.record ++ fields] } := by
  induction fields generalizing r with
  | nil => exact absurd rfl hne
  | cons s rest ih =>
    obtain ⟨place, hquoted, hread⟩ := foldlM_csvField s r hplace hfield
    cases rest with
    | nil =>
      have hend : (⟨place, s.toList, r.record, r.records⟩ : Reader).step '\n' =
          some { records := r.records ++ [r.record ++ [s]] } := by
        simp [Reader.step, hquoted, Reader.endRecord, Reader.endField]
      simp [Dataset.csvLine, join, hread, hend]
    | cons t rest =>
      have hcomma : (⟨place, s.toList, r.record, r.records⟩ : Reader).step ',' =
          some ⟨.start, [], r.record ++ [s], r.records⟩ := by
        simp [Reader.step, hquoted, Reader.endField]
      have htail := ih (by simp) ⟨.start, [], r.record ++ [s], r.records⟩ rfl rfl
      have hline : (Dataset.csvLine (s :: t :: rest)).toList =
          (Dataset.csvField s).toList ++ ',' :: (Dataset.csvLine (t :: rest)).toList := by
        simp [Dataset.csvLine, join]
      rw [hline, List.foldlM_append, hread]
      change (((⟨place, s.toList, r.record, r.records⟩ : Reader).step ',').bind _) = _
      rw [hcomma]
      simpa using htail

theorem foldlM_lines {lines : List (List String)} (hne : ∀ fields ∈ lines, fields ≠ []) (records : List (List String)) :
    (String.join (lines.map Dataset.csvLine)).toList.foldlM Reader.step { records } =
      some { records := records ++ lines } := by
  induction lines generalizing records with
  | nil => simp
  | cons fields lines ih =>
    have hjoin : String.join ((fields :: lines).map Dataset.csvLine) =
        Dataset.csvLine fields ++ String.join (lines.map Dataset.csvLine) := by simp [String.join_cons]
    rw [hjoin, String.toList_append, List.foldlM_append, foldlM_csvLine (hne fields (by simp)) _ rfl rfl]
    simpa using ih (fun g hg => hne g (by simp [hg])) (records ++ [fields])

/-- The CSV of a dataset with columns is read as its header and, row by row, the texts of its cells. -/
theorem decode_csv (d : Dataset) (hheaders : d.headers ≠ []) (hrows : ∀ row ∈ d.rows, row.length = d.headers.length) :
    decode d.csv = some (d.headers :: d.rows.map fun row => row.map Cell.display) := by
  have hlines : d.csv = String.join ((d.headers :: d.rows.map fun row => row.map Cell.display).map Dataset.csvLine) := by
    simp [Dataset.csv, String.join_cons, Function.comp_def]
  have hne : ∀ fields ∈ d.headers :: d.rows.map fun row => row.map Cell.display, fields ≠ [] := by
    refine List.forall_mem_cons.mpr ⟨hheaders, fun fields hmem hnil => ?_⟩
    obtain ⟨row, hrow, rfl⟩ := List.mem_map.mp hmem
    have hlength := hrows row hrow
    rw [List.map_eq_nil_iff.mp hnil] at hlength
    exact hheaders (List.length_eq_zero_iff.mp hlength.symm)
  rw [decode, hlines, foldlM_lines hne []]
  rfl

/-- Quotes, commas and line ends in a header and in cells, and a row of nothing. -/
theorem decode_csv_quotes :
    let d : Dataset := ⟨["say \"a,b\"", ""], [[.text "\r\n\"", .int (-7)], [.null, .text ""]]⟩
    d.headers ≠ [] ∧ (∀ row ∈ d.rows, row.length = d.headers.length) ∧
      decode d.csv = some [["say \"a,b\"", ""], ["\r\n\"", "-7"], ["", ""]] := by
  intro d
  have hheaders : d.headers ≠ [] := by simp [d]
  have hrows : ∀ row ∈ d.rows, row.length = d.headers.length := by simp [d]
  exact ⟨hheaders, hrows, decode_csv d hheaders hrows⟩

end ShelfQuery.Rows.Csv
