import LinearSystems.Binary.Text
import LinearSystems.Proofs.Text.Matrices
import Mathlib.Algebra.BigOperators.Group.Finset.Basic

/-!
# Aligned columns

In the wide layout a matrix is a table of texts, one line for each row. The widths of the columns
are found in a first pass over the rows, as the running maximum of the widths of the texts
(`DenseMatrix.columnWidths_eq`); in a second pass each text is padded to the width of its column. So
all lines have the same outline: up to the end of a column they have the same number of characters,
however wide their own texts are (`take_line`).

`InColumns` says what is seen of a line. It mentions the characters of the line and the texts of the
entries, but neither padding nor widths.
-/

namespace LinearSystems

/-- The lines of a text. -/
def lines (text : String) : List (List Char) :=
  text.toList.splitOn '\n'

/-- A line shows texts in columns that end at given offsets: behind the opening bracket, each column
holds some blanks and then the whole text of its entry, up to the offset where the column ends. The
closing bracket follows, behind a blank. -/
structure InColumns (stop : ℕ → ℕ) (c : ℕ) (texts : ℕ → String) (line : List Char) : Prop where
  opening : line.take (stop 0) = ['[']
  column : ∀ j < c, ∃ blanks, 0 < blanks ∧
    line.take (stop (j + 1)) = line.take (stop j) ++ (List.replicate blanks ' ' ++ (texts j).toList)
  closing : line.drop (stop c) = [' ', ']']

/-- All lines with the same columns are equally long. -/
theorem InColumns.length_eq {stop : ℕ → ℕ} {c : ℕ} {texts : ℕ → String} {line : List Char}
    (h : InColumns stop c texts line) : line.length = stop c + 2 := by
  have hlength := congrArg List.length h.closing
  rw [List.length_drop, List.length_cons, List.length_singleton] at hlength
  omega

/-! ### Lines -/

section Lines

variable (width : ℕ → ℕ) (texts : ℕ → String)

/-- What a line shows of an entry: a blank, the padding and the text. -/
def cell (width : ℕ) (e : String) : List Char :=
  List.replicate (1 + (width - e.length)) ' ' ++ e.toList

/-- A line up to the end of the first `j` columns. -/
def lineStart (j : ℕ) : List Char :=
  '[' :: (List.range j).flatMap fun k => cell (width k) (texts k)

/-- The offset at which the first `j` columns end. -/
def columnStop (j : ℕ) : ℕ :=
  1 + ∑ k ∈ Finset.range j, (1 + width k)

theorem lineStart_succ (j : ℕ) :
    lineStart width texts (j + 1) = lineStart width texts j ++ cell (width j) (texts j) := by
  simp [lineStart, List.range_succ]

/-- The texts before an offset do not matter for it, if they fit. -/
theorem length_lineStart {j : ℕ} (h : ∀ k < j, (texts k).length ≤ width k) :
    (lineStart width texts j).length = columnStop width j := by
  induction j with
  | zero => rfl
  | succ j ih =>
    have hfit := h j (Nat.lt_succ_self j)
    rw [lineStart_succ, List.length_append, ih fun k hk => h k (Nat.lt_succ_of_lt hk), cell,
      columnStop, columnStop, Finset.sum_range_succ, List.length_append, List.length_replicate,
      String.length_toList]
    omega

/-- The line that the wide layout makes of a row. -/
theorem toList_alignedLine (c : ℕ) :
    (DenseMatrix.alignedLine ((List.range c).map width) ((List.range c).map texts)).toList
      = lineStart width texts c ++ [' ', ']'] := by
  have hcell (j : ℕ) : (" " ++ DenseMatrix.padLeft (width j) (texts j)).toList
      = cell (width j) (texts j) := by
    simp [DenseMatrix.padLeft, cell, Nat.add_comm 1, List.replicate_succ]
  rw [DenseMatrix.alignedLine, List.zipWith_map, List.zipWith_self]
  simp [String.toList_join, List.flatMap_map, hcell, lineStart]

variable {width texts}

/-- **Up to the end of a column**, a line holds the columns up to there. -/
theorem take_line {c j : ℕ} (h : ∀ k < c, (texts k).length ≤ width k) (hj : j ≤ c) :
    (lineStart width texts c ++ [' ', ']']).take (columnStop width j)
      = lineStart width texts j := by
  -- the columns behind the offset are cut off
  obtain ⟨rest, hrest⟩ : ∃ rest, lineStart width texts c = lineStart width texts j ++ rest := by
    obtain ⟨n, rfl⟩ := Nat.exists_eq_add_of_le hj
    simp [lineStart, List.range_add]
  rw [hrest, List.append_assoc,
    List.take_left' (length_lineStart width texts fun k hk => h k (Nat.lt_of_lt_of_le hk hj))]

/-- **Texts that fit are shown in columns.** -/
theorem inColumns_line {c : ℕ} (h : ∀ k < c, (texts k).length ≤ width k) :
    InColumns (columnStop width) c texts (lineStart width texts c ++ [' ', ']']) where
  opening := take_line h (Nat.zero_le c)
  column j hj := by
    rw [take_line h hj, take_line h hj.le, lineStart_succ]
    exact ⟨1 + (width j - (texts j).length), by omega, rfl⟩
  closing := List.drop_left' (length_lineStart width texts h)

/-- A line has no line breaks, if the texts have none. -/
theorem newline_notMem_line {c : ℕ} (h : ∀ j < c, '\n' ∉ (texts j).toList) :
    '\n' ∉ lineStart width texts c ++ [' ', ']'] := by
  have hcell : ∀ j < c, '\n' ∉ cell (width j) (texts j) := by
    intro j hj
    rw [cell, List.mem_append, not_or]
    exact ⟨fun hblank => absurd (List.eq_of_mem_replicate hblank) (by decide), h j hj⟩
  simpa [lineStart] using hcell

end Lines

/-! ### Matrices -/

namespace DenseMatrix

section Matrices

variable {K : Type} [Scalar K] [ScalarText K] {opts : PrintOptions} {m : DenseMatrix K}
  {texts : ℕ → ℕ → String}

/-- The texts of the entries of a matrix, by their positions. -/
def HasTexts (opts : PrintOptions) (m : DenseMatrix K) (texts : ℕ → ℕ → String) : Prop :=
  ∀ i < m.nrows, ∀ j < m.ncols,
    ∃ e, m.get i j = .ok e ∧ ScalarText.format opts e = .ok (texts i j)

theorem HasTexts.format_eq_layout (htexts : HasTexts opts m texts) (h : IsTable m) :
    m.format opts = layout opts
      ((List.range m.nrows).map fun i => (List.range m.ncols).map (texts i)) := by
  have hentry : ∀ i < m.nrows, ∀ j < m.ncols,
      ScalarText.format opts (m.entry i j) = .ok (texts i j) := by
    intro i hi j hj
    obtain ⟨e, hget, hformat⟩ := htexts i hi j hj
    rw [get_eq_entry h.wellFormed hi hj, Except.ok.injEq] at hget
    rwa [hget]
  have hmap : m.rowChunks.mapM (fun row => row.mapM (ScalarText.format opts))
      = .ok ((List.range m.nrows).map fun i => (List.range m.ncols).map (texts i)) := by
    rw [h.rowChunks_eq, List.mapM_map]
    refine mapM_eq_ok fun i hi => ?_
    rw [Function.comp, List.mapM_map]
    exact mapM_eq_ok fun j hj => hentry i (List.mem_range.mp hi) j (List.mem_range.mp hj)
  rw [format, hmap, ok_bind]

/-- A matrix with a text has texts of all its entries. -/
theorem IsTable.exists_hasTexts (h : IsTable m) {text : String}
    (hformat : m.format opts = .ok text) : ∃ texts, HasTexts opts m texts := by
  have hentry : ∀ i < m.nrows, ∀ j < m.ncols,
      ∃ t, ScalarText.format opts (m.entry i j) = .ok t := by
    intro i hi j hj
    obtain ⟨table, htable, -⟩ := bind_eq_ok.mp hformat
    rw [h.rowChunks_eq] at htable
    obtain ⟨row, hrow⟩ := exists_eq_ok_of_mapM_eq_ok htable _
      (List.mem_map_of_mem (List.mem_range.mpr hi))
    exact exists_eq_ok_of_mapM_eq_ok hrow _ (List.mem_map_of_mem (List.mem_range.mpr hj))
  choose! texts htexts using hentry
  exact ⟨texts, fun i hi j hj => ⟨_, get_eq_entry h.wellFormed hi hj, htexts i hi j hj⟩⟩

/-- The wide layout of a matrix: its lines, if no text is too wide. -/
theorem HasTexts.format_eq_ok_iff (htexts : HasTexts opts m texts) (h : IsTable m)
    (hlatex : opts.isLatex = false) (hpretty : opts.prettyMatrix = true) {text : String} :
    m.format opts = .ok text ↔
      (∀ i < m.nrows, ∀ j < m.ncols, (texts i j).length ≤ layoutLimit) ∧
        text.toList = ['\n'].intercalate ((List.range m.nrows).map fun i =>
          lineStart (widest texts m.nrows) (texts i) m.ncols ++ [' ', ']']) := by
  have hwidths : columnWidths ((List.range m.nrows).map fun i => (List.range m.ncols).map (texts i))
      = (List.range m.ncols).map (widest texts m.nrows) := columnWidths_eq texts h.nrows_pos m.ncols
  have hlimit : (∀ w ∈ (List.range m.ncols).map (widest texts m.nrows), w ≤ layoutLimit) ↔
      ∀ i < m.nrows, ∀ j < m.ncols, (texts i j).length ≤ layoutLimit := by
    simpa using forall_widest_le_iff texts m.nrows m.ncols layoutLimit
  rw [htexts.format_eq_layout h, layout, hlatex, if_neg Bool.false_ne_true, if_pos hpretty,
    alignedText_eq_ok_iff, hwidths, hlimit, ← String.toList_inj, String.toList_intercalate,
    List.map_map, List.map_map, eq_comm (a := text.toList)]
  simp only [Function.comp_def, toList_alignedLine]
  rfl

/-- **The wide layout shows the texts of the entries in columns.** Let a matrix have a row and a
column, and let the texts of its entries have no line breaks. It has a text in the wide layout if
its entries have texts that are not too wide, and only then. The text has one line for each row, and
all lines have the same number of characters. There are offsets at which the columns end, the same
on each line, and what a line holds between them are blanks and the whole text of the entry. -/
theorem wide_layout_aligned (h : IsTable m) (hlatex : opts.isLatex = false)
    (hpretty : opts.prettyMatrix = true)
    (hbreak : ∀ e ∈ m.entries, ∀ t, ScalarText.format opts e = .ok t → '\n' ∉ t.toList) :
    ((∃ text, m.format opts = .ok text) ↔ ∃ texts, HasTexts opts m texts ∧
      ∀ i < m.nrows, ∀ j < m.ncols, (texts i j).length ≤ layoutLimit) ∧
    ∀ text, m.format opts = .ok text → ∃ texts stop, HasTexts opts m texts ∧
      (lines text).length = m.nrows ∧
      (∀ line ∈ lines text, line.length = stop m.ncols + 2) ∧
      ∀ i < m.nrows, ∃ line, (lines text)[i]? = some line ∧
        InColumns stop m.ncols (texts i) line := by
  refine ⟨⟨fun ⟨text, hformat⟩ => ?_, fun ⟨texts, htexts, hfit⟩ => ?_⟩, fun text hformat => ?_⟩
  · obtain ⟨texts, htexts⟩ := h.exists_hasTexts hformat
    exact ⟨texts, htexts, ((htexts.format_eq_ok_iff h hlatex hpretty).mp hformat).1⟩
  · exact ⟨_, (htexts.format_eq_ok_iff h hlatex hpretty).mpr
      ⟨hfit, String.toList_ofList⟩⟩
  · obtain ⟨texts, htexts⟩ := h.exists_hasTexts hformat
    have hlines : lines text = (List.range m.nrows).map fun i =>
        lineStart (widest texts m.nrows) (texts i) m.ncols ++ [' ', ']'] := by
      rw [lines, ((htexts.format_eq_ok_iff h hlatex hpretty).mp hformat).2]
      refine List.splitOn_intercalate '\n' ?_ (by simpa using h.nrows_pos.ne')
      rw [List.forall_mem_map]
      refine fun i hi => newline_notMem_line fun j hj => ?_
      obtain ⟨e, hget, htext⟩ := htexts i (List.mem_range.mp hi) j hj
      exact hbreak e (Array.mem_of_getElem? (get_eq_ok_iff.mp hget)) _ htext
    have hcolumns : ∀ i < m.nrows, InColumns (columnStop (widest texts m.nrows)) m.ncols (texts i)
        (lineStart (widest texts m.nrows) (texts i) m.ncols ++ [' ', ']']) :=
      fun i hi => inColumns_line fun j _ => length_le_widest texts hi j
    refine ⟨texts, columnStop (widest texts m.nrows), htexts, ?_, ?_,
      fun i hi => ⟨_, ?_, hcolumns i hi⟩⟩
    · rw [hlines, List.length_map, List.length_range]
    · rw [hlines, List.forall_mem_map]
      exact fun i hi => (hcolumns i (List.mem_range.mp hi)).length_eq
    · rw [hlines, List.getElem?_map, List.getElem?_range hi]
      rfl

end Matrices

/-- Fractions in two columns. -/
theorem wide_layout_of_fractions :
    let m : DenseMatrix ℚ := ⟨2, 2, #[1, 1/2, -3, 10]⟩
    let opts : PrintOptions := { prettyMatrix := true }
    let text := "[  1 1/2 ]\n[ -3  10 ]"
    IsTable m ∧ opts.isLatex = false ∧ opts.prettyMatrix = true ∧
    (∀ e ∈ m.entries, ∀ t, ScalarText.format opts e = .ok t → '\n' ∉ t.toList) ∧
    m.format opts = .ok text ∧ ∃ texts stop, HasTexts opts m texts ∧
      (lines text).length = 2 ∧ (∀ line ∈ lines text, line.length = stop 2 + 2) ∧
      ∀ i < 2, ∃ line, (lines text)[i]? = some line ∧ InColumns stop 2 (texts i) line := by
  intro m opts text
  have htable : IsTable m := ⟨by decide, by decide, by decide⟩
  have hbreak : ∀ e ∈ m.entries, ∀ t, ScalarText.format opts e = .ok t → '\n' ∉ t.toList := by
    have hentries : ∀ e ∈ m.entries, '\n' ∉ (entryText opts e).toList := by decide +kernel
    intro e he t htext
    rw [format_eq_entryText, Except.ok.injEq] at htext
    exact htext ▸ hentries e he
  have hformat : m.format opts = .ok text := by decide +kernel
  exact ⟨htable, rfl, rfl, hbreak, hformat,
    (wide_layout_aligned htable rfl rfl hbreak).2 text hformat⟩

/-! ### A text that is too wide -/

/-- Zero with digits behind the point. -/
theorem toList_fixed_zero (n : ℕ) :
    (Decimal.fixed 0 (n + 1)).toList = '0' :: '.' :: List.replicate (n + 1) '0' := by
  have hdigits : Nat.toDigits 10 0 = ['0'] := rfl
  have hpadded : List.replicate (n + 1 + 1 - ['0'].length) '0' ++ ['0']
      = '0' :: List.replicate (n + 1) '0' := List.replicate_succ'.symm
  simp only [Decimal.fixed, Decimal.placePoint, Nat.succ_ne_zero, if_false, hdigits, hpadded]
  simp

theorem newline_notMem_fixed_zero (n : ℕ) : '\n' ∉ (Decimal.fixed 0 (n + 1)).toList := by
  simp [toList_fixed_zero, List.mem_replicate]

/-- **An entry can be too wide for the wide layout.** The largest precision is granted, but the text
of zero is two characters longer than its digits behind the point. -/
theorem no_wide_layout_of_long_zero :
    let m : DenseMatrix (Binary binary64) := ⟨1, 1, #[Scalar.zero]⟩
    let opts : PrintOptions := { prettyMatrix := true, precision := some 65535 }
    IsTable m ∧ opts.isLatex = false ∧ opts.prettyMatrix = true ∧
    (∀ e ∈ m.entries, ∃ t, ScalarText.format opts e = .ok t ∧ '\n' ∉ t.toList) ∧
    ∀ text, m.format opts ≠ .ok text := by
  intro m opts
  have htable : IsTable m := ⟨rfl, by decide, by decide⟩
  have hzero : ScalarText.format opts (Scalar.zero : Binary binary64)
      = .ok (Decimal.fixed 0 (65534 + 1)) := by
    have hunpack : (Binary.zero : Binary binary64).unpack = .zero .positive := rfl
    have hgranted : checkPrecision (some 65535) = .ok () :=
      checkPrecision_eq_ok_iff.mpr (by simp [layoutLimit])
    change Binary.positional (some 65535) Binary.zero = _
    rw [Binary.positional, hgranted, ok_bind, pure_eq_ok, Binary.text, Binary.textWith, hunpack]
    exact congrArg Except.ok (String.empty_append ..)
  have htexts : HasTexts opts m fun _ _ => Decimal.fixed 0 (65534 + 1) := by
    intro i hi j hj
    obtain rfl : i = 0 := Nat.lt_one_iff.mp hi
    obtain rfl : j = 0 := Nat.lt_one_iff.mp hj
    exact ⟨Scalar.zero, rfl, hzero⟩
  refine ⟨htable, rfl, rfl, ?_, fun text hformat => ?_⟩
  · intro e he
    obtain rfl : e = Scalar.zero := by simpa [m] using he
    exact ⟨_, hzero, newline_notMem_fixed_zero 65534⟩
  · have hfit := ((htexts.format_eq_ok_iff htable rfl rfl).mp hformat).1 0 Nat.one_pos 0 Nat.one_pos
    rw [← String.length_toList, toList_fixed_zero, List.length_cons, List.length_cons,
      List.length_replicate, layoutLimit] at hfit
    omega

end DenseMatrix

end LinearSystems
