import LinearSystems.Text.Layout
import LinearSystems.Proofs.DenseMatrix.Layout
import LinearSystems.Proofs.Text.Solutions
import Mathlib.Data.Finset.Lattice.Fold
import Mathlib.Order.Lattice.Nat

/-!
# Reading rational matrices and systems

A matrix with a row and a column can be read off its text, in each of its layouts, and so can a
system with an equation.

* In LaTeX, a row ends at a double backslash or at the end of the environment, while a fraction
  begins with a single one.
* In braces, each row is closed by its own.
* In the wide layout, blanks stand in front of each entry and of the closing bracket, and no entry
  begins with a blank or a bracket. The number of blanks depends on the other rows, so a line is
  read as a list of entries with blanks (`paddedEntry`), of which only the entries are kept. This is
  the only layout that can fail: it exists if no entry is wider than `layoutLimit`.
* The line of an equation has a bar in front of its last entry.
-/

namespace LinearSystems

/-! ### Tables in LaTeX and in braces -/

/-- A row of LaTeX ends. -/
def EndsRow (s : List Char) : Prop :=
  Begins "\\\\" s ∨ Begins "\\end\x7bpmatrix\x7d" s

theorem readable_latexRow (opts : PrintOptions) :
    Readable EndsRow fun row : List ℚ => " & ".intercalate (row.map (entryText opts)) := by
  refine (readable_entryText opts).intercalate (fun s => ?_) ?_ (fun q s => ?_) fun q s => ?_
  · simp
  · rintro _ (⟨rest, rfl⟩ | ⟨rest, rfl⟩)
    · simp
    · simp
  · simp [EndsRow, Begins]
  · rw [EndsRow, not_or]
    constructor
    · exact not_begins_entryText opts q s (by simp [Begins])
    · exact not_begins_entryText opts q s (by simp [Begins])

/-- The rows of LaTeX. -/
theorem readable_latexTable (opts : PrintOptions) :
    Readable (fun _ => True) fun rows : {rows : List (List ℚ) // rows ≠ []} =>
      pmatrix ("\\\\".intercalate
        (rows.1.map fun row => " & ".intercalate (row.map (entryText opts)))) := by
  refine (Readable.enclosed ?_ "\\begin\x7bpmatrix\x7d" :)
  exact (readable_latexRow opts).intercalate_of_ne_nil (fun s => Or.inl (begins_append _ s))
    (fun _ => Or.inr) fun row s => by simp [Begins]

/-- The rows in braces. -/
theorem readable_bracedTable (opts : PrintOptions) :
    Readable (fun _ => True) fun rows : List (List ℚ) =>
      braced (",".intercalate
        (rows.map fun row => braced (",".intercalate (row.map (entryText opts))))) := by
  refine (Readable.enclosed ?_ "\x7b" :)
  exact (readable_bracedEntries opts).intercalate (fun _ => trivial) (fun _ _ => trivial)
    (fun row s => by simp [Begins]) fun row s => by simp [Begins, braced]

/-! ### The wide layout -/

theorem readable_blanks :
    Readable (fun s => ¬Begins " " s) fun n => String.ofList (List.replicate n ' ') := by
  have hcons (n : ℕ) (s : List Char) : (String.ofList (List.replicate (n + 1) ' ')).toList ++ s
      = ' ' :: ((String.ofList (List.replicate n ' ')).toList ++ s) := by
    simp [List.replicate_succ]
  intro m n s t hs ht heq
  induction m generalizing n with
  | zero =>
    cases n with
    | zero => exact ⟨rfl, heq⟩
    | succ n => exact absurd ⟨_, heq.trans (hcons n t)⟩ hs
  | succ m ih =>
    cases n with
    | zero => exact absurd ⟨_, heq.symm.trans (hcons m s)⟩ ht
    | succ n =>
      rw [hcons, hcons] at heq
      obtain ⟨rfl, hst⟩ := ih (List.cons.inj heq).2
      exact ⟨rfl, hst⟩

/-- An entry of the wide layout, given the number of the blanks that pad it. -/
def paddedEntry (opts : PrintOptions) (p : ℕ × ℚ) : String :=
  " " ++ (String.ofList (List.replicate p.1 ' ') ++ entryText opts p.2)

theorem readable_paddedEntry (opts : PrintOptions) : Readable EndsEntry (paddedEntry opts) := by
  have hentry := readable_blanks.append (readable_entryText opts) fun q s _ =>
    not_begins_entryText opts q s (by simp [Begins])
  exact (hentry.text_append " " :)

/-- A line of the wide layout. -/
def paddedLine (opts : PrintOptions) (ps : List (ℕ × ℚ)) : String :=
  "[" ++ String.join (ps.map (paddedEntry opts)) ++ " ]"

theorem readable_paddedLine (opts : PrintOptions) :
    Readable (fun _ => True) (paddedLine opts) := by
  refine (Readable.enclosed ?_ "[" :)
  refine (readable_paddedEntry opts).join ?_ (fun p s => ?_) fun p s => ?_
  · rintro _ ⟨rest, rfl⟩
    simp
  · simp [paddedEntry]
  · -- behind the first blank there is another one, or the entry
    have hentry := not_begins_entryText opts p.2 s (w := "]") (by simp [Begins])
    rintro ⟨rest, hrest⟩
    cases hblanks : p.1 with
    | zero => exact hentry ⟨rest, by simpa [paddedEntry, hblanks] using hrest⟩
    | succ n => simp [paddedEntry, hblanks, List.replicate_succ] at hrest

/-- The entries of a row with the blanks that pad them. -/
def paddedRow (opts : PrintOptions) (widths : List ℕ) (row : List ℚ) : List (ℕ × ℚ) :=
  List.zipWith (fun w q => (w - (entryText opts q).length, q)) widths row

theorem alignedLine_eq (opts : PrintOptions) (widths : List ℕ) (row : List ℚ) :
    DenseMatrix.alignedLine widths (row.map (entryText opts))
      = paddedLine opts (paddedRow opts widths row) := by
  rw [DenseMatrix.alignedLine, paddedLine, paddedRow, List.zipWith_map_right, List.map_zipWith]
  rfl

/-- As many widths as entries keep all of them. -/
theorem map_snd_paddedRow (opts : PrintOptions) {widths : List ℕ} {row : List ℚ}
    (h : row.length ≤ widths.length) : (paddedRow opts widths row).map Prod.snd = row := by
  rw [paddedRow, List.map_zipWith, ← List.map_uncurry_zip_eq_zipWith]
  exact List.map_snd_zip h

/-! ### The widths of the columns -/

namespace DenseMatrix

/-- The width of the widest text in a column. -/
def widest (texts : ℕ → ℕ → String) (r j : ℕ) : ℕ :=
  (Finset.range r).sup fun i => (texts i j).length

theorem length_le_widest (texts : ℕ → ℕ → String) {r i : ℕ} (hi : i < r) (j : ℕ) :
    (texts i j).length ≤ widest texts r j :=
  Finset.le_sup (f := fun i => (texts i j).length) (Finset.mem_range.mpr hi)

theorem forall_widest_le_iff (texts : ℕ → ℕ → String) (r c limit : ℕ) :
    (∀ j < c, widest texts r j ≤ limit) ↔ ∀ i < r, ∀ j < c, (texts i j).length ≤ limit := by
  simp only [widest, Finset.sup_le_iff, Finset.mem_range]
  exact ⟨fun h i hi j hj => h j hj i hi, fun h j hj i hi => h i hi j hj⟩

/-- A row that is added to a table widens each column to its text. -/
theorem columnWidths_concat {rows : List (List String)} (hne : rows ≠ []) (row : List String) :
    columnWidths (rows ++ [row])
      = List.zipWith max (columnWidths rows) (row.map String.length) := by
  obtain ⟨first, rows, rfl⟩ := List.exists_cons_of_ne_nil hne
  exact List.foldl_concat ..

/-- **A column is as wide as its widest text.** -/
theorem columnWidths_eq (texts : ℕ → ℕ → String) {r : ℕ} (hr : 0 < r) (c : ℕ) :
    columnWidths ((List.range r).map fun i => (List.range c).map (texts i))
      = (List.range c).map (widest texts r) := by
  induction r, hr using Nat.le_induction with
  | base => simp [columnWidths, widest]
  | succ r hr ih =>
    have hne : ((List.range r).map fun i => (List.range c).map (texts i)) ≠ [] := by
      simpa using Nat.ne_of_gt hr
    rw [List.range_succ, List.map_append, List.map_singleton, columnWidths_concat hne, ih,
      List.map_map, List.zipWith_map, List.zipWith_self]
    refine List.map_congr_left fun j _ => ?_
    rw [widest, widest, Finset.range_add_one, Finset.sup_insert, sup_comm]
    rfl

end DenseMatrix

/-- A table whose rows have one length holds a text at each position. -/
theorem exists_eq_map_range {rows : List (List String)} {n : ℕ}
    (h : ∀ row ∈ rows, row.length = n) : ∃ texts : ℕ → ℕ → String,
      rows = (List.range rows.length).map fun i => (List.range n).map (texts i) := by
  refine ⟨fun i j => (rows.getD i []).getD j "", List.ext_getElem (by simp) fun i hi _ => ?_⟩
  have hlength : rows[i].length = n := h _ (List.getElem_mem hi)
  simp only [List.getElem_map, List.getElem_range, ← List.getElem_eq_getD (h := hi)]
  refine List.ext_getElem (by simpa using hlength) fun j hj _ => ?_
  simp only [List.getElem_map, List.getElem_range]
  exact List.getElem_eq_getD ""

/-- A table has one width for each column, and they are within a limit exactly if all texts are. -/
theorem columnWidths_spec (limit n : ℕ) {rows : List (List String)} (hne : rows ≠ [])
    (h : ∀ row ∈ rows, row.length = n) :
    (DenseMatrix.columnWidths rows).length = n ∧
      ((∀ w ∈ DenseMatrix.columnWidths rows, w ≤ limit) ↔
        ∀ row ∈ rows, ∀ e ∈ row, e.length ≤ limit) := by
  obtain ⟨texts, htexts⟩ := exists_eq_map_range h
  have hwidths := DenseMatrix.columnWidths_eq texts (List.length_pos_iff.mpr hne) n
  rw [← htexts] at hwidths
  rw [hwidths, htexts]
  simpa using DenseMatrix.forall_widest_le_iff texts rows.length n limit

/-! ### Tables -/

/-- The texts of a table. -/
def tableTexts (opts : PrintOptions) (rows : List (List ℚ)) : List (List String) :=
  rows.map fun row => row.map (entryText opts)

/-- The wide layout exists if no column is too wide. -/
theorem alignedText_eq_ok_iff {texts : List (List String)} {text : String} :
    DenseMatrix.alignedText texts = .ok text ↔
      (∀ w ∈ DenseMatrix.columnWidths texts, w ≤ layoutLimit) ∧
        "\n".intercalate (texts.map
          (DenseMatrix.alignedLine (DenseMatrix.columnWidths texts))) = text := by
  rw [DenseMatrix.alignedText]
  cases hfind : (DenseMatrix.columnWidths texts).find? (layoutLimit < ·) with
  | none =>
    have hwidths : ∀ w ∈ DenseMatrix.columnWidths texts, w ≤ layoutLimit := by
      simpa using hfind
    rw [Except.ok.injEq, and_iff_right hwidths]
  | some width =>
    have hwide : layoutLimit < width := by simpa using List.find?_some hfind
    refine iff_of_false (fun h => nomatch h) fun h => ?_
    exact Nat.not_le.mpr hwide (h.1 width (List.mem_of_find?_eq_some hfind))

theorem length_of_mem_tableTexts (opts : PrintOptions) {rows : List (List ℚ)} {n : ℕ}
    (hrows : ∀ row ∈ rows, row.length = n) : ∀ row ∈ tableTexts opts rows, row.length = n := by
  rw [tableTexts, List.forall_mem_map]
  intro row hrow
  rw [List.length_map, hrows row hrow]

/-- The wide layout can be read: the widths of the columns matter for the blanks only. -/
theorem eq_of_alignedText_eq (opts : PrintOptions) {rows rows' : List (List ℚ)} {n n' : ℕ}
    (hne : rows ≠ []) (hne' : rows' ≠ []) (hrows : ∀ row ∈ rows, row.length = n)
    (hrows' : ∀ row ∈ rows', row.length = n') {text : String}
    (h : DenseMatrix.alignedText (tableTexts opts rows) = .ok text)
    (h' : DenseMatrix.alignedText (tableTexts opts rows') = .ok text) : rows = rows' := by
  have hread : Readable (· = []) fun lines : {lines : List (List (ℕ × ℚ)) // lines ≠ []} =>
      "\n".intercalate (lines.1.map (paddedLine opts)) :=
    (readable_paddedLine opts).intercalate_of_ne_nil (fun _ => trivial) (fun _ _ => trivial)
      fun ps s => by simp
  -- the padded rows of a table, their text, and what is left without the blanks
  let padded (rows : List (List ℚ)) : List (List (ℕ × ℚ)) :=
    rows.map (paddedRow opts (DenseMatrix.columnWidths (tableTexts opts rows)))
  have htext (rows : List (List ℚ)) : (tableTexts opts rows).map
      (DenseMatrix.alignedLine (DenseMatrix.columnWidths (tableTexts opts rows)))
        = (padded rows).map (paddedLine opts) := by
    simp only [padded, List.map_map]
    rw [tableTexts, List.map_map]
    exact List.map_congr_left fun row _ => alignedLine_eq opts _ row
  have hentries {rows : List (List ℚ)} {n : ℕ} (hne : rows ≠ [])
      (hrows : ∀ row ∈ rows, row.length = n) : (padded rows).map (·.map Prod.snd) = rows := by
    have hwidths := (columnWidths_spec layoutLimit n (by simpa [tableTexts] using hne)
      (length_of_mem_tableTexts opts hrows)).1
    simp only [padded, List.map_map]
    refine (List.map_congr_left fun row hrow => ?_).trans (List.map_id rows)
    exact map_snd_paddedRow opts (by rw [hwidths, hrows row hrow])
  obtain ⟨-, h⟩ := alignedText_eq_ok_iff.mp h
  obtain ⟨-, h'⟩ := alignedText_eq_ok_iff.mp h'
  rw [htext] at h h'
  have hpadded : padded rows = padded rows' := hread.eq_of_intercalate_eq rfl
    (by simpa [padded] using hne) (by simpa [padded] using hne') (h.trans h'.symm)
  rw [← hentries hne hrows, hpadded, hentries hne' hrows']

/-- **A table can be read off its layout**, if it has a row and its rows have one length. -/
theorem eq_of_layout_eq (opts : PrintOptions) {rows rows' : List (List ℚ)} {n n' : ℕ}
    (hne : rows ≠ []) (hne' : rows' ≠ []) (hrows : ∀ row ∈ rows, row.length = n)
    (hrows' : ∀ row ∈ rows', row.length = n') {text : String}
    (h : DenseMatrix.layout opts (tableTexts opts rows) = .ok text)
    (h' : DenseMatrix.layout opts (tableTexts opts rows') = .ok text) : rows = rows' := by
  rw [DenseMatrix.layout] at h h'
  split_ifs at h h'
  · have heq := Except.ok.inj (h.trans h'.symm)
    rw [tableTexts, tableTexts, List.map_map, List.map_map] at heq
    have htables : (⟨rows, hne⟩ : {rows : List (List ℚ) // rows ≠ []}) = ⟨rows', hne'⟩ :=
      (readable_latexTable opts).injective trivial heq
    exact congrArg Subtype.val htables
  · exact eq_of_alignedText_eq opts hne hne' hrows hrows' h h'
  · have heq := Except.ok.inj (h.trans h'.symm)
    rw [tableTexts, tableTexts, List.map_map, List.map_map] at heq
    exact (readable_bracedTable opts).injective trivial heq

/-- A table has a layout, unless it is the wide one and an entry is too wide. -/
theorem exists_layout_iff (opts : PrintOptions) {rows : List (List ℚ)} {n : ℕ}
    (hne : rows ≠ []) (hrows : ∀ row ∈ rows, row.length = n) :
    (∃ text, DenseMatrix.layout opts (tableTexts opts rows) = .ok text) ↔
      (opts.isLatex = false → opts.prettyMatrix = true →
        ∀ row ∈ rows, ∀ q ∈ row, (entryText opts q).length ≤ layoutLimit) := by
  have hwide := (columnWidths_spec layoutLimit n (by simpa [tableTexts] using hne)
    (length_of_mem_tableTexts opts hrows)).2
  rw [tableTexts] at hwide
  simp only [List.forall_mem_map] at hwide
  rw [DenseMatrix.layout]
  split_ifs with hlatex hpretty
  · simp [hlatex]
  · simp only [alignedText_eq_ok_iff, exists_and_left, exists_eq', and_true, tableTexts, hwide]
    simp [hlatex, hpretty]
  · simp [hpretty]

/-! ### Systems -/

/-- The line of an equation, given its coefficients and its constant. -/
def equationLine (opts : PrintOptions) (p : List ℚ × ℚ) : String :=
  String.join (p.1.map fun q => entryText opts q ++ " ") ++ ("| " ++ entryText opts p.2)

theorem readable_equationLine (opts : PrintOptions) : Readable EndsEntry (equationLine opts) := by
  have hcoefficients : Readable (Begins "| ") fun qs : List ℚ =>
      String.join (qs.map fun q => entryText opts q ++ " ") := by
    have hcoefficient : Readable (fun _ => True) fun q => entryText opts q ++ " " :=
      (readable_entryText opts).append_text " " fun s _ => by simp
    refine hcoefficient.join (fun _ _ => trivial) (fun _ _ => trivial) fun q s => ?_
    rw [String.toList_append, List.append_assoc]
    exact not_begins_entryText opts q _ (by simp [Begins])
  exact (hcoefficients.append ((readable_entryText opts).text_append "| ") fun q s _ => by
    simp [Begins] :)

theorem equationText_eq_ok (opts : PrintOptions) (qs : List ℚ) (q : ℚ) :
    LinearSystem.equationText opts qs.length (qs ++ [q]) = .ok (equationLine opts (qs, q)) := by
  let part (p : ℚ × ℕ) : String := (if p.2 = qs.length then "| " else "") ++ entryText opts p.1
    ++ (if p.2 < qs.length then " " else "")
  have hpart : ∀ p ∈ (qs ++ [q]).zipIdx, (do
      return (if p.2 = qs.length then "| " else "") ++ (← ScalarText.format opts p.1)
        ++ (if p.2 < qs.length then " " else "") : Except Fault String) = .ok (part p) :=
    fun p _ => rfl
  have hcoefficients : qs.zipIdx.map part = qs.map fun e => entryText opts e ++ " " := by
    have hmem : ∀ p ∈ qs.zipIdx, part p = entryText opts p.1 ++ " " := by
      intro p hp
      have hlt : p.2 < qs.length := by simpa using List.snd_lt_of_mem_zipIdx hp
      simp [part, hlt, Nat.ne_of_lt hlt]
    rw [List.map_congr_left hmem]
    conv_rhs => rw [← List.zipIdx_map_fst 0 qs, List.map_map]
    rfl
  have hconstant : part (q, qs.length) = "| " ++ entryText opts q := by simp [part]
  rw [LinearSystem.equationText, mapM_eq_ok hpart, map_ok, List.zipIdx_append, List.map_append,
    hcoefficients, equationLine, Nat.zero_add, List.zipIdx_singleton, List.map_singleton, hconstant]
  refine congrArg Except.ok (String.toList_inj.mp ?_)
  simp [String.toList_join]

/-! ### Faithful texts -/

namespace DenseMatrix

/-- A well-formed matrix with a row and a column. -/
structure IsTable {K : Type} (m : DenseMatrix K) : Prop where
  wellFormed : m.WellFormed
  nrows_pos : 0 < m.nrows
  ncols_pos : 0 < m.ncols

/-- The rows of a table hold its entries. -/
theorem IsTable.rowChunks_eq {K : Type} [Scalar K] {m : DenseMatrix K} (h : IsTable m) : m.rowChunks
    = (List.range m.nrows).map fun i => (List.range m.ncols).map (m.entry i) := by
  have hrows := rowChunks_tabulate (r := m.nrows) m.entry h.ncols_pos
  rwa [tabulate_entry h.wellFormed] at hrows

theorem format_eq_layout (opts : PrintOptions) (m : DenseMatrix ℚ) :
    m.format opts = layout opts (tableTexts opts m.rowChunks) := by
  have hrow : ∀ row ∈ m.rowChunks, row.mapM (ScalarText.format opts)
      = .ok (row.map (entryText opts)) :=
    fun row _ => mapM_eq_ok fun q _ => format_eq_entryText opts q
  rw [format, mapM_eq_ok hrow, ok_bind, tableTexts]

variable {m m' : DenseMatrix ℚ}

theorem IsTable.exists_tabulate (h : IsTable m) : ∃ r n, ∃ f : Grid ℚ,
    0 < r ∧ m = tabulate r (n + 1) f ∧
      m.rowChunks = (List.range r).map fun i => (List.range (n + 1)).map (f i) := by
  obtain ⟨n, hn⟩ := Nat.exists_eq_add_one_of_ne_zero h.ncols_pos.ne'
  have hrows := h.rowChunks_eq
  rw [hn] at hrows
  exact ⟨m.nrows, n, m.entry, h.nrows_pos, eq_tabulate_entry h.wellFormed rfl hn, hrows⟩

theorem IsTable.rowChunks_ne_nil (h : IsTable m) : m.rowChunks ≠ [] := by
  rw [h.rowChunks_eq]
  simpa using h.nrows_pos.ne'

theorem IsTable.length_of_mem_rowChunks (h : IsTable m) :
    ∀ row ∈ m.rowChunks, row.length = m.ncols := by
  rw [h.rowChunks_eq, List.forall_mem_map]
  simp

/-- The rows show the shape and the entries. -/
theorem IsTable.eq_of_rowChunks_eq (h : IsTable m) (h' : IsTable m')
    (heq : m.rowChunks = m'.rowChunks) : m = m' := by
  obtain ⟨r, n, f, hr, rfl, hrows⟩ := h.exists_tabulate
  obtain ⟨r', n', f', -, rfl, hrows'⟩ := h'.exists_tabulate
  rw [hrows, hrows'] at heq
  obtain rfl : r = r' := by simpa using congrArg List.length heq
  have hrow := List.map_inj_left.mp heq
  obtain rfl : n = n' := by simpa using congrArg List.length (hrow 0 (List.mem_range.mpr hr))
  exact tabulate_congr fun i hi j hj =>
    List.map_inj_left.mp (hrow i (List.mem_range.mpr hi)) j (List.mem_range.mpr hj)

/-- The equations of a system with a matrix of `n + 1` columns: coefficients and constant. -/
def equations (r n : ℕ) (f : Grid ℚ) : List (List ℚ × ℚ) :=
  (List.range r).map fun i => ((List.range n).map (f i), f i n)

theorem format_system_tabulate (opts : PrintOptions) (r n : ℕ) (f : Grid ℚ) :
    (⟨tabulate r (n + 1) f⟩ : LinearSystem ℚ).format opts
      = .ok ("\n".intercalate ((equations r n f).map (equationLine opts))) := by
  have hequation : ∀ i ∈ List.range r,
      LinearSystem.equationText opts n ((List.range (n + 1)).map (f i))
        = .ok (equationLine opts ((List.range n).map (f i), f i n)) := by
    intro i _
    have hline := equationText_eq_ok opts ((List.range n).map (f i)) (f i n)
    rw [List.length_map, List.length_range] at hline
    rw [List.range_succ, List.map_append, List.map_singleton, hline]
  have hlines : ((List.range r).map fun i => (List.range (n + 1)).map (f i)).mapM
      (LinearSystem.equationText opts n)
        = .ok ((List.range r).map fun i =>
            equationLine opts ((List.range n).map (f i), f i n)) := by
    rw [List.mapM_map]
    exact mapM_eq_ok hequation
  have hnvars : (⟨tabulate r (n + 1) f⟩ : LinearSystem ℚ).nvars = n := rfl
  rw [LinearSystem.format, rowChunks_tabulate f n.succ_pos, nrows_tabulate,
    List.take_of_length_le (by simp), hnvars, hlines, map_ok, equations, List.map_map]
  rfl

/-- **A system can be read off its text**, if it has an equation. -/
theorem IsTable.eq_of_format_system_eq (opts : PrintOptions) (h : IsTable m) (h' : IsTable m')
    (heq : (⟨m⟩ : LinearSystem ℚ).format opts = (⟨m'⟩ : LinearSystem ℚ).format opts) : m = m' := by
  have hread : Readable (· = []) fun lines : {lines : List (List ℚ × ℚ) // lines ≠ []} =>
      "\n".intercalate (lines.1.map (equationLine opts)) := by
    refine (readable_equationLine opts).intercalate_of_ne_nil (fun s => ?_) ?_ fun p s => ?_
    · simp
    · rintro _ rfl
      simp
    · simp
  -- the constants belong to the rows
  have hrows (r n : ℕ) (f : Grid ℚ) : (equations r n f).map (fun p => p.1 ++ [p.2])
      = (List.range r).map fun i => (List.range (n + 1)).map (f i) := by
    rw [equations, List.map_map]
    refine List.map_congr_left fun i _ => ?_
    rw [List.range_succ, List.map_append, List.map_singleton]
    rfl
  have hne {r : ℕ} (hr : 0 < r) (n : ℕ) (f : Grid ℚ) : equations r n f ≠ [] := by
    simpa [equations] using hr.ne'
  refine h.eq_of_rowChunks_eq h' ?_
  obtain ⟨r, n, f, hr, rfl, hchunks⟩ := h.exists_tabulate
  obtain ⟨r', n', f', hr', rfl, hchunks'⟩ := h'.exists_tabulate
  rw [format_system_tabulate, format_system_tabulate, Except.ok.injEq] at heq
  have hequations : equations r n f = equations r' n' f' :=
    hread.eq_of_intercalate_eq rfl (hne hr n f) (hne hr' n' f') heq
  rw [hchunks, hchunks', ← hrows, ← hrows, hequations]

/-- **Texts of matrices and systems are faithful.** Let two rational matrices have a row and a
column each. A matrix has a text in a given style, unless the style is the wide one and an entry is
too wide, and two matrices with the same text are the same. Read as augmented matrices of systems,
both have texts, and these are the same exactly if the systems are. -/
theorem texts_of_matrices_faithful (opts : PrintOptions) (h : IsTable m) (h' : IsTable m') :
    ((∃ text, m.format opts = .ok text) ↔ (opts.isLatex = false → opts.prettyMatrix = true →
      ∀ row ∈ m.rowChunks, ∀ q ∈ row, (entryText opts q).length ≤ layoutLimit)) ∧
    (∀ text, m.format opts = .ok text → m'.format opts = .ok text → m = m') ∧
    (∃ text, (⟨m⟩ : LinearSystem ℚ).format opts = .ok text) ∧
    ((⟨m⟩ : LinearSystem ℚ).format opts = (⟨m'⟩ : LinearSystem ℚ).format opts ↔ m = m') := by
  refine ⟨?_, fun text htext htext' => ?_, ?_, h.eq_of_format_system_eq opts h',
    fun heq => by rw [heq]⟩
  · rw [format_eq_layout]
    exact exists_layout_iff opts h.rowChunks_ne_nil h.length_of_mem_rowChunks
  · rw [format_eq_layout] at htext htext'
    exact h.eq_of_rowChunks_eq h' (eq_of_layout_eq opts h.rowChunks_ne_nil h'.rowChunks_ne_nil
      h.length_of_mem_rowChunks h'.length_of_mem_rowChunks htext htext')
  · obtain ⟨r, n, f, -, rfl, -⟩ := h.exists_tabulate
    exact ⟨_, format_system_tabulate opts r n f⟩

/-- A row and a column of the same entries have different texts in each style, and so have the
equation in one unknown and the two equations in none. -/
theorem texts_of_row_and_column :
    let row : DenseMatrix ℚ := ⟨1, 2, #[-1/2, 3]⟩
    let column : DenseMatrix ℚ := ⟨2, 1, #[-1/2, 3]⟩
    IsTable row ∧ IsTable column ∧ ∀ opts : PrintOptions,
      (∀ text, row.format opts = .ok text → column.format opts ≠ .ok text) ∧
      (⟨row⟩ : LinearSystem ℚ).format opts ≠ (⟨column⟩ : LinearSystem ℚ).format opts := by
  intro row column
  have hrow : IsTable row := ⟨by decide, by decide, by decide⟩
  have hcolumn : IsTable column := ⟨by decide, by decide, by decide⟩
  have hne : row ≠ column := fun h => absurd (congrArg DenseMatrix.nrows h) (by decide)
  refine ⟨hrow, hcolumn, fun opts => ?_⟩
  obtain ⟨-, hmatrix, -, hsystem⟩ := texts_of_matrices_faithful opts hrow hcolumn
  exact ⟨fun text htext htext' => hne (hmatrix text htext htext'), fun heq => hne (hsystem.mp heq)⟩

/-- The wide layout. -/
example : (⟨2, 2, #[1/2, -3, 10, 4]⟩ : DenseMatrix ℚ).format { prettyMatrix := true }
    = .ok "[ 1/2 -3 ]\n[  10  4 ]" := by
  decide +kernel

end DenseMatrix

end LinearSystems
