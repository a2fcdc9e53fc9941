import LinearSystems.Proofs.Rational.Combinations
import LinearSystems.Proofs.Rational.Independence
import LinearSystems.Proofs.Rational.Solve
import Mathlib.Tactic.TFAE

/-!
# Spans of rational vectors

A spanning set is asked for three things, in two ways. Its basis and its dimension come from an
elimination of the matrix whose rows are the directions; whether it contains a vector is asked of
the solver, for the system whose columns are the directions. Over the rationals all of them are
about one space, the span of the directions (`SpanningSet.exists_basis`,
`SpanningSet.outcome_dimension`, `SpanningSet.exists_contains`).

The directions may depend on each other, and vectors that are zero have been dropped before. With
no directions left there is no matrix, and no dimension either that a vector would have to have.
-/

namespace LinearSystems

open Flat (coordinates)

variable {r c d : ℕ} {vectors : List (DenseVector ℚ)} {v : DenseVector ℚ}

namespace DenseVector

/-- No vector of an independent family is zero. -/
theorem LinearlyIndependent.isZero (h : LinearlyIndependent vectors)
    (hdims : ∀ w ∈ vectors, w.dim = d) : ∀ w ∈ vectors, w.isZero = false := by
  intro w hw
  obtain ⟨a, rfl⟩ := List.get_of_mem hw
  have hne := ((linearlyIndependent_iff_linearIndependent hdims).1 h).ne_zero a
  rw [← Bool.not_eq_true, ← Flat.coordinates_eq_zero_iff (hdims _ hw)]
  exact hne

/-- If no vector is zero, the span is trivial only without vectors. -/
theorem span_eq_bot_iff (hdims : ∀ w ∈ vectors, w.dim = d)
    (hnonzero : ∀ w ∈ vectors, w.isZero = false) : span d vectors = ⊥ ↔ vectors = [] := by
  constructor
  · intro hbot
    refine List.eq_nil_iff_forall_not_mem.2 fun w hw => ?_
    have hmem := mem_span (d := d) hw
    rw [hbot, Submodule.mem_bot, Flat.coordinates_eq_zero_iff (hdims w hw), hnonzero w hw] at hmem
    exact Bool.false_ne_true hmem
  · rintro rfl
    simp [span]

/-- **One more vector keeps the dimension exactly if it lies in the span.** -/
theorem finrank_span_append_eq_iff :
    Module.finrank ℚ (span d (vectors ++ [v])) = Module.finrank ℚ (span d vectors) ↔
      coordinates d v ∈ span d vectors := by
  have hle : span d [v] ≤ span d vectors ↔ coordinates d v ∈ span d vectors := by
    rw [span_le]
    exact List.forall_mem_singleton
  rw [span_append, ← hle, ← sup_eq_left]
  constructor
  · intro hfinrank
    exact (Submodule.eq_of_le_of_finrank_eq le_sup_left hfinrank.symm).symm
  · intro hsup
    rw [hsup]

end DenseVector

open DenseVector (span)

/-! ### The row space of a matrix -/

/-- **The row space is given by independent rows of the echelon form.** -/
theorem DenseMatrix.exists_rowSpace (f : Grid ℚ) :
    ∃ s : SpanningSet ℚ, (tabulate r c f).rowSpace.outcome = .ok s ∧
      (∀ w ∈ s.directions, w.dim = c) ∧ span c s.directions = f.rowSpace r c ∧
      DenseVector.LinearlyIndependent s.directions := by
  obtain ⟨pivot, hafter⟩ := Sweep.exists_staircase r f c
  set rows := (List.range r).map fun i => DenseVector.tabulate c ((Sweep.after r f c).grid i)
    with hrows
  have hdims : ∀ w ∈ rows, w.dim = c := DenseVector.dim_of_mem_map_tabulate _ _
  have hkept : ∀ w ∈ (SpanningSet.ofDirections rows).directions, w.dim = c := fun w hw =>
    hdims w (List.mem_filter.1 hw).1
  have hspan : span c (SpanningSet.ofDirections rows).directions = f.rowSpace r c := by
    rw [DenseVector.span_ofDirections hdims, hrows, DenseVector.span_map_tabulate,
      (rowEquivalent_after r c f c).rowSpace_eq]
  -- the rows that are not zero are as many as the rank, and span the row space
  have hlength : (SpanningSet.ofDirections rows).directions.length = (f.corner r c).rank := by
    rw [SpanningSet.ofDirections, ← List.countP_eq_length_filter, DenseMatrix.countP_rows hafter,
      Sweep.rank_after]
  refine ⟨_, rowSpace_tabulate f, hkept, hspan, ?_⟩
  rw [DenseVector.linearlyIndependent_iff_finrank_span hkept, hspan, hlength,
    Grid.finrank_rowSpace]

/-- **A system is solvable exactly if the constants lie in the span of the columns.** -/
theorem DenseMatrix.exists_solve_ne_empty_iff (hroom : r = 0 → c < columnLimit) (f : Grid ℚ)
    (b : ℕ → ℚ) :
    ∃ s, ((tabulate r c f).solve (DenseVector.tabulate r b)).outcome = .ok s ∧
      (s ≠ .empty ↔ (fun i : Fin r => b i) ∈ Grid.rowSpace c r fun j i => f i j) := by
  obtain ⟨s, hs, hsolvable⟩ := LinearSystem.exists_solution_ne_empty_iff (r := r) (c := c) f b
  refine ⟨s, (outcome_solve_tabulate hroom f b).trans hs, hsolvable.trans ?_⟩
  rw [Grid.mem_rowSpace_iff]
  exact exists_congr fun t => forall₂_congr fun i _ => eq_comm

namespace SpanningSet

/-! ### Dimension and basis -/

/-- **The dimension is that of the span.** -/
theorem outcome_dimension (h : ∀ w ∈ vectors, w.dim = d) :
    (dimension ⟨vectors⟩).outcome = .ok (Module.finrank ℚ (span d vectors)) := by
  obtain ⟨x, hx⟩ := DenseVector.exists_eq_map_tabulate h
  generalize vectors.length = n at hx
  rw [hx, outcome_dimension_tabulate, DenseVector.span_map_tabulate, Grid.finrank_rowSpace]

/-- **The basis is independent and has the same span.** -/
theorem exists_basis (h : ∀ w ∈ vectors, w.dim = d) :
    ∃ vs, (basis ⟨vectors⟩).outcome = .ok vs ∧ (∀ w ∈ vs, w.dim = d) ∧
      span d vs = span d vectors ∧ DenseVector.LinearlyIndependent vs := by
  obtain ⟨x, hx⟩ := DenseVector.exists_eq_map_tabulate h
  rcases Nat.eq_zero_or_pos vectors.length with hzero | hpos
  · -- no directions are a basis of their span
    obtain rfl := List.length_eq_zero_iff.1 hzero
    exact ⟨[], rfl, h, rfl, fun _ _ a => a.elim0⟩
  · generalize vectors.length = n at hx hpos
    obtain ⟨s, hs, hdims, hspan, hindependent⟩ := DenseMatrix.exists_rowSpace (r := n) (c := d) x
    refine ⟨s.directions, ?_, hdims, ?_, hindependent⟩
    · rw [hx, basis, rowMatrix?_tabulate hpos]
      dsimp only
      rw [Traced.outcome_map, hs, map_ok]
    · rw [hspan, hx, DenseVector.span_map_tabulate]

/-! ### Membership -/

/-- Membership is asked of the solver, for the system with the vectors as its columns. -/
theorem outcome_contains_tabulate {n : ℕ} (hn : 0 < n) (x : Grid ℚ) (v : DenseVector ℚ) :
    (contains ⟨(List.range n).map fun a => DenseVector.tabulate d (x a)⟩ v).outcome
      = (fun s => !s.isEmpty) <$>
          ((DenseMatrix.tabulate d n fun i a => x a i).solve v).outcome := by
  rw [contains, rowMatrix?_tabulate hn]
  dsimp only
  rw [Traced.outcome_bind, Traced.outcome_lift, DenseMatrix.transpose_tabulate, ok_bind,
    Traced.outcome_bind]
  rfl

/-- **A spanning set contains the vectors of its span.** -/
theorem exists_contains (h : ∀ w ∈ vectors, w.dim = d) (hnonzero : ∀ w ∈ vectors, w.isZero = false)
    (hv : v.dim = d) :
    ∃ b, (contains ⟨vectors⟩ v).outcome = .ok b ∧
      (b = true ↔ coordinates d v ∈ span d vectors) := by
  obtain ⟨x, hx⟩ := DenseVector.exists_eq_map_tabulate h
  rcases Nat.eq_zero_or_pos vectors.length with hzero | hpos
  · obtain rfl := List.length_eq_zero_iff.1 hzero
    refine ⟨v.isZero, rfl, ?_⟩
    rw [(DenseVector.span_eq_bot_iff h nofun).2 rfl, Submodule.mem_bot,
      Flat.coordinates_eq_zero_iff hv]
  · -- a direction has an entry, so the matrix of the system has rows
    obtain ⟨w, hw⟩ := List.exists_mem_of_length_pos hpos
    have hd : 0 < d := h w hw ▸ DenseVector.dim_pos_of_isZero_eq_false (hnonzero w hw)
    generalize vectors.length = n at hx hpos
    obtain ⟨s, hs, hiff⟩ := DenseMatrix.exists_solve_ne_empty_iff (r := d) (c := n)
      (fun hzero => absurd hzero hd.ne') (fun i a => x a i) v.entry
    rw [← DenseVector.eq_tabulate_entry hv] at hs
    refine ⟨!s.isEmpty, ?_, ?_⟩
    · rw [hx, outcome_contains_tabulate hpos, hs, map_ok]
    · rw [hx, DenseVector.span_map_tabulate]
      refine Iff.trans ?_ hiff
      cases s <;> simp [SolutionSet.isEmpty]

/-- If there are directions, a vector of another dimension is refused. -/
theorem outcome_contains_of_dim_ne (hne : vectors ≠ []) (h : ∀ w ∈ vectors, w.dim = d)
    (hv : v.dim ≠ d) : (contains ⟨vectors⟩ v).outcome = .error (.columnMismatch d v.dim) := by
  obtain ⟨x, hx⟩ := DenseVector.exists_eq_map_tabulate h
  have hpos : 0 < vectors.length := List.length_pos_iff.2 hne
  generalize vectors.length = n at hx hpos
  rw [hx, outcome_contains_tabulate hpos, DenseMatrix.outcome_solve_of_dim_ne hv, map_error]
  rfl

/-- Spanning sets of one span contain the same vectors, and refuse the same. -/
theorem outcome_contains_congr {others : List (DenseVector ℚ)} (h : ∀ w ∈ vectors, w.dim = d)
    (hothers : ∀ w ∈ others, w.dim = d) (hnonzero : ∀ w ∈ vectors, w.isZero = false)
    (hnonzero' : ∀ w ∈ others, w.isZero = false) (hspan : span d vectors = span d others)
    (v : DenseVector ℚ) :
    (contains ⟨vectors⟩ v).outcome = (contains ⟨others⟩ v).outcome := by
  by_cases hv : v.dim = d
  · obtain ⟨b, hb, hiff⟩ := exists_contains h hnonzero hv
    obtain ⟨b', hb', hiff'⟩ := exists_contains hothers hnonzero' hv
    rw [hb, hb', Bool.eq_iff_iff.2 (hiff.trans (hspan ▸ hiff'.symm))]
  · have hempty : vectors = [] ↔ others = [] := by
      rw [← DenseVector.span_eq_bot_iff h hnonzero, hspan,
        DenseVector.span_eq_bot_iff hothers hnonzero']
    by_cases hnil : vectors = []
    · rw [hnil, hempty.1 hnil]
    · rw [outcome_contains_of_dim_ne hnil h hv,
        outcome_contains_of_dim_ne (mt hempty.2 hnil) hothers hv]

/-- Vectors that are accepted have one dimension. -/
theorem exists_dim_of_eq_ok {s : SpanningSet ℚ} (h : SpanningSet.of vectors = .ok s) :
    ∃ d, ∀ w ∈ s.directions, w.dim = d := by
  rw [SpanningSet.of] at h
  split at h
  · cases h
  · next hnone =>
    cases h
    refine ⟨(vectors.head?.map DenseVector.dim).getD 0, fun w hw => ?_⟩
    have hdim := List.find?_eq_none.1 hnone w (List.mem_filter.1 hw).1
    simpa using hdim

/-- Three tests of membership: the solver, the coefficients, and the dimension of the directions
together with the vector. -/
theorem exists_contains_tfae (h : ∀ w ∈ vectors, w.dim = d)
    (hnonzero : ∀ w ∈ vectors, w.isZero = false) (hv : v.dim = d) :
    ∃ b extended m, (contains ⟨vectors⟩ v).outcome = .ok b ∧
      SpanningSet.of (vectors ++ [v]) = .ok extended ∧ extended.dimension.outcome = .ok m ∧
      List.TFAE [b = true, v.IsCombination vectors, m = Module.finrank ℚ (span d vectors)] := by
  have hextended : ∀ w ∈ vectors ++ [v], w.dim = d := List.forall_mem_append.2
    ⟨h, fun w hw => List.mem_singleton.1 hw ▸ hv⟩
  have hdimension : (ofDirections (vectors ++ [v])).dimension.outcome
      = .ok (Module.finrank ℚ (span d (vectors ++ [v]))) := by
    rw [← DenseVector.span_ofDirections hextended]
    exact outcome_dimension fun w hw => hextended w (List.mem_filter.1 hw).1
  obtain ⟨b, hb, hiff⟩ := exists_contains h hnonzero hv
  refine ⟨b, _, _, hb, of_eq_ok hextended, hdimension, ?_⟩
  rw [DenseVector.finrank_span_append_eq_iff,
    DenseVector.isCombination_iff_mem_span h hv, hiff]
  tfae_finish

/-- The basis of directions that are not zero is again accepted, and spans the same. -/
theorem exists_of_basis (h : ∀ w ∈ vectors, w.dim = d)
    (hnonzero : ∀ w ∈ vectors, w.isZero = false) :
    ∃ vs t, (basis ⟨vectors⟩).outcome = .ok vs ∧ DenseVector.LinearlyIndependent vs ∧
      vs.length = Module.finrank ℚ (span d vectors) ∧ SpanningSet.of vs = .ok t ∧
      ∀ v, (t.contains v).outcome = (contains ⟨vectors⟩ v).outcome := by
  obtain ⟨vs, hvs, hdims, hspan, hindependent⟩ := exists_basis h
  have hkept := hindependent.isZero hdims
  refine ⟨vs, ⟨vs⟩, hvs, hindependent, ?_, ?_, ?_⟩
  · rw [← (DenseVector.linearlyIndependent_iff_finrank_span hdims).1 hindependent, hspan]
  · rw [of_eq_ok hdims, ofDirections_eq hkept]
  · exact outcome_contains_congr hdims h hkept hnonzero hspan

/-- **Membership, basis and dimension are about one space.** A vector is contained in a spanning
set exactly if it is a combination of the directions, and exactly if the directions followed by it
have the same dimension. The basis is independent, has as many vectors as the dimension says, and
its spanning set contains the same vectors and refuses the same.

The directions are those that are not zero. Without any, the zero vectors of all dimensions are
contained; otherwise a vector must have the dimension of the directions. -/
theorem contains_iff_combination {s : SpanningSet ℚ} (h : SpanningSet.of vectors = .ok s) :
    ∃ n basis t, s.dimension.outcome = .ok n ∧ s.basis.outcome = .ok basis ∧
      DenseVector.LinearlyIndependent basis ∧ basis.length = n ∧ SpanningSet.of basis = .ok t ∧
      (∀ v, (t.contains v).outcome = (s.contains v).outcome) ∧
      (∀ v, (∀ w ∈ s.directions, v.dim = w.dim) →
        ∃ b extended m, (s.contains v).outcome = .ok b ∧
          SpanningSet.of (s.directions ++ [v]) = .ok extended ∧
          extended.dimension.outcome = .ok m ∧
          List.TFAE [b = true, v.IsCombination s.directions, m = n]) ∧
      (s.directions = [] → ∀ v, (s.contains v).outcome = .ok v.isZero) ∧
      ∀ w ∈ s.directions, ∀ v, v.dim ≠ w.dim →
        (s.contains v).outcome = .error (.shape (.dimensionMismatch (w.dim, 1) (v.dim, 1))) := by
  obtain ⟨d, hdims⟩ := exists_dim_of_eq_ok h
  have hnonzero := isZero_of_eq_ok h
  obtain ⟨directions⟩ := s
  obtain ⟨basis, t, hbasis, hindependent, hlength, ht, hsame⟩ := exists_of_basis hdims hnonzero
  refine ⟨_, basis, t, outcome_dimension hdims, hbasis, hindependent, hlength, ht, hsame,
    ?_, ?_, ?_⟩
  · intro v hv
    -- without directions, the dimension is that of the vector
    have hdims' : ∀ w ∈ directions, w.dim = v.dim := fun w hw => (hv w hw).symm
    have hfinrank := Except.ok.inj ((outcome_dimension hdims).symm.trans (outcome_dimension hdims'))
    rw [hfinrank]
    exact exists_contains_tfae hdims' hnonzero rfl
  · rintro rfl v
    rfl
  · intro w hw v hne
    rw [hdims w hw] at hne ⊢
    exact outcome_contains_of_dim_ne (List.ne_nil_of_mem hw) hdims hne

/-- Dependent directions and a zero vector: the multiples of one vector, and nothing else. -/
theorem combination_of_dependent_directions :
    SpanningSet.of [⟨[1, 1, 0]⟩, ⟨[0, 0, 0]⟩, ⟨[2, 2, 0]⟩]
        = .ok (⟨[⟨[1, 1, 0]⟩, ⟨[2, 2, 0]⟩]⟩ : SpanningSet ℚ) ∧
      (⟨[3, 3, 0]⟩ : DenseVector ℚ).IsCombination [⟨[1, 1, 0]⟩, ⟨[2, 2, 0]⟩] ∧
      ¬(⟨[0, 0, 1]⟩ : DenseVector ℚ).IsCombination [⟨[1, 1, 0]⟩, ⟨[2, 2, 0]⟩] := by
  have haccepted : SpanningSet.of [⟨[1, 1, 0]⟩, ⟨[0, 0, 0]⟩, ⟨[2, 2, 0]⟩]
      = .ok (⟨[⟨[1, 1, 0]⟩, ⟨[2, 2, 0]⟩]⟩ : SpanningSet ℚ) := by decide +kernel
  obtain ⟨n, basis, t, -, -, -, -, -, -, htests, -⟩ := contains_iff_combination haccepted
  obtain ⟨b, _, m, hb, -, -, htfae⟩ := htests ⟨[3, 3, 0]⟩ (by decide)
  obtain ⟨b', _, m', hb', -, -, htfae'⟩ := htests ⟨[0, 0, 1]⟩ (by decide)
  obtain rfl : b = true := Except.ok.inj (hb.symm.trans (by decide +kernel))
  obtain rfl : b' = false := Except.ok.inj (hb'.symm.trans (by decide +kernel))
  exact ⟨haccepted, (htfae.out 0 1).1 rfl, mt (htfae'.out 0 1).2 Bool.false_ne_true⟩

end SpanningSet

end LinearSystems
