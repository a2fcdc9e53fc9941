import LinearSystems.Proofs.Outcome
import LinearSystems.LinearSystem.Solution
import Mathlib.Data.List.Forall2
import Mathlib.Data.List.Nodup

/-!
# The order of the terms of linear forms

A linear form stores terms, and a store has no order that anyone could rely on: the terms may be
visited in one order now and in another one later, and two forms with the same terms may differ in
it. Nothing of this can be seen in a solution, for scalars without laws.

* What is stored for a parameter after a multiple of a form was added depends on what both forms
  store for this parameter, and on nothing else (`lookup_addTerms`). Each parameter has at most one
  term, so each term is visited once.
* Hence forms that store the same terms still do so after such a step (`SameTerms.addScaled`), after
  a row was resolved (`resolveRow_sameTerms`), and after all of them were, even if the terms are
  rearranged in between (`resolveArranged_sameTerms`).
* A flat is made of coefficients (`flatOfForms_eq_of_sameTerms`).

A step that fails is no exception: it fails in every order, with the same fault.
-/

namespace LinearSystems

variable {K : Type}

namespace LinearForm

/-! ### Terms with different parameters -/

/-- No parameter has two terms. -/
def Distinct (terms : List (Parameter × K)) : Prop :=
  (terms.map Prod.fst).Nodup

theorem lookup_eq_some_iff {terms : List (Parameter × K)} (h : Distinct terms) {p : Parameter}
    {value : K} : terms.lookup p = some value ↔ (p, value) ∈ terms := by
  induction terms with
  | nil => simp
  | cons t ts ih =>
    obtain ⟨hfirst, hrest⟩ := List.nodup_cons.1 h
    rw [List.lookup_cons]
    split
    · next heq =>
      obtain rfl : p = t.1 := by simpa using heq
      have hnotin : (t.1, value) ∉ ts := fun hmem => hfirst (List.mem_map.2 ⟨_, hmem, rfl⟩)
      simp [hnotin, Prod.ext_iff, eq_comm]
    · next hne =>
      have hpt : p ≠ t.1 := by simpa using hne
      rw [ih hrest]
      simp [Prod.ext_iff, hpt]

theorem lookup_eq_none_of_notMem {terms : List (Parameter × K)} {p : Parameter}
    (h : p ∉ terms.map Prod.fst) : terms.lookup p = none := by
  rw [List.lookup_eq_none_iff]
  intro t ht
  have hne : p ≠ t.1 := fun heq => h (heq ▸ List.mem_map_of_mem ht)
  simpa using hne

/-- What is stored does not depend on the order. -/
theorem lookup_eq_of_perm {terms terms' : List (Parameter × K)} (h : Distinct terms)
    (hperm : terms'.Perm terms) (p : Parameter) : terms'.lookup p = terms.lookup p := by
  have h' : Distinct terms' := (hperm.map Prod.fst).nodup_iff.2 h
  exact Option.ext fun value => by
    rw [lookup_eq_some_iff h', lookup_eq_some_iff h, hperm.mem_iff]

variable [Scalar K]

theorem distinct_constant (value : K) : Distinct (constant value).terms := by
  rw [constant]
  split <;> simp [Distinct]

theorem distinct_free (j : ℕ) : Distinct (free j : LinearForm K).terms :=
  List.nodup_singleton _

theorem distinct_setCoefficient {f : LinearForm K} (h : Distinct f.terms) (p : Parameter)
    (value : K) : Distinct (f.setCoefficient p value).terms := by
  have herase : Distinct (f.erase p).terms := h.sublist (List.filter_sublist.map Prod.fst)
  unfold setCoefficient
  split
  · exact herase
  · refine List.nodup_cons.2 ⟨fun hmem => ?_, herase⟩
    obtain ⟨t, ht, htp⟩ := List.mem_map.1 hmem
    simpa [htp] using (List.mem_filter.1 ht).2

/-! ### Adding a multiple of a form -/

theorem distinct_addTerms {f : LinearForm K} (h : Distinct f.terms) (terms : List (Parameter × K))
    (factor : K) : Distinct (f.addTerms terms factor).terms := by
  induction terms generalizing f with
  | nil => exact h
  | cons t ts ih => exact ih (distinct_setCoefficient h _ _)

/-- **What is stored after terms were added** to a form: the old term, if there was nothing to add,
and otherwise the sum, unless that counts as zero. -/
theorem lookup_addTerms (f : LinearForm K) {terms : List (Parameter × K)} (h : Distinct terms)
    (factor : K) (p : Parameter) :
    (f.addTerms terms factor).terms.lookup p = match terms.lookup p with
      | none => f.terms.lookup p
      | some value =>
        if Scalar.isZero (Scalar.addMul (f.coefficient p) value factor) then none
        else some (Scalar.addMul (f.coefficient p) value factor) := by
  induction terms generalizing f with
  | nil => rfl
  | cons t ts ih =>
    obtain ⟨hfirst, hrest⟩ := List.nodup_cons.1 h
    have hstep : (f.addTerms (t :: ts) factor) = (f.addTerm factor t).addTerms ts factor := rfl
    rw [hstep, ih (f.addTerm factor t) hrest]
    rcases eq_or_ne p t.1 with rfl | hne
    · -- the other terms belong to other parameters
      rw [lookup_eq_none_of_notMem hfirst, List.lookup_cons, beq_self_eq_true]
      exact lookup_setCoefficient_self f t.1 _
    · have hbeq : (p == t.1) = false := by simpa using hne
      rw [List.lookup_cons, hbeq, addTerm, lookup_setCoefficient_of_ne f hne,
        coefficient_setCoefficient_of_ne f hne]

/-- No parameter has two terms, and no stored coefficient counts as zero. -/
structure Sparse (f : LinearForm K) : Prop where
  distinct : Distinct f.terms
  nonzero : ∀ t ∈ f.terms, Scalar.isZero t.2 = false

theorem Sparse.setCoefficient {f : LinearForm K} (h : f.Sparse) (p : Parameter) (value : K) :
    (f.setCoefficient p value).Sparse := by
  refine ⟨distinct_setCoefficient h.distinct p value, ?_⟩
  have herase : ∀ t ∈ (f.erase p).terms, Scalar.isZero t.2 = false :=
    fun t ht => h.nonzero t (List.mem_filter.1 ht).1
  unfold LinearForm.setCoefficient
  split
  · exact herase
  · next hzero => exact List.forall_mem_cons.2 ⟨by simpa using hzero, herase⟩

/-- What counts as zero is dropped at once. -/
theorem Sparse.addTerms {f : LinearForm K} (h : f.Sparse) (terms : List (Parameter × K))
    (factor : K) : (f.addTerms terms factor).Sparse := by
  induction terms generalizing f with
  | nil => exact h
  | cons t ts ih => exact ih (h.setCoefficient _ _)

/-! ### Forms with the same terms -/

/-- Two forms store the same terms, one for each parameter, in whatever orders. -/
structure SameTerms (f f' : LinearForm K) : Prop where
  distinct_left : Distinct f.terms
  distinct_right : Distinct f'.terms
  lookup_eq : ∀ p, f.terms.lookup p = f'.terms.lookup p

namespace SameTerms

variable {f f' g g' : LinearForm K}

omit [Scalar K] in
theorem refl (h : Distinct f.terms) : SameTerms f f :=
  ⟨h, h, fun _ => rfl⟩

omit [Scalar K] in
theorem of_perm (h : SameTerms f f') {terms : List (Parameter × K)} (hperm : terms.Perm f.terms) :
    SameTerms ⟨terms⟩ f' :=
  ⟨(hperm.map Prod.fst).nodup_iff.2 h.distinct_left, h.distinct_right, fun p =>
    (lookup_eq_of_perm h.distinct_left hperm p).trans (h.lookup_eq p)⟩

theorem coefficient_eq (h : SameTerms f f') (p : Parameter) :
    f.coefficient p = f'.coefficient p := by
  rw [coefficient, coefficient, h.lookup_eq p]

/-- **The order of a visit leaves no trace.** -/
theorem addScaled (hf : SameTerms f f') (hg : SameTerms g g')
    {visit visit' : LinearForm K → List (Parameter × K)} (hvisit : (visit g).Perm g.terms)
    (hvisit' : (visit' g').Perm g'.terms) (factor : K) :
    SameTerms (f.addScaled visit g factor) (f'.addScaled visit' g' factor) := by
  have hvisited : SameTerms ⟨visit g⟩ g' := hg.of_perm hvisit
  have hboth (p : Parameter) : (visit g).lookup p = (visit' g').lookup p :=
    (hvisited.lookup_eq p).trans (lookup_eq_of_perm hg.distinct_right hvisit' p).symm
  have hdistinct' : Distinct (visit' g') :=
    (hvisit'.map Prod.fst).nodup_iff.2 hg.distinct_right
  refine ⟨distinct_addTerms hf.distinct_left _ _, distinct_addTerms hf.distinct_right _ _,
    fun p => ?_⟩
  rw [LinearForm.addScaled, LinearForm.addScaled, lookup_addTerms f hvisited.distinct_left,
    lookup_addTerms f' hdistinct', hboth p, hf.lookup_eq p, hf.coefficient_eq p]

end SameTerms

end LinearForm

namespace LinearSystem

open LinearForm

variable [Scalar K] {forms forms' : List (LinearForm K)}
  {visit visit' : LinearForm K → List (Parameter × K)}

/-! ### One row -/

omit [Scalar K] in
/-- An unknown has a form in both lists, or in none. -/
theorem getElem?_sameTerms (h : List.Forall₂ SameTerms forms forms') (j : ℕ) :
    forms[j]? = none ∧ forms'[j]? = none ∨
      ∃ f f', forms[j]? = some f ∧ forms'[j]? = some f' ∧ SameTerms f f' := by
  rcases Nat.lt_or_ge j forms.length with hj | hj
  · have hj' : j < forms'.length := h.length_eq ▸ hj
    exact Or.inr ⟨_, _, List.getElem?_eq_getElem hj, List.getElem?_eq_getElem hj',
      h.get hj hj'⟩
  · exact Or.inl ⟨List.getElem?_eq_none hj, List.getElem?_eq_none (h.length_eq ▸ hj)⟩

omit [Scalar K] in
theorem setForm_sameTerms (h : List.Forall₂ SameTerms forms forms') (j : ℕ)
    {form form' : LinearForm K} (hform : SameTerms form form') :
    EndAlike (List.Forall₂ SameTerms) (setForm forms j form) (setForm forms' j form') := by
  have hset : List.Forall₂ SameTerms (forms.set j form) (forms'.set j form') := by
    induction h generalizing j with
    | nil => exact List.Forall₂.nil
    | cons hfirst hrest ih =>
      cases j with
      | zero => exact List.Forall₂.cons hform hrest
      | succ j => exact List.Forall₂.cons hfirst (ih j)
  rw [setForm, setForm, h.length_eq]
  split
  · exact hset
  · exact rfl

theorem substitute_sameTerms (hvisit : ∀ form, (visit form).Perm form.terms)
    (hvisit' : ∀ form, (visit' form).Perm form.terms) (h : List.Forall₂ SameTerms forms forms')
    {form form' : LinearForm K} (hform : SameTerms form form') (term : K × ℕ) :
    EndAlike SameTerms (substitute visit forms form term)
      (substitute visit' forms' form' term) := by
  rw [substitute, substitute]
  split
  · exact hform
  · rcases getElem?_sameTerms h term.2 with ⟨hg, hg'⟩ | ⟨g, g', hg, hg', hsame⟩
    · rw [hg, hg']
      exact rfl
    · rw [hg, hg']
      exact hform.addScaled hsame (hvisit g) (hvisit' g') _

/-- **A row is resolved alike** in all orders. -/
theorem resolveRow_sameTerms (hvisit : ∀ form, (visit form).Perm form.terms)
    (hvisit' : ∀ form, (visit' form).Perm form.terms) (h : List.Forall₂ SameTerms forms forms')
    (a : DenseMatrix K) (x : DenseVector K) (i : ℕ) :
    EndAlike (List.Forall₂ SameTerms) (resolveRow visit a x forms i)
      (resolveRow visit' a x forms' i) := by
  rw [resolveRow, resolveRow]
  refine EndAlike.bind (EndAlike.refl (R := Eq) fun _ _ => rfl) ?_
  rintro row _ rfl
  split
  · exact h
  · refine EndAlike.bind (EndAlike.refl (R := Eq) fun _ _ => rfl) ?_
    rintro value _ rfl
    have hconstant : SameTerms (constant value) (constant value) := .refl (distinct_constant value)
    exact (EndAlike.foldlM (fun _ _ hform term _ =>
      substitute_sameTerms hvisit hvisit' h hform term) hconstant).bind fun _ _ hform =>
        setForm_sameTerms h _ hform

/-! ### All rows -/

theorem resolveRows_sameTerms (hvisit : ∀ form, (visit form).Perm form.terms)
    (hvisit' : ∀ form, (visit' form).Perm form.terms) (h : List.Forall₂ SameTerms forms forms')
    (a : DenseMatrix K) (x : DenseVector K) (count : ℕ) :
    EndAlike (List.Forall₂ SameTerms) (resolveRows visit a x forms count)
      (resolveRows visit' a x forms' count) := by
  induction count generalizing forms forms' with
  | zero => exact h
  | succ count ih =>
    exact (resolveRow_sameTerms hvisit hvisit' h a x count).bind fun _ _ hrow => ih hrow

/-- Resolve the unknowns of the first `count` rows, from the last of them upwards. Before row `i`,
the terms of the form of unknown `j` are stored in the order of `arrange i j`. -/
def resolveRowsArranged (arrange : ℕ → ℕ → LinearForm K → List (Parameter × K))
    (a : DenseMatrix K) (x : DenseVector K) (forms : List (LinearForm K)) :
    ℕ → Except Fault (List (LinearForm K))
  | 0 => .ok forms
  | count + 1 => do
    let arranged := forms.mapIdx fun j form => ⟨arrange count j form⟩
    resolveRowsArranged arrange a x (← resolveRow LinearForm.terms a x arranged count) count

/-- The unknowns of a reduced and consistent system, with terms that change their places. -/
def resolveArranged (arrange : ℕ → ℕ → LinearForm K → List (Parameter × K))
    (a : DenseMatrix K) (x : DenseVector K) : Except Fault (List (LinearForm K)) :=
  resolveRowsArranged arrange a x ((List.range a.ncols).map LinearForm.free) a.nrows

variable {arrange : ℕ → ℕ → LinearForm K → List (Parameter × K)}

omit [Scalar K] in
/-- Forms whose terms change their places keep their terms. -/
theorem mapIdx_sameTerms {order : ℕ → LinearForm K → List (Parameter × K)}
    (horder : ∀ j form, (order j form).Perm form.terms) (h : List.Forall₂ SameTerms forms forms') :
    List.Forall₂ SameTerms (forms.mapIdx fun j form => ⟨order j form⟩) forms' := by
  induction h generalizing order with
  | nil => exact List.Forall₂.nil
  | cons hform _ ih =>
    rw [List.mapIdx_cons]
    exact List.Forall₂.cons (hform.of_perm (horder 0 _)) (ih fun j => horder (j + 1))

theorem resolveRowsArranged_sameTerms (harrange : ∀ i j form, (arrange i j form).Perm form.terms)
    (h : List.Forall₂ SameTerms forms forms') (a : DenseMatrix K) (x : DenseVector K) (count : ℕ) :
    EndAlike (List.Forall₂ SameTerms) (resolveRowsArranged arrange a x forms count)
      (resolveRows LinearForm.terms a x forms' count) := by
  induction count generalizing forms forms' with
  | zero => exact h
  | succ count ih =>
    have hstored : ∀ form : LinearForm K, form.terms.Perm form.terms :=
      fun form => List.Perm.refl form.terms
    exact (resolveRow_sameTerms hstored hstored (mapIdx_sameTerms (harrange count) h) a x
      count).bind fun _ _ hforms => ih hforms

/-! ### Solutions -/

theorem flatOfForms_eq_of_sameTerms (h : List.Forall₂ SameTerms forms forms') :
    flatOfForms forms = flatOfForms forms' := by
  have hcoefficients (p : Parameter) :
      forms.map (fun f => f.coefficient p) = forms'.map (fun f => f.coefficient p) := by
    refine List.forall₂_eq_eq_eq ▸ List.forall₂_map_left_iff.2 (List.forall₂_map_right_iff.2 ?_)
    exact h.imp fun _ _ hform => hform.coefficient_eq p
  simp only [flatOfForms, hcoefficients, h.length_eq]

/-- Before the first row, each unknown is its own parameter. -/
theorem free_sameTerms (n : ℕ) :
    List.Forall₂ SameTerms ((List.range n).map (LinearForm.free : ℕ → LinearForm K))
      ((List.range n).map LinearForm.free) := by
  rw [List.forall₂_same]
  intro form hform
  obtain ⟨j, -, rfl⟩ := List.mem_map.1 hform
  exact .refl (distinct_free j)

/-- A solution depends on the resolution by way of the flat that it leads to. -/
theorem solutionWith_congr
    {resolve resolve' : DenseMatrix K → DenseVector K → Except Fault (List (LinearForm K))}
    (h : ∀ a x, flatOfForms <$> resolve a x = flatOfForms <$> resolve' a x) (s : LinearSystem K) :
    s.solutionWith resolve = s.solutionWith resolve' := by
  -- what follows the resolution is the same program of the flat
  have hflat (next : Flat K → Traced (SolutionSet K))
      (resolve : DenseMatrix K → DenseVector K → Except Fault (List (LinearForm K)))
      (a : DenseMatrix K) (x : DenseVector K) :
      ((monadLift (resolve a x) : Traced _) >>= fun forms => next (flatOfForms forms))
        = (monadLift (flatOfForms <$> resolve a x) : Traced _) >>= next := by
    cases resolve a x with
    | error fault => rfl
    | ok forms => rfl
  rw [solutionWith, solutionWith]
  refine bind_congr fun _ => bind_congr fun reduced => bind_congr fun ⟨a, rest⟩ =>
    bind_congr fun verdict => ?_
  cases verdict with
  | inconsistent row => rfl
  | consistent rank =>
    dsimp only
    split
    · rfl
    · let next (flat : Flat K) : Traced (SolutionSet K) := do
        Traced.report (.parametrizedSolution rank flat.span.size)
        return .space flat
      exact (hflat next resolve a _).trans ((congrArg (fun flat : Except Fault (Flat K) =>
        (monadLift flat : Traced _) >>= next) (h a _)).trans (hflat next resolve' a _).symm)

/-- **The order of the terms does not matter for a solution**: each form may be visited in an order
of its own. -/
theorem solutionVia_eq_solution (hvisit : ∀ form, (visit form).Perm form.terms)
    (s : LinearSystem K) : s.solutionVia visit = s.solution := by
  refine solutionWith_congr (fun a x => ?_) s
  exact (resolveRows_sameTerms hvisit (fun form => List.Perm.refl form.terms)
    (free_sameTerms a.ncols) a x a.nrows).map_eq fun _ _ => flatOfForms_eq_of_sameTerms

/-- The terms of each form may also change their places before each row. -/
theorem solutionWith_resolveArranged_eq_solution
    (harrange : ∀ i j form, (arrange i j form).Perm form.terms) (s : LinearSystem K) :
    s.solutionWith (resolveArranged arrange) = s.solution := by
  refine solutionWith_congr (fun a x => ?_) s
  exact (resolveRowsArranged_sameTerms harrange (free_sameTerms a.ncols) a x a.nrows).map_eq
    fun _ _ => flatOfForms_eq_of_sameTerms

end LinearSystem

end LinearSystems
