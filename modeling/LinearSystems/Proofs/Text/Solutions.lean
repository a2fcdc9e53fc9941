import LinearSystems.Text.Layout
import LinearSystems.Proofs.Outcome
import LinearSystems.Proofs.Text.Entries

/-!
# Reading rational solutions

Texts of rational vectors, flats and solutions never fail, and they are faithful. A vector is closed
by its bracket, so its text may be followed by anything (`readable_vectorText`). A span is a list of
vectors in brackets, and the parametric form of a flat is an offset followed by summands, each of
which begins with a plus sign, the name of a parameter and its index. So two solutions have the same
text only if they are the same, and so have two flats.
-/

namespace LinearSystems

/-! ### Vectors -/

/-- The text of a rational vector. -/
def vectorText (opts : PrintOptions) (v : DenseVector ℚ) : String :=
  DenseVector.layout opts (v.entries.map (entryText opts))

theorem DenseVector.format_eq_ok (opts : PrintOptions) (v : DenseVector ℚ) :
    v.format opts = .ok (vectorText opts v) := by
  rw [DenseVector.format, mapM_eq_ok fun q _ => format_eq_entryText opts q, map_ok, vectorText]

/-- **Entries in braces.** -/
theorem readable_bracedEntries (opts : PrintOptions) :
    Readable (fun _ => True) fun qs : List ℚ =>
      braced (",".intercalate (qs.map (entryText opts))) :=
  readable_enclosedEntries opts "\x7b" (by simp) (by simp) (by simp [Begins]) (by simp [Begins])

/-- **Different vectors have different texts**, whatever follows. -/
theorem readable_vectorText (opts : PrintOptions) : Readable (fun _ => True) (vectorText opts) := by
  have hlatex : Readable (fun _ => True) fun qs : List ℚ =>
      pmatrix (" & ".intercalate (qs.map (entryText opts))) :=
    readable_enclosedEntries opts "\\begin\x7bpmatrix\x7d" (by simp) (by simp)
      (by simp [Begins]) (by simp [Begins])
  intro v w s t hs ht heq
  have hentries : v.entries = w.entries ∧ s = t := by
    simp only [vectorText, DenseVector.layout] at heq
    split_ifs at heq
    · exact hlatex hs ht heq
    · exact readable_bracedEntries opts hs ht heq
  exact hentries.imp_left (congrArg DenseVector.mk)

/-- What a vector begins with. -/
theorem begins_vectorText (opts : PrintOptions) (v : DenseVector ℚ) (s : List Char) :
    Begins "\x7b" ((vectorText opts v).toList ++ s) ∨
      Begins "\\begin" ((vectorText opts v).toList ++ s) := by
  rw [vectorText, DenseVector.layout]
  split_ifs
  · exact Or.inr (by simp [pmatrix, Begins])
  · exact Or.inl (by simp [braced, Begins])

/-- What begins neither with a brace nor with an environment does not stand where a vector
stands. -/
theorem not_begins_vectorText (opts : PrintOptions) (v : DenseVector ℚ) (s : List Char) {w : String}
    (hbrace : ∀ rest, ¬Begins "\x7b" (w.toList ++ rest))
    (hbegin : ∀ rest, ¬Begins "\\begin" (w.toList ++ rest)) :
    ¬Begins w ((vectorText opts v).toList ++ s) := by
  rintro ⟨rest, hrest⟩
  obtain h | h := hrest ▸ begins_vectorText opts v s
  · exact hbrace rest h
  · exact hbegin rest h

/-! ### Flats and solutions -/

/-- The text of a span. -/
def spanText (opts : PrintOptions) (directions : List (DenseVector ℚ)) : String :=
  "span[" ++ ", ".intercalate (directions.map (vectorText opts)) ++ "]"

theorem readable_spanText (opts : PrintOptions) : Readable (fun _ => True) (spanText opts) := by
  refine (Readable.enclosed ?_ "span[" :)
  refine (readable_vectorText opts).intercalate (fun _ => trivial) (fun _ _ => trivial)
    (fun d s => by simp [Begins]) fun d s => ?_
  exact not_begins_vectorText opts d s (by simp [Begins]) (by simp [Begins])

/-- The text of a flat, given by its offset and its directions. -/
def flatText (opts : PrintOptions) (p : DenseVector ℚ × List (DenseVector ℚ)) : String :=
  vectorText opts p.1 ++ " + " ++ spanText opts p.2

theorem readable_flatText (opts : PrintOptions) : Readable (fun _ => True) (flatText opts) := by
  have hoffset : Readable (fun _ => True) fun v => vectorText opts v ++ " + " :=
    (readable_vectorText opts).append_text " + " fun _ _ => trivial
  exact (hoffset.append (readable_spanText opts) fun _ _ _ => trivial :)

theorem Flat.format_eq_ok (opts : PrintOptions) (f : Flat ℚ) :
    f.format opts = .ok (flatText opts (f.offset, f.span.directions)) := by
  rw [Flat.format, SpanningSet.format, DenseVector.format_eq_ok,
    mapM_eq_ok fun d _ => DenseVector.format_eq_ok opts d]
  rfl

/-- The text of a solution. -/
def solutionText (opts : PrintOptions) : SolutionSet ℚ → String
  | .empty => "no solution"
  | .point p => vectorText opts p
  | .space f => flatText opts (f.offset, f.span.directions)

theorem SolutionSet.format_eq_ok (opts : PrintOptions) (s : SolutionSet ℚ) :
    s.format opts = .ok (solutionText opts s) := by
  cases s with
  | empty => rfl
  | point p => exact DenseVector.format_eq_ok opts p
  | space f => exact Flat.format_eq_ok opts f

theorem solutionText_injective (opts : PrintOptions) : Function.Injective (solutionText opts) := by
  have hnone (v : DenseVector ℚ) (s : List Char) :
      "no solution".toList ≠ (vectorText opts v).toList ++ s := by
    intro h
    refine not_begins_vectorText opts v s (w := "no solution") (by simp [Begins])
      (by simp [Begins]) ⟨[], ?_⟩
    rw [List.append_nil, h]
  have hspace (f : Flat ℚ) : (solutionText opts (.space f)).toList
      = (vectorText opts f.offset).toList
        ++ (" + " ++ spanText opts f.span.directions).toList := by
    rw [solutionText, flatText, String.append_assoc, String.toList_append]
  have hpoint (p : DenseVector ℚ) : (solutionText opts (.point p)).toList
      = (vectorText opts p).toList ++ [] := by
    rw [solutionText, List.append_nil]
  have hmixed (p : DenseVector ℚ) (f : Flat ℚ) :
      solutionText opts (.point p) ≠ solutionText opts (.space f) := by
    intro h
    rw [← String.toList_inj, hpoint, hspace] at h
    obtain ⟨-, hrest⟩ := readable_vectorText opts trivial trivial h
    simp at hrest
  intro a b h
  cases a with
  | empty =>
    cases b with
    | empty => rfl
    | point p => exact absurd (congrArg String.toList h) (hpoint p ▸ hnone p [])
    | space f => exact absurd (congrArg String.toList h) (hspace f ▸ hnone f.offset _)
  | point p =>
    cases b with
    | empty => exact absurd (congrArg String.toList h.symm) (hpoint p ▸ hnone p [])
    | point q => exact congrArg _ ((readable_vectorText opts).injective trivial h)
    | space f => exact absurd h (hmixed p f)
  | space f =>
    cases b with
    | empty => exact absurd (congrArg String.toList h.symm) (hspace f ▸ hnone f.offset _)
    | point q => exact absurd h.symm (hmixed q f)
    | space g =>
      obtain ⟨hoffset, hdirections⟩ :=
        Prod.mk.inj ((readable_flatText opts).injective trivial h)
      have hspan : f.span = g.span := congrArg SpanningSet.mk hdirections
      exact congrArg SolutionSet.space (congrArg₂ Flat.mk hspan hoffset)

/-! ### The parametric form -/

/-- The name of a parameter, without colors. -/
def parameterName (opts : PrintOptions) (index : ℕ) : String :=
  if opts.isLatex then String.singleton opts.parameterName ++ "_\x7b" ++ index.repr ++ "\x7d"
  else String.singleton opts.parameterName ++ index.repr

theorem readable_parameterName (opts : PrintOptions) :
    Readable EndsNumeral (parameterName opts) := by
  unfold parameterName
  cases opts.isLatex with
  | false => exact readable_repr.text_append _
  | true =>
    refine (readable_repr.text_append _).append_text "\x7d" fun s _ => ?_
    simp

theorem readable_parameterText (opts : PrintOptions) (colors : Bool) :
    Readable EndsNumeral (opts.parameterText colors) := by
  have hcolored : Readable EndsNumeral fun index =>
      "\x1b[36m" ++ parameterName opts index ++ "\x1b[0m" := by
    refine ((readable_parameterName opts).text_append _).append_text _ fun s _ => ?_
    simp
  have htext : opts.parameterText colors = fun index =>
      if opts.colorParameters && colors then "\x1b[36m" ++ parameterName opts index ++ "\x1b[0m"
      else parameterName opts index := rfl
  rw [htext]
  cases opts.colorParameters && colors with
  | false => exact readable_parameterName opts
  | true => exact hcolored

/-- A direction with its parameter, given the index of the parameter. -/
def directionText (opts : PrintOptions) (colors : Bool) (p : ℕ × DenseVector ℚ) : String :=
  " + " ++ opts.parameterText colors p.1 ++ (if opts.isLatex then " " else "*")
    ++ vectorText opts p.2

theorem readable_directionText (opts : PrintOptions) (colors : Bool) :
    Readable (fun _ => True) (directionText opts colors) := by
  have hparameter : Readable (fun _ => True) fun index => " + " ++ opts.parameterText colors index
      ++ if opts.isLatex then " " else "*" := by
    refine ((readable_parameterText opts colors).text_append " + ").append_text _ fun s _ => ?_
    cases opts.isLatex <;> simp
  exact (hparameter.append (readable_vectorText opts) fun _ _ _ => trivial :)

/-- The text of a flat in parametric form. -/
def parametricText (opts : PrintOptions) (colors : Bool)
    (p : DenseVector ℚ × List (ℕ × DenseVector ℚ)) : String :=
  vectorText opts p.1 ++ String.join (p.2.map (directionText opts colors))

theorem readable_parametricText (opts : PrintOptions) (colors : Bool) :
    Readable (· = []) (parametricText opts colors) := by
  have hsummands : Readable (· = []) fun ps : List (ℕ × DenseVector ℚ) =>
      String.join (ps.map (directionText opts colors)) :=
    (readable_directionText opts colors).join (fun _ _ => trivial) (fun _ _ => trivial)
      fun p s => by simp [directionText]
  exact ((readable_vectorText opts).append hsummands fun _ _ _ => trivial :)

theorem Flat.parametricText_eq_ok (opts : PrintOptions) (colors : Bool) (f : Flat ℚ) :
    f.parametricText opts colors = .ok (LinearSystems.parametricText opts colors
      (f.offset, f.span.directions.zipIdx.map Prod.swap)) := by
  have hsummand : ∀ p ∈ f.span.directions.zipIdx, summandText opts colors p.1 p.2
      = .ok (directionText opts colors p.swap) := by
    rintro ⟨d, i⟩ -
    rw [summandText, DenseVector.format_eq_ok]
    rfl
  rw [Flat.parametricText, DenseVector.format_eq_ok, ok_bind, mapM_eq_ok hsummand, ok_bind,
    LinearSystems.parametricText, List.map_map]
  rfl

/-! ### Faithful texts -/

/-- **Texts of solutions are faithful.** Over the rationals every solution has a text, and two
solutions have the same text exactly if they are the same. In whatever style, coloured or not, every
flat has a text in parametric form, and two flats have the same one exactly if they have the same
offset and the same directions in the same order. -/
theorem texts_of_solutions_faithful :
    (∀ s : SolutionSet ℚ, ∃ text, s.display {} = .ok text) ∧
    (∀ s t : SolutionSet ℚ, s.display {} = t.display {} ↔ s = t) ∧
    ∀ (opts : PrintOptions) (colors : Bool),
      (∀ f : Flat ℚ, ∃ text, f.parametricText opts colors = .ok text) ∧
      ∀ f g : Flat ℚ, f.parametricText opts colors = g.parametricText opts colors ↔
        f.offset = g.offset ∧ f.span.directions = g.span.directions := by
  have hdisplay (s : SolutionSet ℚ) : s.display {} = .ok (solutionText .standard s) := by
    rw [SolutionSet.display, PrintOptions.updatedBy_empty, ok_bind, SolutionSet.format_eq_ok]
  refine ⟨fun s => ⟨_, hdisplay s⟩, fun s t => ?_, fun opts colors =>
    ⟨fun f => ⟨_, Flat.parametricText_eq_ok opts colors f⟩, fun f g => ?_⟩⟩
  · rw [hdisplay, hdisplay, Except.ok.injEq]
    exact (solutionText_injective .standard).eq_iff
  · rw [Flat.parametricText_eq_ok, Flat.parametricText_eq_ok, Except.ok.injEq,
      ((readable_parametricText opts colors).injective rfl).eq_iff, Prod.mk.injEq]
    -- the numbered directions without their numbers
    have hdirections (ds : List (DenseVector ℚ)) : (ds.zipIdx.map Prod.swap).map Prod.snd = ds := by
      rw [List.map_map]
      exact List.zipIdx_map_fst 0 ds
    refine and_congr_right fun _ => ⟨fun h => ?_, fun h => by rw [h]⟩
    rw [← hdirections f.span.directions, h, hdirections]

/-- A line with an offset and one direction. -/
example : (SolutionSet.space ⟨⟨[⟨[1, -1/2]⟩]⟩, ⟨[0, 2/3]⟩⟩ : SolutionSet ℚ).display {}
    = .ok "\x7b0,2/3\x7d + span[\x7b1,-1/2\x7d]" := by
  decide +kernel

end LinearSystems
