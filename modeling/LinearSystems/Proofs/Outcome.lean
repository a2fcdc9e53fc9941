import LinearSystems.Traced
import LinearSystems.DenseMatrix.Basic
import Mathlib.Data.Nat.Notation

/-!
# Steps that succeed

Matrices are read and rewritten one entry after the other, and each access may fail. The proofs of
this library show of every access that it does not, and from then on want to forget `Except`. The
lemmas of this module do that: a step that succeeds is run, a list of steps that succeed is a
`map`, and a search whose tests succeed is `List.find?`. Where a result is not written down, it is
said of which kind it is (`exists_mapM_eq_ok`, `exists_foldlM_eq_ok`).

Nothing is said here about a step that fails, except that it ends the computation.
-/

namespace LinearSystems

variable {ε α β γ : Type}

@[simp]
theorem pure_eq_ok (a : α) : (pure a : Except ε α) = .ok a := rfl

@[simp]
theorem ok_bind (a : α) (f : α → Except ε β) : (Except.ok a >>= f) = f a := rfl

@[simp]
theorem error_bind (e : ε) (f : α → Except ε β) :
    ((Except.error e : Except ε α) >>= f) = .error e := rfl

@[simp]
theorem map_ok (f : α → β) (a : α) : (f <$> (Except.ok a : Except ε α)) = .ok (f a) := rfl

@[simp]
theorem map_error (f : α → β) (e : ε) :
    (f <$> (Except.error e : Except ε α)) = .error e := rfl

/-- A computation in two steps succeeds exactly if both do. -/
theorem bind_eq_ok {x : Except ε α} {f : α → Except ε β} {b : β} :
    (x >>= f) = .ok b ↔ ∃ a, x = .ok a ∧ f a = .ok b := by
  cases x with
  | error e => simp
  | ok a => simp

/-- A list of steps that succeed, each with a known result, is a `map`. -/
theorem mapM_eq_ok {f : α → Except ε β} {g : α → β} {l : List α}
    (h : ∀ a ∈ l, f a = .ok (g a)) : l.mapM f = .ok (l.map g) := by
  induction l with
  | nil => rfl
  | cons a l ih =>
    rw [List.mapM_cons, h a List.mem_cons_self, ih fun b hb => h b (List.mem_cons_of_mem a hb)]
    rfl

/-- A fold whose steps succeed, each with a known result, is `foldl`. -/
theorem foldlM_eq_ok {f : β → α → Except ε β} {g : β → α → β} {l : List α}
    (h : ∀ b, ∀ a ∈ l, f b a = .ok (g b a)) (b : β) : l.foldlM f b = .ok (l.foldl g b) := by
  induction l generalizing b with
  | nil => rfl
  | cons a l ih =>
    rw [List.foldlM_cons, h b a List.mem_cons_self, ok_bind, List.foldl_cons]
    exact ih (fun b a' ha' => h b a' (List.mem_cons_of_mem a ha')) _

/-- Steps that succeed with results of one kind give a list of such results. -/
theorem exists_mapM_eq_ok {f : α → Except ε β} {P : β → Prop} {l : List α}
    (h : ∀ a ∈ l, ∃ b, f a = .ok b ∧ P b) : ∃ bs, l.mapM f = .ok bs ∧ ∀ b ∈ bs, P b := by
  induction l with
  | nil => exact ⟨[], rfl, fun b hb => absurd hb List.not_mem_nil⟩
  | cons a l ih =>
    obtain ⟨b, hb, hPb⟩ := h a List.mem_cons_self
    obtain ⟨bs, hbs, hPbs⟩ := ih fun a' ha' => h a' (List.mem_cons_of_mem a ha')
    refine ⟨b :: bs, by rw [List.mapM_cons, hb, ok_bind, hbs, ok_bind, pure_eq_ok], ?_⟩
    exact List.forall_mem_cons.2 ⟨hPb, hPbs⟩

/-- Conversely, a list of steps succeeds only if all of them do. -/
theorem exists_eq_ok_of_mapM_eq_ok {f : α → Except ε β} {l : List α} {bs : List β}
    (h : l.mapM f = .ok bs) : ∀ a ∈ l, ∃ b, f a = .ok b := by
  induction l generalizing bs with
  | nil => exact fun a ha => absurd ha List.not_mem_nil
  | cons a l ih =>
    rw [List.mapM_cons, bind_eq_ok] at h
    obtain ⟨b, hb, hrest⟩ := h
    obtain ⟨bs, hbs, -⟩ := bind_eq_ok.mp hrest
    exact List.forall_mem_cons.2 ⟨⟨b, hb⟩, ih hbs⟩

/-- A fold succeeds and keeps an invariant if each of its steps does. -/
theorem exists_foldlM_eq_ok {f : β → α → Except ε β} {P : β → Prop} {l : List α}
    (h : ∀ b, P b → ∀ a ∈ l, ∃ b', f b a = .ok b' ∧ P b') {b : β} (hb : P b) :
    ∃ b', l.foldlM f b = .ok b' ∧ P b' := by
  induction l generalizing b with
  | nil => exact ⟨b, rfl, hb⟩
  | cons a l ih =>
    obtain ⟨b', hb', hPb'⟩ := h b hb a List.mem_cons_self
    rw [List.foldlM_cons, hb', ok_bind]
    exact ih (fun b₁ hb₁ a' ha' => h b₁ hb₁ a' (List.mem_cons_of_mem a ha')) hPb'

/-! ### Two computations side by side -/

/-- Two computations end alike if they fail with the same fault or succeed with related results. -/
def EndAlike {α' : Type} (R : α → α' → Prop) : Except ε α → Except ε α' → Prop
  | .ok a, .ok a' => R a a'
  | .error e, .error e' => e = e'
  | _, _ => False

namespace EndAlike

variable {α' β' : Type} {R : α → α' → Prop} {S : β → β' → Prop} {x : Except ε α} {y : Except ε α'}

/-- Computations that end alike can be continued. -/
theorem bind (h : EndAlike R x y) {f : α → Except ε β} {g : α' → Except ε β'}
    (hfg : ∀ a a', R a a' → EndAlike S (f a) (g a')) : EndAlike S (x >>= f) (y >>= g) := by
  match x, y, h with
  | .ok a, .ok a', h => exact hfg a a' h
  | .error _, .error _, h => exact h

theorem refl {f : Except ε α} {R : α → α → Prop} (h : ∀ a, f = .ok a → R a a) : EndAlike R f f := by
  match f with
  | .ok a => exact h a rfl
  | .error _ => exact rfl

/-- Folds over one list end alike if their steps do. -/
theorem foldlM {l : List γ} {f : α → γ → Except ε α} {g : α' → γ → Except ε α'}
    (h : ∀ a a', R a a' → ∀ c ∈ l, EndAlike R (f a c) (g a' c)) {a : α} {a' : α'} (ha : R a a') :
    EndAlike R (l.foldlM f a) (l.foldlM g a') := by
  induction l generalizing a a' with
  | nil => exact ha
  | cons c l ih =>
    rw [List.foldlM_cons, List.foldlM_cons]
    exact (h a a' ha c List.mem_cons_self).bind fun b b' hb =>
      ih (fun a a' ha c' hc' => h a a' ha c' (List.mem_cons_of_mem c hc')) hb

/-- Functions that do not tell related results apart leave no difference. -/
theorem map_eq (h : EndAlike R x y) {f : α → β} {g : α' → β} (hfg : ∀ a a', R a a' → f a = g a') :
    f <$> x = g <$> y := by
  match x, y, h with
  | .ok a, .ok a', h => exact congrArg Except.ok (hfg a a' h)
  | .error _, .error _, h => exact congrArg Except.error h

end EndAlike

/-- A step that succeeds reports nothing. -/
theorem Traced.lift_ok (a : α) :
    (monadLift (Except.ok a : Except Fault α) : Traced α) = pure a := rfl

/-- A traced computation in two steps succeeds exactly if both do. -/
theorem Traced.outcome_bind_eq_ok {x : Traced α} {f : α → Traced β} {b : β} :
    (x >>= f).outcome = .ok b ↔ ∃ a, x.outcome = .ok a ∧ (f a).outcome = .ok b := by
  rw [outcome_bind, bind_eq_ok]

/-- Forgetting the log carries lists of steps to lists of steps. -/
theorem Traced.outcome_mapM (f : α → Traced β) (l : List α) :
    (l.mapM f).outcome = l.mapM fun a => (f a).outcome := by
  induction l with
  | nil => rfl
  | cons a l ih => simp only [List.mapM_cons, outcome_bind, outcome_pure, ih, pure_eq_ok]

/-- A search whose tests succeed finds what `List.find?` finds. -/
theorem findIndex_eq_ok {test : ℕ → Except Fault Bool} {t : ℕ → Bool} {start count : ℕ}
    (h : ∀ k, start ≤ k → k < start + count → test k = .ok (t k)) :
    findIndex test start count = .ok ((List.range' start count).find? t) := by
  induction count generalizing start with
  | zero => rfl
  | succ count ih =>
    rw [findIndex, h start (Nat.le_refl start) (by omega), ok_bind, List.range'_succ,
      List.find?_cons]
    cases t start with
    | true => rfl
    | false => exact ih fun k hk hlt => h k (by omega) (by omega)

end LinearSystems
