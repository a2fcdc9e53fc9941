import LinearSystems.Proofs.Text.Reading
import LinearSystems.Rational
import Mathlib.Data.Rat.Defs

/-!
# Reading rational entries

The text of a fraction is a sign and a magnitude, and a magnitude is a numeral, two of them with a
slash between, or in LaTeX a `\frac` of two of them (`entryText_eq`). A numeral ends where no digit
follows, and a fraction that is a whole number ends where no slash follows either. So the text can
be read wherever what follows begins with neither (`readable_entryText`). What it begins with itself
tells it from the separators and brackets of a list (`BeginsEntry`).
-/

namespace LinearSystems

/-! ### Numerals -/

/-- No digit follows. -/
def EndsNumeral (s : List Char) : Prop :=
  ∀ c ∈ s.head?, c.isDigit = false

@[simp]
theorem endsNumeral_cons {c : Char} {s : List Char} :
    EndsNumeral (c :: s) ↔ c.isDigit = false := by
  simp [EndsNumeral]

/-- The text begins with a digit. -/
def BeginsNumeral (s : List Char) : Prop :=
  ∃ c ∈ s.head?, c.isDigit = true

/-- **A numeral is read digit by digit**, up to the first character that is none. -/
theorem readable_repr : Readable EndsNumeral Nat.repr := by
  have hdigits (n : ℕ) {u : List Char} (hu : EndsNumeral u) :
      (Nat.toDigits 10 n ++ u).takeWhile Char.isDigit = Nat.toDigits 10 n := by
    rw [List.takeWhile_append_of_pos fun c hc =>
      Nat.isDigit_of_mem_toDigits (by decide) (by decide) hc]
    cases u with
    | nil => simp
    | cons c u => simp [hu c rfl]
  intro m n s t hs ht heq
  rw [Nat.toList_repr, Nat.toList_repr] at heq
  have hsame : Nat.toDigits 10 m = Nat.toDigits 10 n := by
    rw [← hdigits m hs, heq, hdigits n ht]
  rw [hsame] at heq
  refine ⟨?_, List.append_cancel_left heq⟩
  rw [← Nat.ofDigitChars_ten_toDigits (n := m), hsame, Nat.ofDigitChars_ten_toDigits]

theorem beginsNumeral_repr (n : ℕ) (s : List Char) : BeginsNumeral (n.repr.toList ++ s) := by
  rw [Nat.toList_repr]
  obtain ⟨c, rest, hdigits⟩ := List.exists_cons_of_ne_nil (Nat.toDigits_ne_nil (n := n) (b := 10))
  have hc : c ∈ Nat.toDigits 10 n := hdigits ▸ List.mem_cons_self
  rw [hdigits]
  exact ⟨c, rfl, Nat.isDigit_of_mem_toDigits (by decide) (by decide) hc⟩

/-! ### Magnitudes -/

/-- Neither a digit nor a slash follows. -/
def EndsEntry (s : List Char) : Prop :=
  ∀ c ∈ s.head?, c.isDigit = false ∧ c ≠ '/'

@[simp]
theorem endsEntry_nil : EndsEntry [] :=
  fun _ hc => nomatch hc

@[simp]
theorem endsEntry_cons {c : Char} {s : List Char} :
    EndsEntry (c :: s) ↔ c.isDigit = false ∧ c ≠ '/' := by
  simp [EndsEntry]

theorem EndsEntry.endsNumeral {s : List Char} (h : EndsEntry s) : EndsNumeral s :=
  fun c hc => (h c hc).1

/-- What is written behind the numerator on one line. -/
def denominatorText (den : ℕ) : String :=
  if den = 1 then "" else "/" ++ den.repr

/-- The fraction of LaTeX. -/
def fracText (p : ℕ × ℕ) : String :=
  "\\frac\x7b" ++ (p.1.repr ++ ("\x7d\x7b" ++ p.2.repr)) ++ "\x7d"

/-- A fraction without its sign, given its numerator and its denominator. -/
def magnitudeText (latex : Bool) (p : ℕ × ℕ) : String :=
  if latex = true ∧ p.2 ≠ 1 then fracText p else p.1.repr ++ denominatorText p.2

theorem endsNumeral_denominatorText (den : ℕ) {s : List Char} (hs : EndsEntry s) :
    EndsNumeral ((denominatorText den).toList ++ s) := by
  rw [denominatorText]
  split_ifs
  · exact hs.endsNumeral
  · simp

theorem readable_denominatorText : Readable EndsEntry denominatorText := by
  have hslash {s : List Char} (hs : EndsEntry s) (den : ℕ) (t : List Char) :
      s ≠ ("/" ++ den.repr).toList ++ t := by
    rintro rfl
    exact (hs '/' (by simp)).2 rfl
  intro m n s t hs ht heq
  rw [denominatorText, denominatorText] at heq
  split_ifs at heq with hm hn hn
  · exact ⟨hm.trans hn.symm, heq⟩
  · exact absurd heq (hslash hs n t)
  · exact absurd heq.symm (hslash ht m s)
  · exact readable_repr.text_append "/" hs.endsNumeral ht.endsNumeral heq

theorem readable_fracText : Readable (fun _ => True) fracText := by
  have hpair := readable_repr.append (readable_repr.text_append "\x7d\x7b")
    fun n s _ => by simp
  refine ((hpair.mono ?_).enclosed _ :)
  rintro _ ⟨rest, rfl⟩
  simp

/-- No numeral begins with a backslash. -/
theorem not_beginsNumeral_fracText (p : ℕ × ℕ) (s : List Char) :
    ¬BeginsNumeral ((fracText p).toList ++ s) := by
  simp [BeginsNumeral, fracText]

theorem readable_magnitudeText (latex : Bool) : Readable EndsEntry (magnitudeText latex) := by
  have hline : Readable EndsEntry fun p : ℕ × ℕ => p.1.repr ++ denominatorText p.2 :=
    readable_repr.append readable_denominatorText fun den _ => endsNumeral_denominatorText den
  have hbegins (p : ℕ × ℕ) (s : List Char) :
      BeginsNumeral ((p.1.repr ++ denominatorText p.2).toList ++ s) := by
    rw [String.toList_append, List.append_assoc]
    exact beginsNumeral_repr p.1 _
  intro p q s t hs ht heq
  rw [magnitudeText, magnitudeText] at heq
  split_ifs at heq
  · exact readable_fracText trivial trivial heq
  · exact absurd (heq ▸ hbegins q t) (not_beginsNumeral_fracText p s)
  · exact absurd (heq ▸ hbegins p s) (not_beginsNumeral_fracText q t)
  · exact hline hs ht heq

/-! ### Entries -/

/-- The text begins like a number: with a digit, with a sign, or with a fraction of LaTeX. -/
def BeginsEntry (s : List Char) : Prop :=
  BeginsNumeral s ∨ Begins "-" s ∨ Begins "\\frac" s

@[simp]
theorem beginsEntry_cons {c : Char} {s : List Char} :
    BeginsEntry (c :: s) ↔ c.isDigit = true ∨ c = '-' ∨ c = '\\' ∧ Begins "frac" s := by
  simp [BeginsEntry, BeginsNumeral, Begins]

/-- The text of an entry in a given style. -/
def entryText (opts : PrintOptions) (q : ℚ) : String :=
  if opts.isLatex then Rational.latexText q else Rational.text q

theorem format_eq_entryText (opts : PrintOptions) (q : ℚ) :
    ScalarText.format opts q = .ok (entryText opts q) := rfl

/-- The sign in front of a magnitude. -/
def signText (negative : Bool) : String :=
  if negative then "-" else ""

/-- **An entry is a sign and a magnitude.** -/
theorem entryText_eq (opts : PrintOptions) (q : ℚ) :
    entryText opts q
      = signText (Rational.isNegative q) ++ magnitudeText opts.isLatex (q.num.natAbs, q.den) := by
  have hinteger :
      Decimal.integer q.num = signText (Rational.isNegative q) ++ q.num.natAbs.repr := by
    rw [Decimal.integer, signText, Rational.isNegative]
    by_cases hneg : q.num < 0 <;> simp [hneg]
  simp only [entryText, Rational.latexText, Rational.text, hinteger, Rational.isInteger,
    magnitudeText, denominatorText, fracText, beq_iff_eq]
  cases opts.isLatex <;> by_cases hden : q.den = 1 <;>
    simp [hden, signText, String.append_assoc]

theorem readable_signText : Readable (fun s => ¬Begins "-" s) signText := by
  intro a b s t hs ht heq
  cases a <;> cases b
  · exact ⟨rfl, heq⟩
  · exact absurd ⟨t, heq⟩ hs
  · exact absurd ⟨s, heq.symm⟩ ht
  · exact ⟨rfl, List.append_cancel_left heq⟩

/-- What a magnitude begins with. -/
theorem beginsEntry_magnitudeText (latex : Bool) (p : ℕ × ℕ) (s : List Char) :
    BeginsNumeral ((magnitudeText latex p).toList ++ s) ∨
      Begins "\\frac" ((magnitudeText latex p).toList ++ s) := by
  rw [magnitudeText]
  split_ifs
  · refine Or.inr ⟨("\x7b" ++ (p.1.repr ++ ("\x7d\x7b" ++ p.2.repr)) ++ "\x7d").toList ++ s, ?_⟩
    simp [fracText]
  · rw [String.toList_append, List.append_assoc]
    exact Or.inl (beginsNumeral_repr p.1 _)

/-- **Different fractions have different texts**, also where more text follows that cannot be taken
for a part of the fraction. -/
theorem readable_entryText (opts : PrintOptions) : Readable EndsEntry (entryText opts) := by
  have hsign (p : ℕ × ℕ) (s : List Char) (_ : EndsEntry s) :
      ¬Begins "-" ((magnitudeText opts.isLatex p).toList ++ s) := by
    rintro ⟨rest, hrest⟩
    have hbegins := beginsEntry_magnitudeText opts.isLatex p s
    rw [hrest] at hbegins
    simp [BeginsNumeral, Begins] at hbegins
  have hparts := (readable_signText.append (readable_magnitudeText opts.isLatex) hsign).comp
    (i := fun q : ℚ => (Rational.isNegative q, q.num.natAbs, q.den)) ?_
  · rw [funext (entryText_eq opts)]
    exact hparts
  · -- a fraction is given by its sign, its numerator and its denominator
    intro q q' hq
    simp only [Prod.mk.injEq, Rational.isNegative, decide_eq_decide] at hq
    exact Rat.ext (by omega) hq.2.2

theorem beginsEntry_entryText (opts : PrintOptions) (q : ℚ) (s : List Char) :
    BeginsEntry ((entryText opts q).toList ++ s) := by
  rw [entryText_eq, String.toList_append, List.append_assoc, signText]
  split_ifs
  · exact Or.inr (Or.inl (begins_append "-" _))
  · exact (beginsEntry_magnitudeText opts.isLatex _ s).imp_right Or.inr

/-- What no entry begins with does not stand where an entry stands. -/
theorem not_begins_entryText (opts : PrintOptions) (q : ℚ) (s : List Char) {w : String}
    (hw : ∀ rest, ¬BeginsEntry (w.toList ++ rest)) :
    ¬Begins w ((entryText opts q).toList ++ s) := by
  rintro ⟨rest, hrest⟩
  exact hw rest (hrest ▸ beginsEntry_entryText opts q s)

/-- **A list of entries in brackets** may be followed by anything, if an entry ends at the separator
and at the closing bracket, and neither can be mistaken for the other or for an entry. -/
theorem readable_enclosedEntries (opts : PrintOptions) (v : String) {sep w : String}
    (hsep : ∀ s, EndsEntry (sep.toList ++ s)) (hclose : ∀ s, EndsEntry (w.toList ++ s))
    (hne : ∀ s, ¬Begins w (sep.toList ++ s)) (hentry : ∀ s, ¬BeginsEntry (w.toList ++ s)) :
    Readable (fun _ => True) fun qs : List ℚ =>
      v ++ sep.intercalate (qs.map (entryText opts)) ++ w := by
  refine Readable.enclosed ?_ v
  refine (readable_entryText opts).intercalate hsep ?_ (fun _ _ => hne _) fun q s =>
    not_begins_entryText opts q s hentry
  rintro _ ⟨rest, rfl⟩
  exact hclose rest

end LinearSystems
