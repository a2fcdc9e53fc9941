import Mathlib.Logic.Function.Basic
import Mathlib.Tactic.Common

/-!
# Texts that can be read in one way only

A text that is put together from others is unambiguous if a reader who goes through it from the left
always knows where a part ends and what it stands for. `Readable ends f` says this of the texts
`f a`: if two of them, each followed by something at which such a text ends, are the same, then
they stand for the same thing and what follows is the same. What may follow is part of the notion,
because a numeral can only be told from a longer one by the next character. A text that is closed by
itself, such as one in brackets, may be followed by anything.

No reader is written down. A text is taken apart in the order in which it was put together: a fixed
text before or behind (`Readable.text_append`, `Readable.append_text`), two texts one after the
other (`Readable.append`), a list of texts without separators (`Readable.join`) or with them
(`Readable.intercalate`). Of a list one has to know that what follows cannot be mistaken for one
more item.
-/

namespace LinearSystems

/-- The rest of a text that begins with a given text. -/
def Begins (w : String) (s : List Char) : Prop :=
  ∃ rest, s = w.toList ++ rest

theorem begins_append (w : String) (s : List Char) : Begins w (w.toList ++ s) :=
  ⟨s, rfl⟩

variable {α β : Type} {ends ends' : List Char → Prop} {f : α → String} {g : β → String}

/-- The texts `f a` can be read where something follows at which they end: such a text tells what it
stands for and where it ends. -/
def Readable (ends : List Char → Prop) (f : α → String) : Prop :=
  ∀ ⦃a b : α⦄ ⦃s t : List Char⦄, ends s → ends t → (f a).toList ++ s = (f b).toList ++ t →
    a = b ∧ s = t

namespace Readable

/-- A text that may be followed by nothing stands for one thing. -/
theorem injective (h : Readable ends f) (hnil : ends []) : Function.Injective f :=
  fun a b hab => (h hnil hnil (by rw [hab])).1

theorem mono (h : Readable ends f) (hends : ∀ s, ends' s → ends s) : Readable ends' f :=
  fun _ _ _ _ hs ht => h (hends _ hs) (hends _ ht)

theorem comp (h : Readable ends f) {i : β → α} (hi : Function.Injective i) :
    Readable ends fun b => f (i b) :=
  fun _ _ _ _ hs ht heq => (h hs ht heq).imp_left fun hab => hi hab

/-- A fixed text before. -/
theorem text_append (h : Readable ends f) (w : String) : Readable ends fun a => w ++ f a := by
  intro a b s t hs ht heq
  simp only [String.toList_append, List.append_assoc, List.append_cancel_left_eq] at heq
  exact h hs ht heq

/-- One text after another, at which it ends. -/
theorem append (hf : Readable ends f) (hg : Readable ends' g)
    (hnext : ∀ b s, ends' s → ends ((g b).toList ++ s)) :
    Readable ends' fun p : α × β => f p.1 ++ g p.2 := by
  rintro ⟨a, a'⟩ ⟨b, b'⟩ s t hs ht heq
  simp only [String.toList_append, List.append_assoc] at heq
  obtain ⟨rfl, hrest⟩ := hf (hnext a' s hs) (hnext b' t ht) heq
  obtain ⟨rfl, hst⟩ := hg hs ht hrest
  exact ⟨rfl, hst⟩

/-- A fixed text behind, at which the text ends. -/
theorem append_text (h : Readable ends f) (w : String)
    (hnext : ∀ s, ends' s → ends (w.toList ++ s)) : Readable ends' fun a => f a ++ w := by
  intro a b s t hs ht heq
  simp only [String.toList_append, List.append_assoc] at heq
  obtain ⟨hab, hrest⟩ := h (hnext s hs) (hnext t ht) heq
  exact ⟨hab, List.append_cancel_left hrest⟩

/-- **A text that is enclosed in two others** may be followed by anything, if the closing one cannot
be mistaken for a part of it. -/
theorem enclosed (h : Readable (Begins w) f) (v : String) :
    Readable (fun _ => True) fun a => v ++ f a ++ w :=
  (h.text_append v).append_text w fun s _ => begins_append w s

/-! ### Lists -/

theorem toList_join_cons_append (f : α → String) (x : α) (xs : List α) (s : List Char) :
    (String.join ((x :: xs).map f)).toList ++ s
      = (f x).toList ++ ((String.join (xs.map f)).toList ++ s) := by
  rw [List.map_cons, String.toList_join, List.flatMap_cons, List.append_assoc, String.toList_join]

/-- The rest of a list is an end of the item before. -/
theorem ends_join (hends : ∀ s, ends' s → ends s) (hnext : ∀ a s, ends ((f a).toList ++ s))
    (xs : List α) {s : List Char} (hs : ends' s) :
    ends ((String.join (xs.map f)).toList ++ s) := by
  cases xs with
  | nil => exact hends s hs
  | cons x xs =>
    rw [toList_join_cons_append]
    exact hnext x _

/-- **A list without separators**, each item of which ends at the next one. Where the list ends,
nothing follows that begins like an item. -/
theorem join (h : Readable ends f) (hends : ∀ s, ends' s → ends s)
    (hnext : ∀ a s, ends ((f a).toList ++ s)) (hlast : ∀ a s, ¬ends' ((f a).toList ++ s)) :
    Readable ends' fun xs : List α => String.join (xs.map f) := by
  have hnil (u : List Char) : (String.join (([] : List α).map f)).toList ++ u = u := rfl
  intro xs ys s t hs ht heq
  induction xs generalizing ys with
  | nil =>
    cases ys with
    | nil => exact ⟨rfl, heq⟩
    | cons y ys =>
      rw [toList_join_cons_append, hnil] at heq
      exact absurd (heq ▸ hs) (hlast y _)
  | cons x xs ih =>
    cases ys with
    | nil =>
      rw [toList_join_cons_append, hnil] at heq
      exact absurd (heq.symm ▸ ht) (hlast x _)
    | cons y ys =>
      rw [toList_join_cons_append, toList_join_cons_append] at heq
      obtain ⟨rfl, htail⟩ := h (ends_join hends hnext xs hs) (ends_join hends hnext ys ht) heq
      obtain ⟨rfl, hst⟩ := ih htail
      exact ⟨rfl, hst⟩

/-- Of a list with separators, all items but the first have the separator in front. -/
theorem intercalate_cons (f : α → String) (sep : String) (x : α) (xs : List α) :
    sep.intercalate ((x :: xs).map f) = f x ++ String.join (xs.map fun y => sep ++ f y) := by
  rw [← String.toList_inj, String.toList_intercalate, String.toList_append, String.toList_join]
  induction xs generalizing x with
  | nil => simp
  | cons y ys ih =>
    have htail := ih y
    simp only [List.map_cons, List.flatMap_cons, String.toList_append, List.intercalate_cons_cons]
      at htail ⊢
    rw [htail, List.append_assoc, List.append_assoc]

/-- **A list with separators that is not empty.** Items end at separators, and where the list ends,
no separator with an item follows. -/
theorem intercalate_of_ne_nil (h : Readable ends f) {sep : String}
    (hsep : ∀ s, ends (sep.toList ++ s)) (hends : ∀ s, ends' s → ends s)
    (hlast : ∀ a s, ¬ends' (sep.toList ++ ((f a).toList ++ s))) :
    Readable ends' fun xs : {xs : List α // xs ≠ []} => sep.intercalate (xs.1.map f) := by
  have happend (a : α) (s : List Char) :
      (sep ++ f a).toList ++ s = sep.toList ++ ((f a).toList ++ s) := by
    rw [String.toList_append, List.append_assoc]
  have hnext (a : α) (s : List Char) : ends ((sep ++ f a).toList ++ s) := happend a s ▸ hsep _
  have htail : Readable ends' fun xs : List α => String.join (xs.map fun a => sep ++ f a) :=
    (h.text_append sep).join hends hnext fun a s => happend a s ▸ hlast a s
  rintro ⟨xs, hxs⟩ ⟨ys, hys⟩ s t hs ht heq
  obtain ⟨x, xs, rfl⟩ := List.exists_cons_of_ne_nil hxs
  obtain ⟨y, ys, rfl⟩ := List.exists_cons_of_ne_nil hys
  dsimp only at heq
  rw [intercalate_cons, intercalate_cons] at heq
  obtain ⟨hlists, hst⟩ := h.append htail (fun xs _ => ends_join hends hnext xs) (a := (x, xs))
    (b := (y, ys)) hs ht heq
  obtain ⟨rfl, rfl⟩ := Prod.mk.inj hlists
  exact ⟨rfl, hst⟩

/-- A list with separators up to the end of the text stands for one list. -/
theorem eq_of_intercalate_eq {sep : String}
    (h : Readable ends fun xs : {xs : List α // xs ≠ []} => sep.intercalate (xs.1.map f))
    (hnil : ends []) {xs ys : List α} (hxs : xs ≠ []) (hys : ys ≠ [])
    (heq : sep.intercalate (xs.map f) = sep.intercalate (ys.map f)) : xs = ys := by
  have hlists : (⟨xs, hxs⟩ : {xs : List α // xs ≠ []}) = ⟨ys, hys⟩ := h.injective hnil heq
  exact congrArg Subtype.val hlists

/-- **A list with separators**, which may be empty if what follows does not begin like an item. -/
theorem intercalate (h : Readable ends f) {sep : String} (hsep : ∀ s, ends (sep.toList ++ s))
    (hends : ∀ s, ends' s → ends s) (hlast : ∀ a s, ¬ends' (sep.toList ++ ((f a).toList ++ s)))
    (hempty : ∀ a s, ¬ends' ((f a).toList ++ s)) :
    Readable ends' fun xs : List α => sep.intercalate (xs.map f) := by
  have hcons (x : α) (xs : List α) (s : List Char) : ∃ u,
      (sep.intercalate ((x :: xs).map f)).toList ++ s = (f x).toList ++ u := by
    rw [intercalate_cons, String.toList_append, List.append_assoc]
    exact ⟨_, rfl⟩
  have hnil (s : List Char) : (sep.intercalate (([] : List α).map f)).toList ++ s = s := rfl
  intro xs ys s t hs ht heq
  by_cases hxs : xs = []
  · by_cases hys : ys = []
    · subst hxs hys
      exact ⟨rfl, heq⟩
    · obtain ⟨y, ys, rfl⟩ := List.exists_cons_of_ne_nil hys
      obtain ⟨u, hu⟩ := hcons y ys t
      subst hxs
      rw [hnil, hu] at heq
      exact absurd (heq ▸ hs) (hempty y u)
  · by_cases hys : ys = []
    · obtain ⟨x, xs, rfl⟩ := List.exists_cons_of_ne_nil hxs
      obtain ⟨u, hu⟩ := hcons x xs s
      subst hys
      rw [hnil, hu] at heq
      exact absurd (heq.symm ▸ ht) (hempty x u)
    · obtain ⟨hlists, hst⟩ := h.intercalate_of_ne_nil hsep hends hlast
        (a := ⟨xs, hxs⟩) (b := ⟨ys, hys⟩) hs ht heq
      exact ⟨congrArg Subtype.val hlists, hst⟩

end Readable

end LinearSystems
