import Mathlib.Data.List.Basic
import PropzaAmlak.Data.Spaces

/-! Texts that are split at a separator and stripped of white space. -/

namespace Text

variable {α : Type} {p : α → Bool} {l piece : List α} {a sep : α} {text : List Char} {c : Char}

/-! ### Splitting -/

theorem mem_splitOn [DecidableEq α] (h : piece ∈ l.splitOn sep) : sep ∉ piece ∧ ∀ a ∈ piece, a ∈ l := by
  induction l generalizing piece with
  | nil =>
    rw [List.splitOn_nil, List.mem_singleton] at h
    simp [h]
  | cons b l ih =>
    rw [List.splitOn_cons_eq_if_modifyHead] at h
    split at h
    · rcases List.mem_cons.mp h with rfl | h
      · simp
      · exact ⟨(ih h).1, fun a ha => List.mem_cons_of_mem _ ((ih h).2 a ha)⟩
    · rename_i hb
      cases hsplit : l.splitOn sep with
      | nil => exact (List.splitOn_ne_nil sep l hsplit).elim
      | cons first others =>
        rw [hsplit, List.modifyHead_cons] at h
        rcases List.mem_cons.mp h with rfl | h
        · obtain ⟨hnot, hmem⟩ := ih (hsplit ▸ List.mem_cons_self)
          refine ⟨fun hs => ?_, fun a ha => ?_⟩
          · rcases List.mem_cons.mp hs with rfl | hs
            · simp at hb
            · exact hnot hs
          · rcases List.mem_cons.mp ha with rfl | ha
            · exact List.mem_cons_self
            · exact List.mem_cons_of_mem _ (hmem a ha)
        · obtain ⟨hnot, hmem⟩ := ih (hsplit ▸ List.mem_cons_of_mem first h)
          exact ⟨hnot, fun a ha => List.mem_cons_of_mem _ (hmem a ha)⟩

/-! ### Stripping -/

/-- Nothing is to be dropped from the front. -/
def Starts (p : α → Bool) (l : List α) : Prop := ∀ a ∈ l.head?, p a = false

theorem starts_dropWhile : Starts p (l.dropWhile p) := by
  induction l with
  | nil => simp [Starts]
  | cons b l ih =>
    rw [List.dropWhile_cons]
    split
    · exact ih
    · rename_i hb
      intro a ha
      obtain rfl : b = a := by simpa using ha
      simpa using hb

theorem Starts.dropWhile_eq (h : Starts p l) : l.dropWhile p = l := by
  cases l with
  | nil => rfl
  | cons b l =>
    rw [List.dropWhile_cons, if_neg]
    simp [h b rfl]

/-- The reverse of a list that ends well still does when its front is dropped. -/
theorem Starts.reverse_dropWhile (h : Starts p l.reverse) : Starts p (l.dropWhile p).reverse := by
  intro a ha
  rw [List.head?_reverse] at ha
  refine h a ?_
  rw [List.head?_reverse]
  obtain ⟨front, hfront⟩ := List.dropWhile_suffix p (l := l)
  rw [← hfront, List.getLast?_append, Option.mem_def.mp ha]
  rfl

/-- A text that neither begins nor ends with white space. -/
def Stripped (text : List Char) : Prop := strip text = text

theorem stripped_iff : Stripped text ↔ Starts isSpace text ∧ Starts isSpace text.reverse := by
  constructor
  · intro h
    rw [← h, strip]
    refine ⟨?_, ?_⟩
    · refine Starts.reverse_dropWhile ?_
      rw [List.reverse_reverse]
      exact starts_dropWhile
    · rw [List.reverse_reverse]
      exact starts_dropWhile
  · rintro ⟨h, h'⟩
    rw [Stripped, strip, h.dropWhile_eq, h'.dropWhile_eq, List.reverse_reverse]

theorem stripped_strip : Stripped (strip text) := by
  rw [stripped_iff, strip]
  refine ⟨?_, ?_⟩
  · refine Starts.reverse_dropWhile ?_
    rw [List.reverse_reverse]
    exact starts_dropWhile
  · rw [List.reverse_reverse]
    exact starts_dropWhile

theorem mem_strip (h : c ∈ strip text) : c ∈ text := by
  rw [strip, List.mem_reverse] at h
  have h' := (List.dropWhile_sublist isSpace).mem h
  exact (List.dropWhile_sublist isSpace).mem (List.mem_reverse.mp h')

theorem stripped_of_forall (h : ∀ c ∈ text, isSpace c = false) : Stripped text := by
  refine stripped_iff.mpr ⟨fun c hc => h c (List.mem_of_mem_head? hc), fun c hc => h c ?_⟩
  exact List.mem_reverse.mp (List.mem_of_mem_head? hc)

/-- Stripped texts that are joined by something else than white space. -/
theorem Stripped.join {text' : List Char} (h : Stripped text) (h' : Stripped text') (hc : isSpace c = false) :
    Stripped (text ++ c :: text') := by
  rw [stripped_iff] at h h' ⊢
  constructor
  · intro d hd
    cases text with
    | nil =>
      obtain rfl : c = d := by simpa using hd
      exact hc
    | cons b rest => exact h.1 d hd
  · intro d hd
    rw [List.reverse_append, List.reverse_cons, List.append_assoc] at hd
    cases hrev : text'.reverse with
    | nil =>
      rw [hrev] at hd
      obtain rfl : c = d := by simpa using hd
      exact hc
    | cons b rest =>
      rw [hrev] at hd
      exact h'.2 d (by rw [hrev]; exact hd)

theorem stripped_intercalate {pieces : List (List Char)} (h : ∀ piece ∈ pieces, Stripped piece)
    (hc : isSpace c = false) : Stripped ([c].intercalate pieces) := by
  induction pieces with
  | nil => rfl
  | cons first others ih =>
    have hothers := ih fun piece hp => h piece (List.mem_cons_of_mem _ hp)
    cases others with
    | nil => simpa using h first List.mem_cons_self
    | cons second others =>
      rw [List.intercalate_cons_cons, List.append_assoc, List.singleton_append]
      exact (h first List.mem_cons_self).join hothers hc

end Text
