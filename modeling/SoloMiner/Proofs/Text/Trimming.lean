import Mathlib.Data.List.Basic
import SoloMiner.Text.Cut

/-! # Trimming

    What is left of a text that is trimmed, told without the functions that trim it: the text is
    what is left with characters of one kind around it, and what is left has none of that kind at
    its ends. So there is just one text that can be left. -/

namespace SoloMiner.Text

variable {p : Char → Bool} {text rest : List Char}

/-! ## One end -/

theorem dropWhile_eq_self (h : ∀ c ∈ text.head?, p c = false) : text.dropWhile p = text := by
  cases text with
  | nil => rfl
  | cons c cs => rw [List.dropWhile_cons, h c rfl, if_neg Bool.false_ne_true]

/-- What is left begins with an element that is kept, and in front of it stood none but dropped
    ones. -/
theorem dropWhile_eq_iff :
    text.dropWhile p = rest ↔
      (∃ lead, text = lead ++ rest ∧ ∀ c ∈ lead, p c = true) ∧ ∀ c ∈ rest.head?, p c = false := by
  constructor
  · rintro rfl
    refine ⟨⟨text.takeWhile p, ?_, ?_⟩, ?_⟩
    · exact List.takeWhile_append_dropWhile.symm
    · exact List.all_eq_true.mp List.all_takeWhile
    · intro c hc
      have hhead := List.head?_dropWhile_not p text
      rw [Option.mem_def.mp hc] at hhead
      exact hhead
  · rintro ⟨⟨lead, rfl, hlead⟩, hrest⟩
    rw [List.dropWhile_append_of_pos hlead, dropWhile_eq_self hrest]

/-- What is left ends with an element that is kept, and behind it stood none but dropped ones. -/
theorem trimEndWhile_eq_iff :
    trimEndWhile p text = rest ↔
      (∃ trail, text = rest ++ trail ∧ ∀ c ∈ trail, p c = true) ∧
        ∀ c ∈ rest.getLast?, p c = false := by
  unfold trimEndWhile
  rw [List.reverse_eq_iff, dropWhile_eq_iff, List.head?_reverse]
  apply and_congr_left'
  -- the same trail, read from its end
  constructor
  · rintro ⟨lead, hlead, hall⟩
    refine ⟨lead.reverse, ?_, ?_⟩
    · rw [← List.reverse_reverse rest, ← List.reverse_append, ← hlead, List.reverse_reverse]
    · intro c hc
      exact hall c (List.mem_reverse.mp hc)
  · rintro ⟨trail, rfl, hall⟩
    refine ⟨trail.reverse, List.reverse_append, ?_⟩
    intro c hc
    exact hall c (List.mem_reverse.mp hc)

theorem exists_trimEnd_append (text : List Char) :
    ∃ blanks, text = trimEnd text ++ blanks ∧ ∀ c ∈ blanks, isBlank c = true :=
  (trimEndWhile_eq_iff.mp rfl).1

theorem trimEnd_eq_self (h : ∀ c ∈ text.getLast?, isBlank c = false) : trimEnd text = text :=
  trimEndWhile_eq_iff.mpr ⟨⟨[], by simp⟩, h⟩

/-- Of a longer text the same is trimmed, if something is left behind its front. -/
theorem trimEnd_append (front : List Char) (h : trimEnd text ≠ []) :
    trimEnd (front ++ text) = front ++ trimEnd text := by
  obtain ⟨blanks, htext, hblanks⟩ := exists_trimEnd_append text
  apply trimEndWhile_eq_iff.mpr
  constructor
  · refine ⟨blanks, ?_, hblanks⟩
    rw [List.append_assoc, ← htext]
  · rw [List.getLast?_append_of_ne_nil _ h]
    exact (trimEndWhile_eq_iff.mp rfl).2

/-- A text that begins with no blank keeps its first character. -/
theorem exists_trimEnd_cons {c : Char} (hc : isBlank c = false) (text : List Char) :
    ∃ rest, trimEnd (c :: text) = c :: rest := by
  obtain ⟨blanks, htext, hblanks⟩ := exists_trimEnd_append (c :: text)
  cases hrest : trimEnd (c :: text) with
  | nil =>
    -- then `c` itself is one of the blanks
    rw [hrest, List.nil_append] at htext
    have hblank := hblanks c (htext ▸ List.mem_cons_self)
    rw [hc] at hblank
    cases hblank
  | cons d rest =>
    rw [hrest] at htext
    obtain ⟨rfl, -⟩ := List.cons.inj htext
    exact ⟨rest, rfl⟩

/-! ## Both ends -/

/-- `text` is `rest` with blanks around it, and `rest` has no blank at its ends. -/
structure IsTrimmed (text rest : List Char) : Prop where
  around : ∃ lead trail, text = lead ++ rest ++ trail ∧ (∀ c ∈ lead, isBlank c = true) ∧
    ∀ c ∈ trail, isBlank c = true
  head : ∀ c ∈ rest.head?, isBlank c = false
  last : ∀ c ∈ rest.getLast?, isBlank c = false

/-- The trimmed text is what stands between blanks, and has none at either end. -/
theorem trim_eq_iff : trim text = rest ↔ IsTrimmed text rest := by
  unfold trim trimEnd trimStart
  rw [trimEndWhile_eq_iff]
  constructor
  · rintro ⟨⟨trail, hstart, htrail⟩, hlast⟩
    obtain ⟨⟨lead, htext, hlead⟩, hhead⟩ := dropWhile_eq_iff.mp hstart
    refine ⟨⟨lead, trail, ?_, hlead, htrail⟩, ?_, hlast⟩
    · rw [htext, List.append_assoc]
    · intro c hc
      apply hhead
      rw [List.head?_append, Option.mem_def.mp hc]
      rfl
  · rintro ⟨⟨lead, trail, rfl, hlead, htrail⟩, hhead, hlast⟩
    refine ⟨?_, hlast⟩
    rw [List.append_assoc, List.dropWhile_append_of_pos hlead]
    by_cases hnil : rest = []
    · -- of a blank text nothing is left
      have hnone : trail.dropWhile isBlank = [] :=
        dropWhile_eq_iff.mpr ⟨⟨trail, (List.append_nil trail).symm, htrail⟩, by simp⟩
      rw [hnil, List.nil_append]
      exact ⟨[], hnone, by simp⟩
    · refine ⟨trail, ?_, htrail⟩
      apply dropWhile_eq_self
      intro c hc
      rw [List.head?_append_of_ne_nil _ hnil] at hc
      exact hhead c hc

/-- A text without blanks is trimmed. -/
theorem isTrimmed_self (h : ∀ c ∈ text, isBlank c = false) : IsTrimmed text text where
  around := ⟨[], [], by simp⟩
  head := by
    intro c hc
    exact h c (List.mem_of_mem_head? hc)
  last := by
    intro c hc
    exact h c (List.mem_of_mem_getLast? hc)

end SoloMiner.Text
