import Mathlib.Logic.Function.Basic

/-! # Taking texts apart

    Two ways of putting a text together from pieces can be undone: pieces of one length, one
    behind the other, and a piece that is closed by a character it does not contain. -/

namespace SoloMiner

variable {α β : Type}

/-- Pieces of one length are found again in what they make, since it can be cut where they end. -/
theorem flatMap_injective {piece : α → List β} {n : Nat} (hpos : 0 < n)
    (hlength : ∀ a, (piece a).length = n) (hpiece : Function.Injective piece) :
    Function.Injective fun as : List α => as.flatMap piece := by
  have hne : ∀ a rest, piece a ++ rest ≠ [] := by
    intro a rest h
    have hcount := hlength a
    rw [(List.append_eq_nil_iff.mp h).1, List.length_nil] at hcount
    omega
  intro as bs h
  induction as generalizing bs with
  | nil =>
    cases bs with
    | nil => rfl
    | cons b bs => exact absurd h.symm (hne b _)
  | cons a as ih =>
    cases bs with
    | nil => exact absurd h (hne a _)
    | cons b bs =>
      simp only [List.flatMap_cons] at h
      obtain ⟨hfront, hrest⟩ := List.append_inj h ((hlength a).trans (hlength b).symm)
      rw [hpiece hfront, ih hrest]

/-- What stands in front of the first mark is found again. -/
theorem append_mark_inj {mark : α} {as bs as' bs' : List α} (has : mark ∉ as) (hbs : mark ∉ bs)
    (h : as ++ mark :: as' = bs ++ mark :: bs') : as = bs ∧ as' = bs' := by
  induction as generalizing bs with
  | nil =>
    cases bs with
    | nil => exact ⟨rfl, (List.cons.inj h).2⟩
    | cons b bs =>
      obtain ⟨rfl, -⟩ := List.cons.inj h
      exact absurd List.mem_cons_self hbs
  -- the first elements agree, and neither side has the mark further in front
  | cons a as ih =>
    cases bs with
    | nil =>
      obtain ⟨rfl, -⟩ := List.cons.inj h
      exact absurd List.mem_cons_self has
    | cons b bs =>
      obtain ⟨rfl, hrest⟩ := List.cons.inj h
      obtain ⟨rfl, hbehind⟩ := ih (fun hmem => has (List.mem_cons_of_mem _ hmem))
        (fun hmem => hbs (List.mem_cons_of_mem _ hmem)) hrest
      exact ⟨rfl, hbehind⟩

end SoloMiner
