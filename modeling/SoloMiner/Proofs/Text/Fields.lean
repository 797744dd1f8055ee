import Mathlib.Data.List.Basic
import SoloMiner.Text.Cut

/-! # Fields

    A text is cut at its first or its last separator into what stands in front of it and behind
    it, and at all its separators into fields. Every cut is undone by putting the separators back.
    What stands behind the first of several marks is told by their places. -/

namespace SoloMiner.Text

variable {sep : Char} {text : List Char}

/-! ## The first separator -/

theorem cutFirst_of_notMem (h : sep ∉ text) : cutFirst sep text = none := by
  induction text with
  | nil => rfl
  | cons c cs ih =>
    rw [List.mem_cons, not_or] at h
    rw [cutFirst, if_neg (Ne.symm h.1), ih h.2]
    rfl

theorem cutFirst_append_cons {before : List Char} (h : sep ∉ before) (after : List Char) :
    cutFirst sep (before ++ sep :: after) = some (before, after) := by
  induction before with
  | nil => exact if_pos rfl
  | cons c cs ih =>
    rw [List.mem_cons, not_or] at h
    rw [List.cons_append, cutFirst, if_neg (Ne.symm h.1), ih h.2]
    rfl

/-- A text is cut at a separator in front of which there is no other. -/
theorem cutFirst_eq_some_iff {before after : List Char} :
    cutFirst sep text = some (before, after) ↔ sep ∉ before ∧ text = before ++ sep :: after := by
  constructor
  · intro h
    by_cases hsep : sep ∈ text
    · obtain ⟨front, behind, rfl, hfront⟩ := List.eq_append_cons_of_mem hsep
      rw [cutFirst_append_cons hfront] at h
      obtain ⟨rfl, rfl⟩ := Prod.mk.inj (Option.some.inj h)
      exact ⟨hfront, rfl⟩
    · rw [cutFirst_of_notMem hsep] at h
      cases h
  · rintro ⟨hbefore, rfl⟩
    exact cutFirst_append_cons hbefore after

/-! ## The last separator -/

/-- Or at one behind which there is no other: the first one of the text read backwards. -/
theorem cutLast_eq_some_iff {before after : List Char} :
    cutLast sep text = some (before, after) ↔ sep ∉ after ∧ text = before ++ sep :: after := by
  have hreverse (b a : List Char) :
      text.reverse = a ++ sep :: b ↔ text = b.reverse ++ sep :: a.reverse := by
    rw [List.reverse_eq_iff, List.reverse_append, List.reverse_cons, List.append_assoc,
      List.singleton_append]
  unfold cutLast
  rw [Option.map_eq_some_iff]
  constructor
  · rintro ⟨⟨after', before'⟩, hcut, hpair⟩
    obtain ⟨rfl, rfl⟩ := Prod.mk.inj hpair
    obtain ⟨hafter, htext⟩ := cutFirst_eq_some_iff.mp hcut
    rw [List.mem_reverse]
    exact ⟨hafter, (hreverse before' after').mp htext⟩
  · rintro ⟨hafter, htext⟩
    refine ⟨(after.reverse, before.reverse), cutFirst_eq_some_iff.mpr ⟨?_, ?_⟩, ?_⟩
    · rwa [List.mem_reverse]
    · rw [hreverse, List.reverse_reverse, List.reverse_reverse]
      exact htext
    · show (before.reverse.reverse, after.reverse.reverse) = (before, after)
      rw [List.reverse_reverse, List.reverse_reverse]

/-- A text without the separator is not cut. -/
theorem cutLast_eq_none_iff : cutLast sep text = none ↔ sep ∉ text := by
  constructor
  · intro hnone hmem
    obtain ⟨front, behind, hreverse, hfront⟩ :=
      List.eq_append_cons_of_mem (List.mem_reverse.mpr hmem)
    unfold cutLast at hnone
    rw [hreverse, cutFirst_append_cons hfront] at hnone
    cases hnone
  · intro h
    unfold cutLast
    rw [cutFirst_of_notMem (mt List.mem_reverse.mp h)]
    rfl

/-! ## The first mark -/

variable {mark rest : List Char}

/-- `rest` is what stands behind the first place at which `mark` stands. Marks that begin further
    on may overlap it. -/
def IsBehindFirst (mark text rest : List Char) : Prop :=
  ∃ front, text = front ++ mark ++ rest ∧
    ∀ front' rest', text = front' ++ mark ++ rest' → front.length ≤ front'.length

theorem IsBehindFirst.unique {rest' : List Char} (h : IsBehindFirst mark text rest)
    (h' : IsBehindFirst mark text rest') : rest = rest' := by
  obtain ⟨front, htext, hfirst⟩ := h
  obtain ⟨front', htext', hfirst'⟩ := h'
  have hlength := Nat.le_antisymm (hfirst front' rest' htext') (hfirst' front rest htext)
  have hboth := htext.symm.trans htext'
  rw [List.append_assoc, List.append_assoc] at hboth
  exact List.append_cancel_left (List.append_inj hboth hlength).2

theorem isBehindFirst_of_prefix {c : Char} (h : c :: text = mark ++ rest) :
    IsBehindFirst mark (c :: text) rest :=
  ⟨[], h, fun front' _ _ => Nat.zero_le front'.length⟩

/-- Where no mark begins, every mark is further on. -/
theorem exists_further {c : Char} {front : List Char} (h : ∀ rest', mark ++ rest' ≠ c :: text)
    (hfront : c :: text = front ++ mark ++ rest) :
    ∃ further, front = c :: further ∧ text = further ++ mark ++ rest := by
  cases front with
  | nil => exact absurd hfront.symm (h rest)
  | cons d further =>
    obtain ⟨rfl, htext⟩ := List.cons.inj hfront
    exact ⟨further, rfl, htext⟩

/-- A character at which no mark begins does not change what stands behind the first mark. -/
theorem isBehindFirst_cons {c : Char} (h : ∀ rest', mark ++ rest' ≠ c :: text) :
    IsBehindFirst mark (c :: text) rest ↔ IsBehindFirst mark text rest := by
  constructor
  · rintro ⟨front, hfront, hfirst⟩
    obtain ⟨further, rfl, htext⟩ := exists_further h hfront
    refine ⟨further, htext, ?_⟩
    intro front' rest' hfront'
    exact Nat.le_of_succ_le_succ (hfirst (c :: front') rest' (congrArg (c :: ·) hfront'))
  · rintro ⟨front, htext, hfirst⟩
    refine ⟨c :: front, congrArg (c :: ·) htext, ?_⟩
    intro front' rest' hfront'
    obtain ⟨further, rfl, htext'⟩ := exists_further h hfront'
    exact Nat.succ_le_succ (hfirst further rest' htext')

theorem not_prefix_of_isPrefixOf? (h : mark.isPrefixOf? text = none) :
    ∀ rest, mark ++ rest ≠ text := by
  intro rest heq
  rw [List.isPrefixOf?_eq_some_iff_append_eq.mpr heq] at h
  cases h

theorem afterFirst_nil (hmark : mark ≠ []) : afterFirst mark [] = none := by
  have hempty : ¬mark.isEmpty = true := by
    rw [List.isEmpty_iff]
    exact hmark
  rw [afterFirst, if_neg hempty]

theorem nil_ne_append (hmark : mark ≠ []) (front rest : List Char) :
    [] ≠ front ++ mark ++ rest := by
  intro h
  have hfront := (List.append_eq_nil_iff.mp h.symm).1
  exact hmark (List.append_eq_nil_iff.mp hfront).2

/-- The search for a mark finds the first one. -/
theorem afterFirst_eq_some_iff (hmark : mark ≠ []) :
    afterFirst mark text = some rest ↔ IsBehindFirst mark text rest := by
  induction text with
  | nil =>
    rw [afterFirst_nil hmark]
    constructor
    · intro h
      cases h
    · rintro ⟨front, htext, -⟩
      exact absurd htext (nil_ne_append hmark front rest)
  | cons c cs ih =>
    rw [afterFirst]
    cases hprefix : mark.isPrefixOf? (c :: cs) with
    -- a mark begins here, and none begins further in front
    | some behind =>
      have hfirst := isBehindFirst_of_prefix
        (List.isPrefixOf?_eq_some_iff_append_eq.mp hprefix).symm
      constructor
      · intro h
        rw [← Option.some.inj h]
        exact hfirst
      · intro h
        exact congrArg some (hfirst.unique h)
    -- the first mark is that of the rest
    | none =>
      rw [isBehindFirst_cons (not_prefix_of_isPrefixOf? hprefix)]
      exact ih

/-- Only where there is no mark none is found. -/
theorem afterFirst_eq_none_iff (hmark : mark ≠ []) :
    afterFirst mark text = none ↔ ∀ front rest, text ≠ front ++ mark ++ rest := by
  induction text with
  | nil =>
    rw [afterFirst_nil hmark]
    exact iff_of_true rfl (nil_ne_append hmark)
  | cons c cs ih =>
    rw [afterFirst]
    cases hprefix : mark.isPrefixOf? (c :: cs) with
    | some behind =>
      have hhere := (List.isPrefixOf?_eq_some_iff_append_eq.mp hprefix).symm
      constructor
      · intro h
        cases h
      · intro h
        exact absurd hhere (h [] behind)
    | none =>
      show afterFirst mark cs = none ↔ _
      rw [ih]
      constructor
      · intro h front rest hfront
        obtain ⟨further, -, hcs⟩ := exists_further (not_prefix_of_isPrefixOf? hprefix) hfront
        exact h further rest hcs
      · intro h front rest hfront
        exact h (c :: front) rest (congrArg (c :: ·) hfront)

/-- A mark does not begin inside a text that its second character is not in, unless it begins with
    the last character of this text and goes on behind it. -/
theorem length_le_of_mark {a b : Char} {front behind front' rest' : List Char} (hfree : b ∉ front)
    (hseam : front.getLast? = some a → behind.head? ≠ some b)
    (h : front ++ behind = front' ++ a :: b :: rest') : front.length ≤ front'.length := by
  rcases List.append_eq_append_iff.mp h with ⟨more, rfl, -⟩ | ⟨more, rfl, hmark⟩
  · simp
  · -- the mark begins where `more` does
    match more with
    | [] => simp
    -- the mark would begin with the last character in front and go on behind it
    | [c] =>
      obtain ⟨rfl, hbehind⟩ := List.cons.inj hmark
      have hlast : (front' ++ [a]).getLast? = some a := List.getLast?_concat
      exact absurd (congrArg List.head? hbehind.symm) (hseam hlast)
    -- the second character of the mark would stand in front
    | c :: d :: more =>
      obtain ⟨-, hsecond⟩ := List.cons.inj hmark
      obtain ⟨rfl, -⟩ := List.cons.inj hsecond
      simp at hfree

/-! ## All separators -/

/-- Even the empty text is a field. -/
theorem fields_ne_nil (sep : Char) (text : List Char) : fields sep text ≠ [] := by
  cases text with
  | nil => exact List.cons_ne_nil _ _
  | cons c cs =>
    unfold fields
    split
    · exact List.cons_ne_nil _ _
    · split
      · exact List.cons_ne_nil _ _
      · exact List.cons_ne_nil _ _

theorem fields_cons_self (sep : Char) (text : List Char) :
    fields sep (sep :: text) = [] :: fields sep text := by
  obtain ⟨f, fs, hfields⟩ := List.exists_cons_of_ne_nil (fields_ne_nil sep text)
  rw [fields, hfields]
  exact if_pos rfl

theorem fields_cons_of_ne {c : Char} (hc : c ≠ sep) {f : List Char} {fs : List (List Char)}
    (h : fields sep text = f :: fs) : fields sep (c :: text) = (c :: f) :: fs := by
  rw [fields, h]
  exact if_neg hc

theorem fields_of_notMem (h : sep ∉ text) : fields sep text = [text] := by
  induction text with
  | nil => rfl
  | cons c cs ih =>
    rw [List.mem_cons, not_or] at h
    exact fields_cons_of_ne (Ne.symm h.1) (ih h.2)

theorem fields_append_cons {f : List Char} (h : sep ∉ f) (rest : List Char) :
    fields sep (f ++ sep :: rest) = f :: fields sep rest := by
  induction f with
  | nil => exact fields_cons_self sep rest
  | cons c cs ih =>
    rw [List.mem_cons, not_or] at h
    exact fields_cons_of_ne (Ne.symm h.1) (ih h.2)

/-- No field has the separator in it. -/
theorem notMem_of_mem_fields {f : List Char} (h : f ∈ fields sep text) : sep ∉ f := by
  induction text generalizing f with
  | nil =>
    rw [List.mem_singleton.mp h]
    exact List.not_mem_nil
  | cons c cs ih =>
    obtain ⟨g, gs, hfields⟩ := List.exists_cons_of_ne_nil (fields_ne_nil sep cs)
    by_cases hc : c = sep
    · rw [hc, fields_cons_self] at h
      rcases List.mem_cons.mp h with rfl | h
      · exact List.not_mem_nil
      · exact ih h
    · rw [fields_cons_of_ne hc hfields] at h
      rcases List.mem_cons.mp h with rfl | h
      · rw [List.mem_cons, not_or]
        exact ⟨Ne.symm hc, ih (hfields ▸ List.mem_cons_self)⟩
      · exact ih (hfields ▸ List.mem_cons_of_mem g h)

/-- The fields with the separators between them are the text. -/
theorem intercalate_fields (sep : Char) (text : List Char) :
    [sep].intercalate (fields sep text) = text := by
  induction text with
  | nil => rfl
  | cons c cs ih =>
    obtain ⟨g, gs, hfields⟩ := List.exists_cons_of_ne_nil (fields_ne_nil sep cs)
    -- a separator begins a field, and any other character joins the first field of the rest
    by_cases hc : c = sep
    · rw [hc, fields_cons_self, hfields, List.intercalate_cons_cons, ← hfields, ih]
      rfl
    · rw [fields_cons_of_ne hc hfields]
      rw [hfields] at ih
      cases gs with
      | nil =>
        rw [List.intercalate_singleton] at ih ⊢
        rw [ih]
      | cons g' gs =>
        rw [List.intercalate_cons_cons] at ih ⊢
        rw [List.cons_append, List.cons_append, ih]

/-- Texts without the separator are the fields of what they make. -/
theorem fields_intercalate {fs : List (List Char)} (hne : fs ≠ []) (h : ∀ f ∈ fs, sep ∉ f) :
    fields sep ([sep].intercalate fs) = fs := by
  induction fs with
  | nil => exact absurd rfl hne
  | cons f fs ih =>
    have hf := h f List.mem_cons_self
    cases fs with
    | nil =>
      rw [List.intercalate_singleton]
      exact fields_of_notMem hf
    -- the first field ends at the separator that was put behind it
    | cons g gs =>
      have hrest := ih (List.cons_ne_nil g gs) fun f' hf' => h f' (List.mem_cons_of_mem f hf')
      rw [List.intercalate_cons_cons, List.append_assoc, List.singleton_append,
        fields_append_cons hf, hrest]

theorem fields_eq_iff {fs : List (List Char)} :
    fields sep text = fs ↔ fs ≠ [] ∧ (∀ f ∈ fs, sep ∉ f) ∧ text = [sep].intercalate fs := by
  constructor
  · rintro rfl
    exact ⟨fields_ne_nil sep text, fun f hf => notMem_of_mem_fields hf,
      (intercalate_fields sep text).symm⟩
  · rintro ⟨hne, hfree, rfl⟩
    exact fields_intercalate hne hfree

theorem intercalate_concat_append (init : List (List Char)) (last tail : List Char) :
    [sep].intercalate (init ++ [last]) ++ tail = [sep].intercalate (init ++ [last ++ tail]) := by
  induction init with
  | nil =>
    rw [List.nil_append, List.nil_append, List.intercalate_singleton, List.intercalate_singleton]
  | cons f init ih =>
    rw [List.cons_append, List.cons_append, List.intercalate_cons_of_ne_nil (by simp),
      List.intercalate_cons_of_ne_nil (by simp), List.append_assoc, ih]

/-- What has no separator joins the last field. -/
theorem exists_fields_append (text : List Char) {tail : List Char} (htail : sep ∉ tail) :
    ∃ init last, fields sep text = init ++ [last] ∧
      fields sep (text ++ tail) = init ++ [last ++ tail] := by
  obtain ⟨init, last, hfields⟩ :=
    (List.eq_nil_or_concat' (fields sep text)).resolve_left (fields_ne_nil sep text)
  refine ⟨init, last, hfields, ?_⟩
  -- the longer text is made of the same fields, the last one with the tail behind it
  have hfree : ∀ f ∈ init ++ [last ++ tail], sep ∉ f := by
    intro f hf
    rcases List.mem_append.mp hf with hf | hf
    · exact notMem_of_mem_fields (hfields ▸ List.mem_append_left _ hf)
    · have hlast : sep ∉ last :=
        notMem_of_mem_fields (hfields ▸ List.mem_append_right _ List.mem_cons_self)
      rw [List.mem_singleton.mp hf, List.mem_append, not_or]
      exact ⟨hlast, htail⟩
  rw [← intercalate_fields sep text, hfields, intercalate_concat_append]
  exact fields_intercalate (List.append_ne_nil_of_right_ne_nil _ (List.cons_ne_nil _ _)) hfree

end SoloMiner.Text
