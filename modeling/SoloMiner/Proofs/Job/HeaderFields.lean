import Mathlib.Logic.Function.Basic
import SoloMiner.Proofs.Job.Packets
import SoloMiner.Proofs.Text.Fields
import SoloMiner.Proofs.Text.Splitting
import SoloMiner.Proofs.Text.Trimming

/-! # Fields of headers

    Which fields are pairs that count, told without their reader, and which values can be read.
    A draft is given by what was noted last for each key: a pair is taken if its value can be
    read, and then its value is noted. -/

namespace SoloMiner.BlockHeader

/-! ## Pairs that count -/

/-- `text` is a pair that counts. The value goes as far as the value characters do. -/
structure IsPair (text : List Char) (key : String) (value : List Char) : Prop where
  key_ne_nil : key.toList ≠ []
  key_all : ∀ c ∈ key.toList, isKeyChar c = true
  isValue : IsValue value
  cut : ∃ behind, text = key.toList ++ '=' :: (value ++ behind) ∧
    ∀ c ∈ behind.head?, isValueChar c = false

theorem IsPair.mem {text : List Char} {key : String} {value : List Char}
    (h : IsPair text key value) : '=' ∈ text := by
  obtain ⟨behind, rfl, -⟩ := h.cut
  exact List.mem_append_right _ List.mem_cons_self

theorem takeWhile_of_head? {behind : List Char} (h : ∀ c ∈ behind.head?, isValueChar c = false) :
    behind.takeWhile isValueChar = [] := by
  cases behind with
  | nil => rfl
  | cons c cs => rw [List.takeWhile_cons, h c rfl, if_neg Bool.false_ne_true]

theorem pair?_of_notMem {text : List Char} (h : '=' ∉ text) : pair? text = none := by
  rw [pair?, Text.cutFirst_of_notMem h]

/-- A field with an equals sign is a pair if the key in front of it is written as one, and the
    value behind it is not empty. -/
theorem pair?_append_cons {key : List Char} (h : '=' ∉ key) (rest : List Char) :
    pair? (key ++ '=' :: rest) =
      if key ≠ [] ∧ key.all isKeyChar = true ∧ rest.takeWhile isValueChar ≠ [] then
        some (key, rest.takeWhile isValueChar)
      else none := by
  rw [← ite_not, pair?, Text.cutFirst_append_cons h]
  apply if_congr _ rfl rfl
  rw [Bool.or_eq_true, Bool.or_eq_true, Bool.not_eq_true', ← Bool.not_eq_true, List.isEmpty_iff,
    List.isEmpty_iff]
  tauto

/-- The reader of pairs and their grammar agree. -/
theorem pair?_eq_some_iff {text key value : List Char} :
    pair? text = some (key, value) ↔ IsPair text (String.ofList key) value := by
  by_cases heq : '=' ∈ text
  · obtain ⟨front, rest, rfl, hfront⟩ := List.eq_append_cons_of_mem heq
    rw [pair?_append_cons hfront]
    constructor
    · -- the value is as long as its characters go, so what stands behind begins with another
      intro h
      obtain ⟨⟨hne, hall, htake⟩, hpair⟩ := Option.ite_none_right_eq_some.mp h
      obtain ⟨rfl, rfl⟩ := Prod.mk.inj (Option.some.inj hpair)
      refine ⟨?_, ?_, ⟨htake, List.all_eq_true.mp List.all_takeWhile⟩,
        rest.dropWhile isValueChar, ?_, ?_⟩
      · rwa [String.toList_ofList]
      · rwa [String.toList_ofList, ← List.all_eq_true]
      · rw [List.takeWhile_append_dropWhile, String.toList_ofList]
      · intro c hc
        have hhead := List.head?_dropWhile_not isValueChar rest
        rw [Option.mem_def.mp hc] at hhead
        exact hhead
    · rintro ⟨hne, hall, hvalue, behind, htext, hbehind⟩
      rw [String.toList_ofList] at hne hall htext
      have hkey : '=' ∉ key := by
        intro hmem
        have hchar := hall '=' hmem
        exact absurd hchar (by decide)
      -- both cuts are at the first equals sign
      obtain ⟨rfl, rfl⟩ := append_mark_inj hfront hkey htext
      have htake : (value ++ behind).takeWhile isValueChar = value := by
        rw [List.takeWhile_append_of_pos hvalue.all, takeWhile_of_head? hbehind, List.append_nil]
      rw [htake, if_pos ⟨hne, List.all_eq_true.mpr hall, hvalue.ne_nil⟩]
  · rw [pair?_of_notMem heq]
    exact ⟨nofun, fun h => absurd h.mem heq⟩

theorem isPair_iff {text : List Char} {key : String} {value : List Char} :
    IsPair text key value ↔ pair? text = some (key.toList, value) := by
  rw [pair?_eq_some_iff, String.ofList_toList]

theorem IsPair.unique {text : List Char} {key key' : String} {value value' : List Char}
    (h : IsPair text key value) (h' : IsPair text key' value') : key = key' ∧ value = value' := by
  rw [isPair_iff] at h h'
  rw [h] at h'
  obtain ⟨hkey, hvalue⟩ := Prod.mk.inj (Option.some.inj h')
  exact ⟨String.toList_inj.mp hkey, hvalue⟩

theorem isPair_or_not (text : List Char) :
    (∃ key value, IsPair text key value) ∨ ∀ key value, ¬IsPair text key value := by
  by_cases h : ∃ key value, IsPair text key value
  · exact Or.inl h
  · simp only [not_exists] at h
    exact Or.inr h

/-- A field with an equals sign may go on behind its value. -/
theorem pair?_append {f tail : List Char} (heq : '=' ∈ f)
    (htail : ∀ c ∈ tail.head?, isValueChar c = false) : pair? (f ++ tail) = pair? f := by
  obtain ⟨key, rest, rfl, hkey⟩ := List.eq_append_cons_of_mem heq
  have htake : (rest ++ tail).takeWhile isValueChar = rest.takeWhile isValueChar := by
    rw [List.takeWhile_append]
    -- the value is the whole rest, and the tail does not prolong it, or it ends before
    split
    · next hlength =>
      rw [takeWhile_of_head? htail, List.append_nil,
        (List.takeWhile_prefix isValueChar).eq_of_length hlength]
    · rfl
  rw [List.append_assoc, List.cons_append, pair?_append_cons hkey, pair?_append_cons hkey, htake]

/-- The characters of values lie between the full stop and the letter z. -/
theorem toNat_of_isValueChar {c : Char} (h : isValueChar c = true) :
    46 ≤ c.toNat ∧ c.toNat ≤ 122 := by
  have hspan (a b : Char) : a ≤ c ∧ c ≤ b ↔ a.toNat ≤ c.toNat ∧ c.toNat ≤ b.toNat := Iff.rfl
  simp only [isValueChar, isLetter, Bool.or_eq_true, Bool.and_eq_true, decide_eq_true_eq, hspan,
    beq_iff_eq, Char.reduceToNat] at h
  rcases h with ((h | h) | rfl) | rfl
  · omega
  · omega
  · decide
  · decide

theorem isValueChar_of_isBlank {c : Char} (h : Text.isBlank c = true) : isValueChar c = false := by
  rw [Bool.eq_false_iff]
  intro hvalue
  have hspan := toNat_of_isValueChar hvalue
  simp only [Text.isBlank, Bool.or_eq_true, Bool.and_eq_true, decide_eq_true_eq, beq_iff_eq] at h
  omega

/-- The pairs of a packet are those of its fields, also if blanks stand behind the last. -/
theorem pairs_eq (body : List Char) : pairs body = (Text.fields '&' body).filterMap pair? := by
  obtain ⟨blanks, hbody, hblank⟩ := Text.exists_trimEnd_append body
  have hfree (c : Char) (hc : Text.isBlank c = false) : c ∉ blanks := by
    intro hmem
    rw [hblank c hmem] at hc
    cases hc
  obtain ⟨init, last, htrim, hfull⟩ :=
    Text.exists_fields_append (Text.trimEnd body) (hfree '&' rfl)
  rw [← hbody] at hfull
  -- the blanks join the last field, which tells no more with them
  have hlast : pair? (last ++ blanks) = pair? last := by
    by_cases heq : '=' ∈ last
    · apply pair?_append heq
      intro c hc
      exact isValueChar_of_isBlank (hblank c (List.mem_of_mem_head? hc))
    · have heq' : '=' ∉ last ++ blanks := by
        rw [List.mem_append, not_or]
        exact ⟨heq, hfree '=' rfl⟩
      rw [pair?_of_notMem heq, pair?_of_notMem heq']
  rw [pairs, htrim, hfull, List.filterMap_append, List.filterMap_append, List.filterMap_cons,
    List.filterMap_cons, hlast]

/-! ## Values that can be read -/

/-- Two numbers in order with a semicolon between them. As numerals have no semicolon, there is
    one way to read a range. -/
def IsRange (value : List Char) (low high : Int64) : Prop :=
  ∃ lowText highText, value = lowText ++ ';' :: highText ∧ Decimal.IsNumeral lowText low ∧
    Decimal.IsNumeral highText high ∧ low ≤ high

/-- The value has the form that its key demands. A value of any other key has no form to keep to,
    whether or not a header is read from it. -/
structure IsReadable (key : String) (value : List Char) : Prop where
  number : key ∈ ["ID", "TIMESTAMP", "DIFFICULTY"] → ∃ n, Decimal.IsNumeral value n
  range : key = "JOB" → ∃ low high, IsRange value low high

theorem int64?_eq_some_iff {value part : List Char} (hvalue : IsValue value) (hpart : part ⊆ value)
    {n : Int64} : Decimal.int64? part = some n ↔ Decimal.IsNumeral part n := by
  apply Decimal.int64?_eq_some_iff
  · intro hmem
    have hplus := hvalue.all '+' (hpart hmem)
    exact absurd hplus (by decide)
  · exact minus_notMem hvalue hpart

theorem number_eq_ok_iff {field : String} {part : List Char} {n : Int64} :
    number field part = .ok n ↔ Decimal.int64? part = some n := by
  unfold number
  cases Decimal.int64? part with
  | none => exact ⟨nofun, nofun⟩
  | some m =>
    show Except.ok m = .ok n ↔ some m = some n
    rw [Except.ok.injEq, Option.some.injEq]

/-- The reader of ranges and their grammar agree. -/
theorem range_eq_ok_iff {value : List Char} (hvalue : IsValue value) {low high : Int64} :
    range value = .ok (low, high) ↔ IsRange value low high := by
  constructor
  · intro h
    obtain ⟨-, horder⟩ := le_of_range hvalue h
    unfold range at h
    split at h
    · cases h
    · next lowText highText hcut =>
      obtain ⟨hlowText, hhighText⟩ := subset_of_cutFirst hcut
      obtain ⟨low', hlow, h⟩ := exists_of_bind_eq_ok h
      obtain ⟨high', hhigh, h⟩ := exists_of_bind_eq_ok h
      split at h
      · cases h
      · obtain ⟨rfl, rfl⟩ := Prod.mk.inj (Except.ok.inj h)
        exact ⟨lowText, highText, (Text.cutFirst_eq_some_iff.mp hcut).2,
          (int64?_eq_some_iff hvalue hlowText).mp (number_eq_ok_iff.mp hlow),
          (int64?_eq_some_iff hvalue hhighText).mp (number_eq_ok_iff.mp hhigh), horder⟩
  · rintro ⟨lowText, highText, rfl, hlow, hhigh, horder⟩
    -- a numeral has no semicolon, so the text is cut where the grammar cuts it
    have hfree : ';' ∉ lowText := by
      intro hmem
      have hdigit := hlow.digits ';' hmem
      exact absurd hdigit (by decide)
    have hcut := Text.cutFirst_append_cons hfree highText
    obtain ⟨hlowText, hhighText⟩ := subset_of_cutFirst hcut
    have hlow' : number "JOB" lowText = .ok low :=
      number_eq_ok_iff.mpr ((int64?_eq_some_iff hvalue hlowText).mpr hlow)
    have hhigh' : number "JOB" highText = .ok high :=
      number_eq_ok_iff.mpr ((int64?_eq_some_iff hvalue hhighText).mpr hhigh)
    unfold range
    rw [hcut]
    simp only [hlow', hhigh']
    exact if_neg (Int64.not_lt.mpr horder)

/-- For the keys of numbers, what can be read is what the decoder of numbers takes. -/
theorem isReadable_number_iff {key : String} (hkey : key ∈ ["ID", "TIMESTAMP", "DIFFICULTY"])
    {value : List Char} (hvalue : IsValue value) :
    IsReadable key value ↔ ∃ n, Decimal.int64? value = some n := by
  constructor
  · intro h
    obtain ⟨n, hn⟩ := h.number hkey
    exact ⟨n, (int64?_eq_some_iff hvalue (List.Subset.refl _)).mpr hn⟩
  · rintro ⟨n, hn⟩
    refine ⟨fun _ => ⟨n, (int64?_eq_some_iff hvalue (List.Subset.refl _)).mp hn⟩, ?_⟩
    rintro rfl
    simp at hkey

theorem eq_ok_iff_toOption {α : Type} {x : Except TemplateError α} {a : α} :
    x = .ok a ↔ x.toOption = some a := by
  cases x with
  | error fault => exact ⟨nofun, nofun⟩
  | ok b => exact ⟨fun h => congrArg some (Except.ok.inj h), fun h => congrArg _ (Option.some.inj h)⟩

/-- For the key of the range, it is what the reader of ranges takes. -/
theorem isReadable_range_iff {value : List Char} (hvalue : IsValue value) :
    IsReadable "JOB" value ↔ ∃ bounds, (range value).toOption = some bounds := by
  constructor
  · intro h
    obtain ⟨low, high, hrange⟩ := h.range rfl
    rw [(range_eq_ok_iff hvalue).mpr hrange]
    exact ⟨(low, high), rfl⟩
  · rintro ⟨⟨low, high⟩, hbounds⟩
    refine ⟨fun hkey => ?_, fun _ => ⟨low, high, (range_eq_ok_iff hvalue).mp ?_⟩⟩
    · simp at hkey
    · exact eq_ok_iff_toOption.mpr hbounds

theorem isReadable_of_notMem {key : String} (h : key ∉ ["ID", "TIMESTAMP", "DIFFICULTY", "JOB"])
    (value : List Char) : IsReadable key value := by
  constructor
  · intro hkey
    exact absurd (List.mem_append_left ["JOB"] hkey) h
  · rintro rfl
    simp at h

/-! ## Drafts -/

/-- The keys that a header is read from. -/
def keys : List String :=
  ["ID", "TIMESTAMP", "METHOD", "INDICATION", "DIFFICULTY", "JOB", "KEY"]

/-- The draft in which each field is read from what was noted last for its key. Every draft that
    is made on the way from a packet to a header is one of these. -/
def draftOf (look : String → Option (List Char)) : Draft where
  height := (look "ID").bind Decimal.int64?
  timestamp := (look "TIMESTAMP").bind Decimal.int64?
  method := (look "METHOD").map String.ofList
  indication := (look "INDICATION").map String.ofList
  difficulty := (look "DIFFICULTY").bind Decimal.int64?
  range := (look "JOB").bind fun value => (range value).toOption
  password := (look "KEY").map fun value => Bytes.ofString (String.ofList value)

theorem draftOf_congr {look look' : String → Option (List Char)}
    (h : ∀ key ∈ keys, look key = look' key) : draftOf look = draftOf look' := by
  simp only [keys, List.forall_mem_cons] at h
  obtain ⟨hid, htime, hmethod, hindication, hdifficulty, hjob, hkey, -⟩ := h
  simp only [draftOf, hid, htime, hmethod, hindication, hdifficulty, hjob, hkey]

/-- A step that reads one field of a draft succeeds if the field can be read. -/
theorem put_eq_ok_iff {α : Type} {x : Except TemplateError α} {read : Option α}
    (hread : ∀ a, x = .ok a ↔ read = some a) {put : α → Draft} {whole d : Draft}
    (hput : ∀ a, read = some a → put a = whole) :
    (x >>= fun a => pure (put a)) = .ok d ↔ (∃ a, read = some a) ∧ d = whole := by
  constructor
  · intro h
    obtain ⟨a, hx, heq⟩ := exists_of_bind_eq_ok h
    have ha := (hread a).mp hx
    exact ⟨⟨a, ha⟩, (Except.ok.inj heq).symm.trans (hput a ha)⟩
  · rintro ⟨⟨a, ha⟩, rfl⟩
    rw [(hread a).mpr ha, ← hput a ha]
    rfl

theorem ok_eq_ok_iff {d d' whole : Draft} {readable : Prop} (hreadable : readable)
    (hput : d' = whole) :
    (Except.ok d' : Except TemplateError Draft) = .ok d ↔ readable ∧ d = whole := by
  rw [Except.ok.injEq, hput]
  exact ⟨fun h => ⟨hreadable, h.symm⟩, fun h => h.2.symm⟩

variable {look : String → Option (List Char)} {value : List Char}

/-- A pair is taken if its value can be read, and its value is noted for its key. -/
theorem take_eq_ok_iff {key : List Char} (hvalue : IsValue value) {d : Draft} :
    (draftOf look).take key value = .ok d ↔
      IsReadable (String.ofList key) value ∧
        d = draftOf (Function.update look (String.ofList key) (some value)) := by
  unfold Draft.take
  -- the keys of numbers, of texts and of the range, and then all other keys
  split
  case h_1 hkey | h_2 hkey | h_5 hkey =>
    rw [hkey, isReadable_number_iff (by decide) hvalue]
    apply put_eq_ok_iff fun _ => number_eq_ok_iff
    intro n hn
    simp only [draftOf, Function.update_apply, String.reduceEq, if_true, if_false,
      Option.bind_some, hn]
  case h_3 hkey | h_4 hkey | h_7 hkey =>
    rw [hkey]
    apply ok_eq_ok_iff (isReadable_of_notMem (by decide) value)
    simp only [draftOf, Function.update_apply, String.reduceEq, if_true, if_false,
      Option.map_some]
  case h_6 hkey =>
    rw [hkey, isReadable_range_iff hvalue]
    apply put_eq_ok_iff fun _ => eq_ok_iff_toOption
    intro bounds hbounds
    simp only [draftOf, Function.update_apply, String.reduceEq, if_true, if_false,
      Option.bind_some, hbounds]
  case h_8 hid htime hmethod hindication hdifficulty hjob hkey =>
    apply ok_eq_ok_iff
    · apply isReadable_of_notMem
      simp only [List.mem_cons, List.not_mem_nil, or_false, not_or]
      exact ⟨hid, htime, hdifficulty, hjob⟩
    · -- no field is read from what is noted for this key
      have hother : String.ofList key ∉ keys := by
        simp only [keys, List.mem_cons, List.not_mem_nil, or_false, not_or]
        exact ⟨hid, htime, hmethod, hindication, hdifficulty, hjob, hkey⟩
      apply draftOf_congr
      intro key' hkey'
      rw [Function.update_of_ne]
      rintro rfl
      exact hother hkey'

end SoloMiner.BlockHeader
