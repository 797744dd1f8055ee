import Mathlib.Logic.Relation
import SoloMiner.Proofs.Job.HeaderFields

/-! # The grammar of headers

    Which packets are headers, and what each of them says. The form of a packet is told without
    its reader: the lead, a bar, and fields with ampersands between them, each of which may or
    may not be a pair that counts.

    Reading is followed field by field. Each field that is taken either notes a value for its
    key or changes nothing, so what is noted in the end is the value of the last pair. -/

namespace SoloMiner.BlockHeader

variable {look look' : String → Option (List Char)} {fs fs' fs'' : List (List Char)} {f : List Char}
  {key : String} {value : List Char}

/-! ## Fields taken in order -/

/-- What is noted after one more field. A pair replaces what was noted for its key, and what is
    no pair is passed over. -/
def note (look : String → Option (List Char)) (f : List Char) : String → Option (List Char) :=
  match pair? f with
  | some (key, value) => Function.update look (String.ofList key) (some value)
  | none => look

/-- What is noted after all fields. -/
def noted (fs : List (List Char)) : String → Option (List Char) := fs.foldl note fun _ => none

theorem note_of_isPair (h : IsPair f key value) :
    note look f = Function.update look key (some value) := by
  simp only [note, isPair_iff.mp h, String.ofList_toList]

theorem note_of_not_isPair (h : ∀ key value, ¬IsPair f key value) :
    note look f = look := by
  unfold note
  split
  · next key value hpair => exact absurd (pair?_eq_some_iff.mp hpair) (h _ _)
  · rfl

/-- Every field that is a pair has a value that can be read. This is asked of all pairs, also of
    those that a later one of their key replaces. -/
def AllReadable (fs : List (List Char)) : Prop :=
  ∀ f ∈ fs, ∀ key value, IsPair f key value → IsReadable key value

theorem allReadable_cons :
    AllReadable (f :: fs) ↔ (∀ key value, IsPair f key value → IsReadable key value) ∧
      AllReadable fs := List.forall_mem_cons

/-- The fields are taken if all can be read, and the draft is read from what was noted. -/
theorem takeAll_eq_ok_iff (fs : List (List Char)) {d : Draft} :
    (draftOf look).takeAll (fs.filterMap pair?) = .ok d ↔
      AllReadable fs ∧ d = draftOf (fs.foldl note look) := by
  induction fs generalizing look with
  | nil =>
    have hnil : AllReadable [] := nofun
    simp only [List.filterMap_nil, Draft.takeAll, Except.ok.injEq, hnil, true_and, List.foldl_nil]
    exact eq_comm
  | cons f fs ih =>
    rw [List.foldl_cons, allReadable_cons, and_assoc]
    cases hpair : pair? f with
    | none =>
      -- what is no pair is passed over, and nothing is noted
      have hnot : ∀ key value, ¬IsPair f key value := by
        intro key value h
        rw [isPair_iff, hpair] at h
        cases h
      rw [List.filterMap_cons_none hpair, note_of_not_isPair hnot, ih, iff_and_self]
      intro _ key value h
      exact absurd h (hnot key value)
    | some pair =>
      obtain ⟨key, value⟩ := pair
      have hf := pair?_eq_some_iff.mp hpair
      have hread : (∀ key' value', IsPair f key' value' → IsReadable key' value') ↔
          IsReadable (String.ofList key) value := by
        constructor
        · intro h
          exact h _ _ hf
        · intro h key' value' h'
          obtain ⟨rfl, rfl⟩ := hf.unique h'
          exact h
      -- a pair leaves a draft that the others are taken into
      rw [List.filterMap_cons_some hpair, Draft.takeAll, hread, note_of_isPair hf, ← ih]
      constructor
      · intro h
        split at h
        · next d' htake =>
          obtain ⟨hreadable, rfl⟩ := (take_eq_ok_iff hf.isValue).mp htake
          exact ⟨hreadable, h⟩
        · cases h
      · rintro ⟨hreadable, h⟩
        rw [(take_eq_ok_iff hf.isValue).mpr ⟨hreadable, rfl⟩]
        exact h

/-! ## The last pair of a key -/

/-- The last pair of the key among the fields has this value. Behind it there may be pairs of
    other keys, and fields that are no pairs. -/
def IsLast (fs : List (List Char)) (key : String) (value : List Char) : Prop :=
  ∃ before f after, fs = before ++ f :: after ∧ IsPair f key value ∧
    ∀ g ∈ after, ∀ value', ¬IsPair g key value'

theorem not_isLast_nil (key : String) (value : List Char) : ¬IsLast [] key value := by
  rintro ⟨before, f, after, h, -⟩
  exact absurd h.symm (List.append_ne_nil_of_right_ne_nil _ (List.cons_ne_nil _ _))

/-- With one field more, the last pair of a key is that field, or it is what it was before. -/
theorem isLast_concat :
    IsLast (fs ++ [f]) key value ↔
      IsPair f key value ∨ (∀ value', ¬IsPair f key value') ∧ IsLast fs key value := by
  constructor
  · rintro ⟨before, g, after, hfs, hg, hafter⟩
    -- the last pair is the new field, or else the new field stands behind it
    rcases List.eq_nil_or_concat' after with rfl | ⟨after, f', rfl⟩
    · obtain ⟨-, hfg⟩ := List.append_inj' hfs rfl
      rw [(List.cons.inj hfg).1]
      exact Or.inl hg
    · rw [← List.cons_append, ← List.append_assoc] at hfs
      obtain ⟨rfl, hff⟩ := List.append_inj' hfs rfl
      obtain ⟨rfl, -⟩ := List.cons.inj hff
      refine Or.inr ⟨hafter f (List.mem_append_right _ List.mem_cons_self), before, g, after, rfl,
        hg, ?_⟩
      intro g' hg'
      exact hafter g' (List.mem_append_left _ hg')
  · rintro (hf | ⟨hnot, before, g, after, rfl, hg, hafter⟩)
    · exact ⟨fs, f, [], rfl, hf, nofun⟩
    · refine ⟨before, g, after ++ [f], by rw [List.append_assoc, List.cons_append], hg, ?_⟩
      intro g' hg'
      rcases List.mem_append.mp hg' with hg' | hg'
      · exact hafter g' hg'
      · rw [List.mem_singleton.mp hg']
        exact hnot

/-- What is noted in the end is the value of the last pair. By induction from behind, as a pair
    replaces what was noted before it. -/
theorem noted_eq_some_iff : noted fs key = some value ↔ IsLast fs key value := by
  induction fs using List.reverseRecOn generalizing value with
  | nil => exact ⟨nofun, fun h => absurd h (not_isLast_nil key value)⟩
  | append_singleton fs f ih =>
    rw [noted, List.foldl_concat, ← noted, isLast_concat, ← ih]
    rcases isPair_or_not f with ⟨key', value', hf⟩ | hnot
    · rw [note_of_isPair hf, Function.update_apply]
      -- the field is a pair of this key, or of another, or no pair
      by_cases hkey : key = key'
      · subst hkey
        rw [if_pos rfl]
        constructor
        · intro h
          obtain rfl := Option.some.inj h
          exact Or.inl hf
        · rintro (h | ⟨hnot, -⟩)
          · rw [(hf.unique h).2]
          · exact absurd hf (hnot value')
      · rw [if_neg hkey]
        have hnot (value) : ¬IsPair f key value := fun h => hkey (h.unique hf).1
        simp only [hnot, not_false_eq_true, implies_true, true_and, false_or]
    · rw [note_of_not_isPair hnot]
      simp only [hnot, not_false_eq_true, implies_true, true_and, false_or]

/-- A key has a last pair if it has any. -/
theorem exists_isLast_iff :
    (∃ value, IsLast fs key value) ↔ ∃ f ∈ fs, ∃ value, IsPair f key value := by
  constructor
  · rintro ⟨value, before, f, after, rfl, hf, -⟩
    exact ⟨f, List.mem_append_right _ List.mem_cons_self, value, hf⟩
  · induction fs using List.reverseRecOn with
    | nil => exact nofun
    | append_singleton fs f ih =>
      rintro ⟨g, hg, value, hpair⟩
      by_cases hf : ∃ value', IsPair f key value'
      · obtain ⟨value', hf⟩ := hf
        exact ⟨value', isLast_concat.mpr (Or.inl hf)⟩
      · rw [not_exists] at hf
        rcases List.mem_append.mp hg with hg | hg
        · obtain ⟨value', hlast⟩ := ih ⟨g, hg, value, hpair⟩
          exact ⟨value', isLast_concat.mpr (Or.inr ⟨hf, hlast⟩)⟩
        · rw [List.mem_singleton.mp hg] at hpair
          exact absurd hpair (hf value)

/-! ## What a header says -/

/-- The number that the last pair of the key says, or zero if there is none. -/
def TellsNumber (fs : List (List Char)) (key : String) (n : Int64) : Prop :=
  (∃ value, IsLast fs key value ∧ Decimal.IsNumeral value n) ∨
    (∀ value, ¬IsLast fs key value) ∧ n = 0

/-- Each field of the header is what the last pair of its key says. Time stamp and difficulty may
    be missing, and are zero then. -/
structure Tells (fs : List (List Char)) (h : BlockHeader) : Prop where
  height : ∃ value, IsLast fs "ID" value ∧ Decimal.IsNumeral value h.height
  timestamp : TellsNumber fs "TIMESTAMP" h.timestamp
  method : IsLast fs "METHOD" h.method.toList
  indication : IsLast fs "INDICATION" h.indication.toList
  difficulty : TellsNumber fs "DIFFICULTY" h.difficulty
  range : ∃ value, IsLast fs "JOB" value ∧ IsRange value h.minRange h.maxRange
  password : ∃ value, IsLast fs "KEY" value ∧ h.password = Bytes.ofString (String.ofList value)

theorem IsLast.exists_isPair (h : IsLast fs key value) :
    ∃ f ∈ fs, IsPair f key value := by
  obtain ⟨before, f, after, rfl, hf, -⟩ := h
  exact ⟨f, List.mem_append_right _ List.mem_cons_self, hf⟩

theorem IsLast.isValue (h : IsLast fs key value) : IsValue value := by
  obtain ⟨f, -, hf⟩ := h.exists_isPair
  exact hf.isValue

theorem AllReadable.isReadable (h : AllReadable fs)
    (hlast : IsLast fs key value) : IsReadable key value := by
  obtain ⟨f, hf, hpair⟩ := hlast.exists_isPair
  exact h f hf key value hpair

/-- A draft is finished to a header that has its fields, and the defaults for the time stamp and
    the difficulty. -/
theorem finish_eq_ok_iff {d : Draft} {h : BlockHeader} :
    d.finish = .ok h ↔
      d.height = some h.height ∧ h.timestamp = d.timestamp.getD 0 ∧ d.method = some h.method ∧
        d.indication = some h.indication ∧ h.difficulty = d.difficulty.getD 0 ∧
        d.range = some (h.minRange, h.maxRange) ∧ d.password = some h.password := by
  obtain ⟨height, timestamp, method, indication, difficulty, range, password⟩ := d
  constructor
  · intro hfinish
    -- a header is made only if none of the five fields is missing
    rcases range with _ | ⟨low, high⟩
    · cases hfinish
    rcases height with _ | height
    · cases hfinish
    rcases method with _ | method
    · cases hfinish
    rcases indication with _ | indication
    · cases hfinish
    rcases password with _ | password
    · cases hfinish
    obtain rfl := Except.ok.inj hfinish
    exact ⟨rfl, rfl, rfl, rfl, rfl, rfl, rfl⟩
  · rintro ⟨hheight, htime, hmethod, hindication, hdifficulty, hrange, hpassword⟩
    obtain ⟨height', timestamp', method', indication', difficulty', minRange', maxRange',
      password'⟩ := h
    simp only at hheight htime hmethod hindication hdifficulty hrange hpassword
    subst hheight htime hmethod hindication hdifficulty hrange hpassword
    rfl

/-- A field of a draft that is read from what was noted is read from the last pair. -/
theorem bind_noted {α : Type} {read : List Char → Option α} {a : α} {Form : List Char → Prop}
    (hread : ∀ value, IsValue value → (read value = some a ↔ Form value)) :
    (noted fs key).bind read = some a ↔ ∃ value, IsLast fs key value ∧ Form value := by
  rw [Option.bind_eq_some_iff]
  apply exists_congr
  intro value
  rw [noted_eq_some_iff, and_congr_right_iff]
  intro hlast
  exact hread value hlast.isValue

theorem map_noted {α : Type} {read : List Char → α} {a : α} :
    (noted fs key).map read = some a ↔ ∃ value, IsLast fs key value ∧ a = read value := by
  rw [Option.map_eq_bind]
  apply bind_noted
  intro value _
  rw [Function.comp_apply, Option.some.injEq, eq_comm]

/-- Of readable fields, the number for a key is that of its last pair, or zero without one. -/
theorem getD_int64?_noted (hreadable : AllReadable fs)
    (hkey : key ∈ ["ID", "TIMESTAMP", "DIFFICULTY"]) {n : Int64} :
    n = ((noted fs key).bind Decimal.int64?).getD 0 ↔ TellsNumber fs key n := by
  cases hnoted : noted fs key with
  -- no pair of this key, and the default stands
  | none =>
    have hnot (value : List Char) : ¬IsLast fs key value := by
      intro hlast
      rw [← noted_eq_some_iff, hnoted] at hlast
      cases hlast
    simp only [TellsNumber, hnot, false_and, exists_false, false_or, not_false_eq_true,
      implies_true, true_and]
    exact Iff.rfl
  -- its last pair, which can be read
  | some value =>
    have hlast := noted_eq_some_iff.mp hnoted
    obtain ⟨m, hm⟩ := (hreadable.isReadable hlast).number hkey
    have hread := (int64?_eq_some_iff hlast.isValue (List.Subset.refl _)).mpr hm
    rw [Option.bind_some, hread, Option.getD_some]
    constructor
    · rintro rfl
      exact Or.inl ⟨value, hlast, hm⟩
    · rintro (⟨value', hlast', hn⟩ | ⟨hnot, -⟩)
      · rw [← noted_eq_some_iff, hnoted] at hlast'
        obtain rfl := Option.some.inj hlast'
        rw [← int64?_eq_some_iff hlast.isValue (List.Subset.refl _), hread] at hn
        exact (Option.some.inj hn).symm
      · exact absurd hlast (hnot value)

/-- The draft of readable fields is finished to what the fields tell. -/
theorem finish_draftOf_noted (hreadable : AllReadable fs) {h : BlockHeader} :
    (draftOf (noted fs)).finish = .ok h ↔ Tells fs h := by
  have htext (key : String) (text : String) :
      (noted fs key).map String.ofList = some text ↔ IsLast fs key text.toList := by
    rw [map_noted]
    constructor
    · rintro ⟨value, hlast, rfl⟩
      rwa [String.toList_ofList]
    · intro hlast
      exact ⟨text.toList, hlast, String.ofList_toList.symm⟩
  have hnumber (value : List Char) (hvalue : IsValue value) :
      Decimal.int64? value = some h.height ↔ Decimal.IsNumeral value h.height :=
    int64?_eq_some_iff hvalue (List.Subset.refl _)
  have hrange (value : List Char) (hvalue : IsValue value) :
      (range value).toOption = some (h.minRange, h.maxRange) ↔
        IsRange value h.minRange h.maxRange := by
    rw [← eq_ok_iff_toOption, range_eq_ok_iff hvalue]
  -- field by field, the draft has what the last pair of the key says
  rw [finish_eq_ok_iff]
  simp only [draftOf]
  rw [bind_noted hnumber, getD_int64?_noted hreadable (by decide), htext, htext,
    getD_int64?_noted hreadable (by decide), bind_noted hrange, map_noted]
  constructor
  · rintro ⟨hheight, htime, hmethod, hindication, hdifficulty, hrange, hpassword⟩
    exact ⟨hheight, htime, hmethod, hindication, hdifficulty, hrange, hpassword⟩
  · intro htells
    exact ⟨htells.height, htells.timestamp, htells.method, htells.indication, htells.difficulty,
      htells.range, htells.password⟩

/-- The keys without which there is no header. -/
def requiredKeys : List String := ["ID", "METHOD", "INDICATION", "JOB", "KEY"]

/-- Readable fields tell a header if no required key is missing. -/
theorem exists_tells_iff (hreadable : AllReadable fs) :
    (∃ h, Tells fs h) ↔ ∀ key ∈ requiredKeys, ∃ f ∈ fs, ∃ value, IsPair f key value := by
  simp only [requiredKeys, List.forall_mem_cons, ← exists_isLast_iff]
  constructor
  · rintro ⟨h, htells⟩
    obtain ⟨id, hid, -⟩ := htells.height
    obtain ⟨job, hjob, -⟩ := htells.range
    obtain ⟨key, hkey, -⟩ := htells.password
    exact ⟨⟨id, hid⟩, ⟨_, htells.method⟩, ⟨_, htells.indication⟩, ⟨job, hjob⟩, ⟨key, hkey⟩, nofun⟩
  · rintro ⟨⟨id, hid⟩, ⟨method, hmethod⟩, ⟨indication, hindication⟩, ⟨job, hjob⟩, ⟨key, hkey⟩, -⟩
    obtain ⟨height, hheight⟩ := (hreadable.isReadable hid).number (by decide)
    obtain ⟨low, high, hrange⟩ := (hreadable.isReadable hjob).range rfl
    let number (key : String) : Int64 := ((noted fs key).bind Decimal.int64?).getD 0
    refine ⟨{
      height, minRange := low, maxRange := high
      timestamp := number "TIMESTAMP"
      method := String.ofList method
      indication := String.ofList indication
      difficulty := number "DIFFICULTY"
      password := Bytes.ofString (String.ofList key) }, ⟨id, hid, hheight⟩, ?_, ?_, ?_, ?_,
      ⟨job, hjob, hrange⟩, ⟨key, hkey, rfl⟩⟩
    · exact (getD_int64?_noted hreadable (by decide)).mp rfl
    · rwa [String.toList_ofList]
    · rwa [String.toList_ofList]
    · exact (getD_int64?_noted hreadable (by decide)).mp rfl

/-! ## Packets -/

/-- The lead, a bar, and the fields with ampersands between them. -/
def packetOf (fs : List (List Char)) : Bytes :=
  Bytes.ofString (String.ofList (lead.toList ++ '|' :: ['&'].intercalate fs))

/-- None of the texts has an ampersand in it, so that they are found again when they stand in a
    packet. -/
def AreFields (fs : List (List Char)) : Prop := ∀ f ∈ fs, '&' ∉ f

instance (fs : List (List Char)) : Decidable (AreFields fs) :=
  inferInstanceAs (Decidable (∀ f ∈ fs, '&' ∉ f))

/-- A packet has a body if it is text that begins with the lead and a bar. -/
theorem body?_eq_ok_iff {lead : String} {packet : Bytes} {body : List Char} :
    body? lead packet = .ok body ↔
      packet = Bytes.ofString (String.ofList (lead.toList ++ '|' :: body)) := by
  constructor
  · intro h
    unfold body? at h
    split at h
    · cases h
    · next text htext =>
      split at h
      · cases h
      · next rest hrest =>
        obtain rfl := Except.ok.inj h
        rw [List.isPrefixOf?_eq_some_iff_append_eq, List.append_assoc] at hrest
        rw [Bytes.text?_eq_some_iff.mp htext, ← String.ofList_toList (s := text), ← hrest]
        rfl
  · rintro rfl
    have hrest : (lead.toList ++ ['|']).isPrefixOf? (lead.toList ++ '|' :: body) = some body := by
      rw [List.isPrefixOf?_eq_some_iff_append_eq, List.append_assoc]
      rfl
    unfold body?
    rw [Bytes.text?_ofString]
    simp only [String.toList_ofList, hrest]

theorem body?_packetOf (fs : List (List Char)) :
    body? lead (packetOf fs) = .ok (['&'].intercalate fs) := body?_eq_ok_iff.mpr rfl

theorem filterMap_fields_intercalate (hfs : AreFields fs) :
    (Text.fields '&' (['&'].intercalate fs)).filterMap pair? = fs.filterMap pair? := by
  cases fs with
  | nil => rfl
  | cons f fs => rw [Text.fields_intercalate (List.cons_ne_nil f fs) hfs]

/-- Fields are parsed to a header if all can be read, and to the one they tell. -/
theorem parse_packetOf (hfs : AreFields fs) {h : BlockHeader} :
    parse (packetOf fs) = .ok h ↔ AllReadable fs ∧ Tells fs h := by
  have hpairs : pairs (['&'].intercalate fs) = fs.filterMap pair? := by
    rw [pairs_eq, filterMap_fields_intercalate hfs]
  have hparse : parse (packetOf fs) =
      (Draft.takeAll (draftOf fun _ => none) (fs.filterMap pair?) >>= Draft.finish) := by
    rw [parse, body?_packetOf, ← hpairs]
    rfl
  rw [hparse]
  constructor
  · intro h
    obtain ⟨d, htake, hfinish⟩ := exists_of_bind_eq_ok h
    obtain ⟨hreadable, rfl⟩ := (takeAll_eq_ok_iff fs).mp htake
    exact ⟨hreadable, (finish_draftOf_noted hreadable).mp hfinish⟩
  · rintro ⟨hreadable, htells⟩
    rw [(takeAll_eq_ok_iff fs).mpr ⟨hreadable, rfl⟩]
    exact (finish_draftOf_noted hreadable).mpr htells

theorem exists_fields_of_parse {packet : Bytes} {h : BlockHeader} (hparse : parse packet = .ok h) :
    ∃ fs, AreFields fs ∧ packet = packetOf fs := by
  obtain ⟨body, hbody, -⟩ := exists_of_bind_eq_ok hparse
  refine ⟨Text.fields '&' body, fun f hf => Text.notMem_of_mem_fields hf, ?_⟩
  rw [packetOf, Text.intercalate_fields]
  exact body?_eq_ok_iff.mp hbody

/-! ## Edits -/

/-- The two fields are not pairs of one key. -/
def Apart (f g : List Char) : Prop :=
  ∀ key value value', IsPair f key value → ¬IsPair g key value'

theorem Apart.symm {g : List Char} (h : Apart f g) : Apart g f :=
  fun key value value' hg hf => h key value' value hf hg

/-- Changes of a packet that do not matter. -/
inductive Edit : List (List Char) → List (List Char) → Prop where
  /-- Two neighbours that are not pairs of one key change places. -/
  | swap (before after : List (List Char)) {f g : List Char} (h : Apart f g) :
      Edit (before ++ f :: g :: after) (before ++ g :: f :: after)
  /-- A field comes in that is no pair, or one of a key that no header is read from. -/
  | insert (before after : List (List Char)) {f : List Char}
      (h : ∀ key value, IsPair f key value → key ∉ keys) :
      Edit (before ++ after) (before ++ f :: after)
  /-- A text that does not start with a value character comes in behind a value. -/
  | extend (before after : List (List Char)) {f tail : List Char} (heq : '=' ∈ f)
      (htail : ∀ c ∈ tail.head?, isValueChar c = false) :
      Edit (before ++ f :: after) (before ++ (f ++ tail) :: after)

/-- The fields of a packet. -/
def someFields : List (List Char) :=
  ["ID=1".toList, "METHOD=m".toList, "INDICATION=i".toList, "JOB=2;5".toList, "KEY=k".toList]

/-- The same with two fields in each other's place, a pair of a new key and a blank. -/
def editedFields : List (List Char) :=
  ["METHOD=m ".toList, "NEW=9".toList, "ID=1".toList, "INDICATION=i".toList, "JOB=2;5".toList,
    "KEY=k".toList]

theorem edits_small : Relation.EqvGen Edit someFields editedFields := by
  have hid : IsPair "ID=1".toList "ID" ['1'] := isPair_iff.mpr rfl
  have hnew : IsPair "NEW=9".toList "NEW" ['9'] := isPair_iff.mpr rfl
  have hmethod : IsPair "METHOD=m".toList "METHOD" ['m'] := isPair_iff.mpr rfl
  let rest := ["INDICATION=i".toList, "JOB=2;5".toList, "KEY=k".toList]
  have hswap : Edit someFields ("METHOD=m".toList :: "ID=1".toList :: rest) := by
    apply Edit.swap []
    intro key value value' h h'
    exact absurd ((h.unique hid).1.symm.trans (h'.unique hmethod).1) (by decide)
  have hinsert : Edit ("METHOD=m".toList :: "ID=1".toList :: rest)
      ("METHOD=m".toList :: "NEW=9".toList :: "ID=1".toList :: rest) := by
    apply Edit.insert ["METHOD=m".toList] ("ID=1".toList :: rest)
    intro key value h
    rw [(h.unique hnew).1]
    decide
  have hextend : Edit ("METHOD=m".toList :: "NEW=9".toList :: "ID=1".toList :: rest)
      editedFields := by
    have htail : ∀ c ∈ [' '].head?, isValueChar c = false := by
      rintro c ⟨⟩
      rfl
    exact Edit.extend [] ("NEW=9".toList :: "ID=1".toList :: rest) hmethod.mem htail
  exact ((Relation.EqvGen.rel _ _ hswap).trans _ _ _ (.rel _ _ hinsert)).trans _ _ _
    (.rel _ _ hextend)

/-- Edits behind a field are edits. -/
theorem edits_cons (f : List Char) (h : Relation.EqvGen Edit fs fs') :
    Relation.EqvGen Edit (f :: fs) (f :: fs') := by
  induction h with
  | rel fs fs' h =>
    apply Relation.EqvGen.rel
    cases h with
    | swap before after h => exact .swap (f :: before) after h
    | insert before after h => exact .insert (f :: before) after h
    | extend before after heq htail => exact .extend (f :: before) after heq htail
  | refl fs => exact .refl _
  | symm fs fs' _ ih => exact ih.symm
  | trans fs fs' fs'' _ _ ih ih' => exact ih.trans _ _ _ ih'

/-- Fields of which no two are pairs of one key may stand in any order. -/
theorem edits_of_perm (h : fs.Perm fs') (hapart : fs.Pairwise Apart) :
    Relation.EqvGen Edit fs fs' := by
  induction h with
  | nil => exact .refl _
  | cons f _ ih => exact edits_cons f (ih (List.pairwise_cons.mp hapart).2)
  | swap f g fs =>
    have hfg : Apart g f := (List.pairwise_cons.mp hapart).1 f List.mem_cons_self
    exact .rel _ _ (.swap [] fs hfg)
  | trans h _ ih ih' =>
    have hapart' := hapart.perm h fun hfg => hfg.symm
    exact (ih hapart).trans _ _ _ (ih' hapart')

/-- The same fields can be read, and they leave the same values for the keys of a header. So two
    packets that are alike tell the same header, or neither tells one. -/
structure Alike (fs fs' : List (List Char)) : Prop where
  readable : AllReadable fs ↔ AllReadable fs'
  noted : ∀ key ∈ keys, noted fs key = noted fs' key

theorem Alike.symm (h : Alike fs fs') : Alike fs' fs :=
  ⟨h.readable.symm, fun key hkey => (h.noted key hkey).symm⟩

theorem Alike.trans (h : Alike fs fs') (h' : Alike fs' fs'') : Alike fs fs'' :=
  ⟨h.readable.trans h'.readable, fun key hkey => (h.noted key hkey).trans (h'.noted key hkey)⟩

theorem note_congr (h : ∀ key ∈ keys, look key = look' key)
    (f : List Char) : ∀ key ∈ keys, note look f key = note look' f key := by
  intro key hkey
  rcases isPair_or_not f with ⟨key', value', hf⟩ | hnot
  · rw [note_of_isPair hf, note_of_isPair hf, Function.update_apply, Function.update_apply,
      h key hkey]
  · rw [note_of_not_isPair hnot, note_of_not_isPair hnot, h key hkey]

theorem foldl_note_congr (h : ∀ key ∈ keys, look key = look' key) (fs : List (List Char)) :
    ∀ key ∈ keys, fs.foldl note look key = fs.foldl note look' key := by
  induction fs generalizing look look' with
  | nil => exact h
  | cons f fs ih => exact ih (note_congr h f)

/-- Fields that leave the same values are alike among any others. -/
theorem alike_append (before mid mid' after : List (List Char))
    (hreadable : AllReadable mid ↔ AllReadable mid')
    (hnoted : ∀ look, ∀ key ∈ keys, mid.foldl note look key = mid'.foldl note look key) :
    Alike (before ++ (mid ++ after)) (before ++ (mid' ++ after)) := by
  -- readable are the same ones, in front, between and behind
  constructor
  · simp only [AllReadable, List.forall_mem_append] at hreadable ⊢
    rw [hreadable]
  · -- both start from what is noted in front, and what stands behind adds the same to both
    intro key hkey
    simp only [BlockHeader.noted, List.foldl_append]
    exact foldl_note_congr (hnoted _) after key hkey

/-- Two pairs of different keys are noted in either order. -/
theorem note_comm {g : List Char} (h : Apart f g) :
    note (note look f) g = note (note look g) f := by
  rcases isPair_or_not f with ⟨key, value, hf⟩ | hf
  · rcases isPair_or_not g with ⟨key', value', hg⟩ | hg
    · have hne : key ≠ key' := by
        rintro rfl
        exact h key value value' hf hg
      rw [note_of_isPair hf, note_of_isPair hg, note_of_isPair hg, note_of_isPair hf,
        Function.update_comm hne]
    · rw [note_of_not_isPair hg, note_of_not_isPair hg]
  · rw [note_of_not_isPair hf, note_of_not_isPair hf]

/-- Of a key that the header does not have, any value is taken. -/
theorem isReadable_of_notMem_keys (h : key ∉ keys) (value : List Char) :
    IsReadable key value := by
  apply isReadable_of_notMem
  intro hmem
  simp only [List.mem_cons, List.not_mem_nil, or_false] at hmem
  rcases hmem with rfl | rfl | rfl | rfl
  · exact h (by decide)
  · exact h (by decide)
  · exact h (by decide)
  · exact h (by decide)

/-- Neither kind of edit changes what can be read and what is noted. -/
theorem Edit.alike (h : Edit fs fs') : Alike fs fs' := by
  cases h with
  -- two fields that are not pairs of one key
  | @swap before after f g h =>
    apply alike_append before [f, g] [g, f] after
    · simp only [allReadable_cons]
      exact and_left_comm
    · intro look key _
      exact congrFun (note_comm h) key
  -- a field that is no pair, or one of an unknown key
  | @insert before after f h =>
    apply alike_append before [] [f] after
    · rw [allReadable_cons, iff_and_self]
      intro _ key value hf
      exact isReadable_of_notMem_keys (h key value hf) value
    · intro look key hkey
      rcases isPair_or_not f with ⟨key', value, hf⟩ | hnot
      · show look key = note look f key
        rw [note_of_isPair hf, Function.update_of_ne]
        rintro rfl
        exact h key value hf hkey
      · show look key = note look f key
        rw [note_of_not_isPair hnot]
  -- text behind a value
  | @extend before after f tail heq htail =>
    have hpair := pair?_append heq htail
    apply alike_append before [f] [f ++ tail] after
    · have hsame (key : String) (value : List Char) :
          IsPair (f ++ tail) key value ↔ IsPair f key value := by
        rw [isPair_iff, isPair_iff, hpair]
      simp only [allReadable_cons, hsame]
    · intro look key _
      show note look f key = note look (f ++ tail) key
      rw [note, note, hpair]

theorem alike_of_edits (h : Relation.EqvGen Edit fs fs') : Alike fs fs' := by
  induction h with
  | rel fs fs' h => exact h.alike
  | refl fs => exact ⟨Iff.rfl, fun _ _ => rfl⟩
  | symm fs fs' _ ih => exact ih.symm
  | trans fs fs' fs'' _ _ ih ih' => exact ih.trans ih'

theorem Alike.tells_iff (h : Alike fs fs') (hreadable : AllReadable fs) {header : BlockHeader} :
    Tells fs header ↔ Tells fs' header := by
  rw [← finish_draftOf_noted hreadable, ← finish_draftOf_noted (h.readable.mp hreadable),
    draftOf_congr h.noted]

/-- Fields before and after edits are parsed to the same header, or both to none. -/
theorem parse_of_edits (hfs : AreFields fs) (hfs' : AreFields fs')
    (hedits : Relation.EqvGen Edit fs fs') {h : BlockHeader} :
    parse (packetOf fs) = .ok h ↔ parse (packetOf fs') = .ok h := by
  have halike := alike_of_edits hedits
  rw [parse_packetOf hfs, parse_packetOf hfs']
  constructor
  · rintro ⟨hreadable, htells⟩
    exact ⟨halike.readable.mp hreadable, (halike.tells_iff hreadable).mp htells⟩
  · rintro ⟨hreadable, htells⟩
    exact ⟨halike.readable.mpr hreadable, (halike.symm.tells_iff hreadable).mp htells⟩

/-! ## The grammar -/

/-- A packet is a header if it is the lead and fields, all pairs among them can be read and
    no required key is missing. What the header says is what the last pair of each key says. Other
    pairs, what stands behind values, and the order of pairs of different keys do not
    matter, and if no two pairs have one key their order does not matter at all. -/
theorem parse_grammar :
    (∀ packet, (∃ h, parse packet = .ok h) ↔
      ∃ fs, AreFields fs ∧ packet = packetOf fs ∧ AllReadable fs ∧
        ∀ key ∈ requiredKeys, ∃ f ∈ fs, ∃ value, IsPair f key value) ∧
    (∀ fs h, AreFields fs → parse (packetOf fs) = .ok h → Tells fs h) ∧
    (∀ fs fs' h h', AreFields fs → AreFields fs' →
      parse (packetOf fs) = .ok h → parse (packetOf fs') = .ok h' →
      (∀ key ∈ keys, ∀ value, IsLast fs key value ↔ IsLast fs' key value) → h = h') ∧
    (∀ fs fs', AreFields fs → AreFields fs' → Relation.EqvGen Edit fs fs' →
      ∀ h, parse (packetOf fs) = .ok h ↔ parse (packetOf fs') = .ok h) ∧
    ∀ fs fs', AreFields fs → fs.Perm fs' → fs.Pairwise Apart →
      ∀ h, parse (packetOf fs) = .ok h ↔ parse (packetOf fs') = .ok h := by
  refine ⟨?_, ?_, ?_, ?_, ?_⟩
  · intro packet
    constructor
    · rintro ⟨h, hparse⟩
      obtain ⟨fs, hfs, rfl⟩ := exists_fields_of_parse hparse
      obtain ⟨hreadable, htells⟩ := (parse_packetOf hfs).mp hparse
      exact ⟨fs, hfs, rfl, hreadable, (exists_tells_iff hreadable).mp ⟨h, htells⟩⟩
    · rintro ⟨fs, hfs, rfl, hreadable, hrequired⟩
      obtain ⟨h, htells⟩ := (exists_tells_iff hreadable).mpr hrequired
      exact ⟨h, (parse_packetOf hfs).mpr ⟨hreadable, htells⟩⟩
  · intro fs h hfs hparse
    exact ((parse_packetOf hfs).mp hparse).2
  · intro fs fs' h h' hfs hfs' hparse hparse' hlast
    obtain ⟨hreadable, htells⟩ := (parse_packetOf hfs).mp hparse
    obtain ⟨hreadable', htells'⟩ := (parse_packetOf hfs').mp hparse'
    have hnoted : ∀ key ∈ keys, noted fs key = noted fs' key := by
      intro key hkey
      apply Option.ext
      intro value
      rw [noted_eq_some_iff, noted_eq_some_iff]
      exact hlast key hkey value
    rw [← finish_draftOf_noted hreadable, draftOf_congr hnoted] at htells
    rw [← finish_draftOf_noted hreadable', htells] at htells'
    exact Except.ok.inj htells'
  · intro fs fs' hfs hfs' hedits h
    exact parse_of_edits hfs hfs' hedits
  · intro fs fs' hfs hperm hapart h
    have hfs' : AreFields fs' := fun f hf => hfs f (hperm.mem_iff.mpr hf)
    exact parse_of_edits hfs hfs' (edits_of_perm hperm hapart)

/-- A packet and an edited one with the same header. -/
theorem parse_grammar_small :
    Relation.EqvGen Edit someFields editedFields ∧
      parse (packetOf someFields) = .ok ⟨1, 0, "m", "i", 0, 2, 5, [107]⟩ ∧
      parse (packetOf editedFields) = .ok ⟨1, 0, "m", "i", 0, 2, 5, [107]⟩ := by
  have hfirst : parse (packetOf someFields) = .ok ⟨1, 0, "m", "i", 0, 2, 5, [107]⟩ := by rfl
  have hedits := edits_small
  have hfields : AreFields someFields := by decide
  have hfields' : AreFields editedFields := by decide
  exact ⟨hedits, hfirst, (parse_grammar.2.2.2.1 _ _ hfields hfields' hedits _).mp hfirst⟩

end SoloMiner.BlockHeader
