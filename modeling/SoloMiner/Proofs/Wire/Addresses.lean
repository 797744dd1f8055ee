import SoloMiner.Proofs.Text.Fields
import SoloMiner.Proofs.Text.Trimming
import SoloMiner.Wire.Endpoint

/-! # Addresses

    What the reader of addresses takes an address for. White space around it, a scheme and closing
    slashes mean nothing. What is left is a host, alone or with a number behind a colon, and the
    host may be in brackets: these are the forms of an address.

    The reader takes every address of these forms, and nothing that is left of it is ignored. But
    it takes two other things. Behind a closing bracket any text is passed over that does not
    begin with a colon. And a host without brackets is not searched for colons, since the number
    is taken to stand behind the last of them. -/

namespace SoloMiner.Endpoint

variable {url rest text host : List Char} {number : Option (List Char)}

/-! ## What is left of an address -/

/-- `rest` is `body` without everything up to its first scheme mark, if it has one. -/
def DropsScheme (body rest : List Char) : Prop :=
  Text.IsBehindFirst "://".toList body rest ∨
    ((∀ front behind, body ≠ front ++ "://".toList ++ behind) ∧ rest = body)

/-- `rest` is left of `url` without white space around it, scheme and closing slashes. There may
    be any number of slashes, and a slash that is not at the end stays. -/
def IsCore (url rest : List Char) : Prop :=
  ∃ body slashes, Text.IsTrimmed url body ∧ DropsScheme body (rest ++ slashes) ∧
    (∀ c ∈ slashes, c = '/') ∧ rest.getLast? ≠ some '/'

/-- The scheme is cut off as the grammar has it: behind the first mark, or not at all where there
    is no mark. -/
theorem dropsScheme_iff {body : List Char} :
    (Text.afterFirst "://".toList body).getD body = rest ↔ DropsScheme body rest := by
  have hmark : "://".toList ≠ [] := by decide
  unfold DropsScheme
  rw [← Text.afterFirst_eq_some_iff hmark, ← Text.afterFirst_eq_none_iff hmark]
  cases Text.afterFirst "://".toList body with
  | none => simp [eq_comm]
  | some behind => simp

/-- What the reader is left with is what the grammar leaves: the text without white space around
    it, without its scheme and without the slashes at its end. -/
theorem core_eq_iff : core url = rest ↔ IsCore url rest := by
  unfold core
  rw [Text.trimEndWhile_eq_iff]
  constructor
  · -- from the reader to the grammar: the slashes are what is trimmed off at the end
    rintro ⟨⟨slashes, hbare, hslashes⟩, hlast⟩
    refine ⟨Text.trim url, slashes, Text.trim_eq_iff.mp rfl, dropsScheme_iff.mp hbare, ?_, ?_⟩
    · intro c hc
      exact eq_of_beq (hslashes c hc)
    · intro h
      have hslash := hlast '/' h
      exact absurd hslash (by decide)
  · -- from the grammar to the reader: no slash is left at the end, so no more is trimmed off
    rintro ⟨body, slashes, htrim, hscheme, hslashes, hlast⟩
    rw [Text.trim_eq_iff.mpr htrim]
    refine ⟨⟨slashes, dropsScheme_iff.mpr hscheme, ?_⟩, ?_⟩
    · intro c hc
      exact beq_iff_eq.mpr (hslashes c hc)
    · intro c hc
      apply beq_false_of_ne
      rintro rfl
      exact hlast hc

/-! ## Forms -/

/-- `text` is a host, or a host and a number, in one of the four forms of an address. Only in
    square brackets may a host have colons. -/
inductive Spells (host : List Char) : Option (List Char) → List Char → Prop where
  | bare : ':' ∉ host → Spells host none host
  | numbered (number : List Char) : ':' ∉ host → Spells host (some number) (host ++ ':' :: number)
  | bracketed : Spells host none ('[' :: host ++ [']'])
  | bracketedNumbered (number : List Char) :
      Spells host (some number) ('[' :: host ++ ']' :: ':' :: number)

/-- `text` is read as a host and a number, or as a host alone. -/
inductive Reads (host : List Char) : Option (List Char) → List Char → Prop where
  | bare : host.head? ≠ some '[' → ':' ∉ host → Reads host none host
  /-- The last colon counts. -/
  | numbered (number : List Char) : host.head? ≠ some '[' → ':' ∉ number →
      Reads host (some number) (host ++ ':' :: number)
  | bracketedNumbered (number : List Char) : ']' ∉ host →
      Reads host (some number) ('[' :: host ++ ']' :: ':' :: number)
  /-- What does not begin with a colon is passed over. -/
  | bracketed (left : List Char) : ']' ∉ host → left.head? ≠ some ':' →
      Reads host none ('[' :: host ++ ']' :: left)

/-- Behind a closing bracket a colon counts only where it stands directly behind it; all other
    text is dropped. -/
theorem divide?_of_bracket {bracketed left : List Char}
    (h : Text.cutFirst ']' bracketed = some (host, left)) :
    divide? ('[' :: bracketed) =
      some (host, if left.head? = some ':' then some left.tail else none) := by
  unfold divide?
  simp only [h]
  cases left with
  | nil => rfl
  | cons c cs =>
    -- the branches of the reader differ in this one character
    by_cases hc : c = ':'
    · rw [hc]
      rfl
    · simp [hc]

/-- Without brackets the text is cut at its last colon. -/
theorem divide?_of_bare (h : text.head? ≠ some '[') :
    divide? text =
      (Text.cutLast ':' text).elim (some (text, none)) fun pair => some (pair.1, some pair.2) := by
  unfold divide?
  split
  · exact absurd rfl h
  · cases Text.cutLast ':' text <;> rfl

/-- The reader divides a text exactly as `Reads` has it: each of its four branches is one of the
    four ways to read a text, and there is no fifth. -/
theorem divide?_eq_some_iff : divide? text = some (host, number) ↔ Reads host number text := by
  constructor
  · -- each branch of the reader is a way to read the text
    intro h
    by_cases hopen : text.head? = some '['
    · -- brackets: the host ends at the first closing one, and without one nothing is read
      obtain ⟨bracketed, rfl⟩ := List.head?_eq_some_iff.mp hopen
      cases hcut : Text.cutFirst ']' bracketed with
      | none =>
        unfold divide? at h
        simp [hcut] at h
      | some parts =>
        obtain ⟨host', left⟩ := parts
        rw [divide?_of_bracket hcut] at h
        obtain ⟨hclose, rfl⟩ := Text.cutFirst_eq_some_iff.mp hcut
        obtain ⟨rfl, rfl⟩ := Prod.mk.inj (Option.some.inj h)
        -- what stands behind them is a number with its colon, or is passed over
        by_cases hcolon : left.head? = some ':'
        · obtain ⟨number, rfl⟩ := List.head?_eq_some_iff.mp hcolon
          exact .bracketedNumbered number hclose
        · rw [if_neg hcolon]
          exact .bracketed left hclose hcolon
    · -- no brackets: the host is all of the text, or ends at the last colon
      rw [divide?_of_bare hopen] at h
      cases hcut : Text.cutLast ':' text with
      | none =>
        rw [hcut] at h
        obtain ⟨rfl, rfl⟩ := Prod.mk.inj (Option.some.inj h)
        exact .bare hopen (Text.cutLast_eq_none_iff.mp hcut)
      | some parts =>
        obtain ⟨host', number'⟩ := parts
        rw [hcut] at h
        obtain ⟨rfl, rfl⟩ := Prod.mk.inj (Option.some.inj h)
        obtain ⟨hnumber, rfl⟩ := Text.cutLast_eq_some_iff.mp hcut
        refine .numbered number' ?_ hnumber
        -- a host with a bracket in front would have been read with brackets
        intro hhost
        apply hopen
        rw [List.head?_append, hhost]
        rfl
  · -- each way to read the text takes its branch
    intro h
    cases h with
    | bare hopen hcolon =>
      rw [divide?_of_bare hopen, Text.cutLast_eq_none_iff.mpr hcolon]
      rfl
    | numbered number hopen hcolon =>
      -- the colon is not the opening bracket, so the text does not begin with one either
      have hopen' : (host ++ ':' :: number).head? ≠ some '[' := by
        cases host with
        | nil => simp
        | cons c cs => exact hopen
      rw [divide?_of_bare hopen', Text.cutLast_eq_some_iff.mpr ⟨hcolon, rfl⟩]
      rfl
    | bracketedNumbered number hclose =>
      rw [List.cons_append, divide?_of_bracket (Text.cutFirst_append_cons hclose _)]
      rfl
    | bracketed left hclose hcolon =>
      rw [List.cons_append, divide?_of_bracket (Text.cutFirst_append_cons hclose _),
        if_neg hcolon]

/-! ## Addresses that are read -/

/-- The number of a node whose address has the given text behind the colon, or no colon. A text
    that is no numeral of 16 bits gives none. -/
def portNumber? : Option (List Char) → Option UInt16
  | none => some standardPortNumber
  | some number => Decimal.uint16? number

/-- `text` is read as the host and the number of `e`. -/
def IsReadAs (text : List Char) (e : Endpoint) : Prop :=
  e.host.toList ≠ [] ∧ '/' ∉ e.host.toList ∧
    ∃ number, Reads e.host.toList number text ∧ portNumber? number = some e.portNumber

/-- Once the text is divided, two checks are left: the host must be one, and the number must be
    in its width. -/
theorem parse_of_divide? {url : String} (h : divide? (core url.toList) = some (host, number)) :
    parse url =
      if host ≠ [] ∧ '/' ∉ host then
        (portNumber? number).elim (.error (.invalidUrl url)) fun n => .ok ⟨String.ofList host, n⟩
      else .error (.invalidUrl url) := by
  unfold parse
  simp only [h, Bool.or_eq_true, List.isEmpty_iff, List.contains_iff_mem]
  -- the guard of the reader is the denial of the condition here
  by_cases hhost : host = [] ∨ '/' ∈ host
  · rw [if_pos hhost, if_neg (by tauto)]
  · rw [if_neg hhost, if_pos (not_or.mp hhost)]
    cases number with
    | none => rfl
    | some number =>
      simp only [portNumber?]
      cases Decimal.uint16? number <;> rfl

/-- All addresses that are read, and what for: the other refusals are a text that cannot be
    divided, a host that is empty or has a slash, and a number out of range. -/
theorem parse_eq_ok_iff {url : String} {e : Endpoint} :
    parse url = .ok e ↔ IsReadAs (core url.toList) e := by
  constructor
  · intro h
    cases hdivide : divide? (core url.toList) with
    | none =>
      unfold parse at h
      rw [hdivide] at h
      cases h
    | some parts =>
      obtain ⟨host, number⟩ := parts
      rw [parse_of_divide? hdivide] at h
      by_cases hhost : host ≠ [] ∧ '/' ∉ host
      · rw [if_pos hhost] at h
        cases hnumber : portNumber? number with
        | none =>
          rw [hnumber] at h
          cases h
        | some n =>
          rw [hnumber] at h
          obtain rfl := Except.ok.inj h
          unfold IsReadAs
          rw [String.toList_ofList]
          exact ⟨hhost.1, hhost.2, number, divide?_eq_some_iff.mp hdivide, hnumber⟩
      · rw [if_neg hhost] at h
        cases h
  · rintro ⟨hne, hslash, number, hreads, hnumber⟩
    rw [parse_of_divide? (divide?_eq_some_iff.mpr hreads), if_pos ⟨hne, hslash⟩, hnumber,
      String.ofList_toList]
    rfl

/-- What is not read is refused, and the whole text is told. -/
theorem parse_refuses (url : String) :
    (∃ e, parse url = .ok e) ∨ parse url = .error (.invalidUrl url) := by
  cases hdivide : divide? (core url.toList) with
  | none =>
    right
    unfold parse
    rw [hdivide]
  | some parts =>
    obtain ⟨host, number⟩ := parts
    rw [parse_of_divide? hdivide]
    by_cases hhost : host ≠ [] ∧ '/' ∉ host
    · rw [if_pos hhost]
      cases portNumber? number with
      | none => exact Or.inr rfl
      | some n => exact Or.inl ⟨_, rfl⟩
    · rw [if_neg hhost]
      exact Or.inr rfl

/-- `text` has none of the four forms, but is read: something between the closing bracket and the
    end is passed over, or a host without brackets has colons in it. -/
def Oversteps (host : List Char) (number : Option (List Char)) (text : List Char) : Prop :=
  (number = none ∧ ∃ left, left ≠ [] ∧ left.head? ≠ some ':' ∧
    text = '[' :: host ++ ']' :: left) ∨
  (':' ∈ host ∧ ∃ behind, number = some behind ∧ text = host ++ ':' :: behind)

/-- A text is read as the forms of an address have it but for two ways to read one: that which
    passes over a rest, and that which takes the last colon although there are others. -/
theorem Reads.spells_or_oversteps (h : Reads host number text) :
    Spells host number text ∨ Oversteps host number text := by
  cases h with
  | bare _ hcolon => exact Or.inl (.bare hcolon)
  | numbered number _ _ =>
    -- only a host without colons makes this a form
    by_cases hcolon : ':' ∈ host
    · exact Or.inr (Or.inr ⟨hcolon, number, rfl, rfl⟩)
    · exact Or.inl (.numbered number hcolon)
  | bracketedNumbered number _ => exact Or.inl (.bracketedNumbered number)
  | bracketed left _ hcolon =>
    -- only an empty rest makes this a form
    by_cases hleft : left = []
    · rw [hleft]
      exact Or.inl .bracketed
    · exact Or.inr (Or.inl ⟨rfl, left, hleft, hcolon, rfl⟩)

/-- What is left of an address that is read is a host, alone or with a number, in one of the four
    forms, unless the reader passes over what stands behind a closing bracket or takes colons into
    a host without brackets. Any other text is refused. -/
theorem parse_spells_or_oversteps (url : String) :
    (∀ rest, core url.toList = rest ↔ IsCore url.toList rest) ∧
    (∀ e, parse url = .ok e ↔ IsReadAs (core url.toList) e) ∧
    (∀ e, parse url = .ok e → ∃ number, portNumber? number = some e.portNumber ∧
      (Spells e.host.toList number (core url.toList) ∨
        Oversteps e.host.toList number (core url.toList))) ∧
    ((∃ e, parse url = .ok e) ∨ parse url = .error (.invalidUrl url)) := by
  refine ⟨fun _ => core_eq_iff, fun _ => parse_eq_ok_iff, ?_, parse_refuses url⟩
  intro e h
  obtain ⟨-, -, number, hreads, hnumber⟩ := parse_eq_ok_iff.mp h
  exact ⟨number, hnumber, hreads.spells_or_oversteps⟩

/-- A scheme, a host in brackets, a number and a slash. -/
theorem parse_spells_or_oversteps_bracketed :
    parse "tcp://[::1]:9/" = .ok ⟨"::1", 9⟩ ∧
      ∃ number, portNumber? number = some 9 ∧
        (Spells "::1".toList number (core "tcp://[::1]:9/".toList) ∨
          Oversteps "::1".toList number (core "tcp://[::1]:9/".toList)) := by
  have hparse : parse "tcp://[::1]:9/" = .ok ⟨"::1", 9⟩ := by cbv
  exact ⟨hparse, (parse_spells_or_oversteps "tcp://[::1]:9/").2.2.1 _ hparse⟩

/-- Not every address that is read has one of the four forms. -/
theorem parse_passes_over :
    ¬∀ (url : String) (e : Endpoint), parse url = .ok e →
      ∃ number, portNumber? number = some e.portNumber ∧
        Spells e.host.toList number (core url.toList) := by
  intro h
  have hparse : parse "[::1]80" = .ok ⟨"::1", 18000⟩ := by cbv
  obtain ⟨number, -, hspells⟩ := h _ _ hparse
  have hcore : core "[::1]80".toList = "[::1]80".toList := by cbv
  rw [hcore] at hspells
  generalize htext : "[::1]80".toList = text at hspells
  -- the text ends in no bracket and has no colon behind one, so it is of none of the forms
  cases hspells with
  | bare hcolon => exact hcolon (by decide)
  | numbered number hcolon => exact hcolon (by decide)
  | bracketed => exact absurd htext (by decide)
  | bracketedNumbered number => simp at htext

end SoloMiner.Endpoint
