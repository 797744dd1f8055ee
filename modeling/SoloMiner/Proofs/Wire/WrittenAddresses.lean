import SoloMiner.Proofs.Text.Numerals
import SoloMiner.Proofs.Wire.Addresses

/-! # Written addresses

    The written form of an endpoint is an address of it. This holds of every host without slashes,
    square brackets and white space. Colons are allowed: the writer puts a host with a colon in
    brackets, and the reader, who goes by the first character, then takes the host up to the closing
    bracket. Without brackets the last colon is the only one.

    A scheme in front and slashes at the end change nothing. The written form has no slash and ends
    with a digit, so the first scheme mark of an address is the one behind its scheme, and what is
    left of the address is the written form. -/

namespace SoloMiner.Endpoint

variable {e : Endpoint}

/-! ## Hosts and schemes -/

/-- A host without slashes, square brackets and white space. It may have colons, and is written
    in square brackets then. -/
structure IsHost (host : String) : Prop where
  ne_empty : host ≠ ""
  no_slash : '/' ∉ host.toList
  no_opening : '[' ∉ host.toList
  no_closing : ']' ∉ host.toList
  no_blank : ∀ c ∈ host.toList, Text.isBlank c = false

/-- A text without slashes and white space. -/
structure IsScheme (scheme : String) : Prop where
  no_slash : '/' ∉ scheme.toList
  no_blank : ∀ c ∈ scheme.toList, Text.isBlank c = false

/-- `n` slashes. -/
def slashes (n : Nat) : String := String.ofList (List.replicate n '/')

/-! ## The written form -/

/-- The numeral behind the colon. -/
def numeral (e : Endpoint) : List Char := Decimal.ofNat e.portNumber.toNat

/-- The written form as characters: brackets stand around a host with colons, and the number
    always follows a colon. -/
theorem toList_text (e : Endpoint) :
    e.text.toList =
      if ':' ∈ e.host.toList then '[' :: e.host.toList ++ ']' :: ':' :: e.numeral
      else e.host.toList ++ ':' :: e.numeral := by
  have hnumber : (Decimal.text e.portNumber.toNat).toList = e.numeral := by
    rw [Decimal.text, String.toList_ofList, Decimal.ofInt_natCast, numeral]
  unfold text
  by_cases hcolon : ':' ∈ e.host.toList
  · simp [hcolon, hnumber]
  · simp [hcolon, hnumber]

theorem char_of_mem_numeral {c : Char} (h : c ∈ e.numeral) :
    c ≠ ':' ∧ c ≠ '/' ∧ Text.isBlank c = false := by
  have hdigits : ∀ d < 10, Decimal.digitChar d ≠ ':' ∧ Decimal.digitChar d ≠ '/' ∧
      Text.isBlank (Decimal.digitChar d) = false := by decide
  obtain ⟨d, hd, rfl⟩ := Decimal.exists_digit_of_mem_ofNat h
  exact hdigits d hd

/-- The reader takes the written form apart where the writer has put it together. -/
theorem reads_text (h : IsHost e.host) : Reads e.host.toList (some e.numeral) e.text.toList := by
  rw [toList_text]
  by_cases hcolon : ':' ∈ e.host.toList
  · rw [if_pos hcolon]
    exact .bracketedNumbered e.numeral h.no_closing
  · -- the last colon is the one in front of the numeral
    rw [if_neg hcolon]
    apply Reads.numbered e.numeral
    · intro hhead
      exact h.no_opening (List.mem_of_mem_head? hhead)
    · intro hmem
      exact (char_of_mem_numeral hmem).1 rfl

theorem isReadAs_text (h : IsHost e.host) : IsReadAs e.text.toList e := by
  refine ⟨?_, h.no_slash, e.numeral, reads_text h, ?_⟩
  · simpa using h.ne_empty
  · exact Decimal.uint16?_eq_some_iff.mpr (Decimal.isNatural_ofNat _)

/-- The numeral stands at the end of the written form, and the host, perhaps in brackets, in front
    of it. -/
theorem exists_toList_text_eq (e : Endpoint) :
    ∃ front, e.text.toList = front ++ ':' :: e.numeral ∧
      ∀ c ∈ front, c ∈ e.host.toList ∨ c = '[' ∨ c = ']' := by
  rw [toList_text]
  -- only the brackets come on top of the characters of the host
  by_cases hcolon : ':' ∈ e.host.toList
  · rw [if_pos hcolon]
    refine ⟨'[' :: e.host.toList ++ [']'], by simp, ?_⟩
    intro c hc
    have hchar : c = '[' ∨ c ∈ e.host.toList ∨ c = ']' := by simpa using hc
    tauto
  · rw [if_neg hcolon]
    refine ⟨e.host.toList, rfl, ?_⟩
    intro c hc
    exact Or.inl hc

/-- The written form has no slash and no white space, neither in the host nor around it. -/
theorem char_of_mem_text (h : IsHost e.host) {c : Char} (hc : c ∈ e.text.toList) :
    c ≠ '/' ∧ Text.isBlank c = false := by
  obtain ⟨front, htext, hfront⟩ := exists_toList_text_eq e
  rw [htext, List.mem_append, List.mem_cons] at hc
  -- the character is in front of the last colon, is that colon, or stands in the numeral
  rcases hc with hc | rfl | hc
  · rcases hfront c hc with hhost | rfl | rfl
    · refine ⟨?_, h.no_blank c hhost⟩
      intro hslash
      exact h.no_slash (hslash ▸ hhost)
    · decide
    · decide
  · decide
  · exact (char_of_mem_numeral hc).2

theorem getLast?_text_ne (e : Endpoint) : e.text.toList.getLast? ≠ some ':' := by
  obtain ⟨front, htext, -⟩ := exists_toList_text_eq e
  have hnumeral : e.numeral ≠ [] := Decimal.ofNat_ne_nil _
  rw [htext, List.append_cons, List.getLast?_append_of_ne_nil _ hnumeral]
  intro hlast
  exact (char_of_mem_numeral (List.mem_of_getLast? hlast)).1 rfl

/-! ## What is around the written form -/

/-- No scheme mark begins in the written form, and there is none in the slashes. -/
theorem no_mark_slashed (h : IsHost e.host) (n : Nat) (front behind : List Char) :
    e.text.toList ++ List.replicate n '/' ≠ front ++ "://".toList ++ behind := by
  intro hmark
  have hform : e.text.toList ++ List.replicate n '/' = front ++ ':' :: '/' :: '/' :: behind := by
    rw [hmark, List.append_assoc]
    rfl
  have hslash : '/' ∉ e.text.toList := by
    intro hmem
    exact (char_of_mem_text h hmem).1 rfl
  -- the mark cannot begin within the written form, which has no slash and does not end in a colon
  have hlength : e.text.toList.length ≤ front.length := by
    apply Text.length_le_of_mark hslash _ hform
    intro hlast
    exact absurd hlast (getLast?_text_ne e)
  -- so the colon of the mark is one of the slashes
  have hcolon : ':' ∈ List.replicate n '/' := by
    have hdrop := congrArg (List.drop e.text.toList.length) hform
    rw [List.drop_left, List.drop_append_of_le_length hlength] at hdrop
    rw [hdrop]
    simp
  have heq : ':' = '/' := List.eq_of_mem_replicate hcolon
  exact absurd heq (by decide)

/-- The mark behind a scheme is the first one. -/
theorem isBehindFirst_scheme {scheme : String} (h : IsScheme scheme) (rest : List Char) :
    Text.IsBehindFirst "://".toList (scheme.toList ++ "://".toList ++ rest) rest := by
  refine ⟨scheme.toList, rfl, ?_⟩
  intro front' rest' hmark
  have hform : scheme.toList ++ (':' :: '/' :: '/' :: rest) =
      front' ++ ':' :: '/' :: '/' :: rest' := by
    rw [List.append_assoc, List.append_assoc] at hmark
    exact hmark
  apply Text.length_le_of_mark h.no_slash _ hform
  -- a colon at the end of the scheme does not begin a mark, as a colon follows
  intro _ hhead
  exact absurd hhead (by simp)

/-- What is left of an address without blanks that is the written form and slashes, behind a
    scheme or not. Only the slashes are cut off at its end, for the written form does not end in
    one. -/
theorem core_eq_text (h : IsHost e.host) {url : List Char} {n : Nat}
    (hblank : ∀ c ∈ url, Text.isBlank c = false)
    (hscheme : DropsScheme url (e.text.toList ++ List.replicate n '/')) :
    core url = e.text.toList := by
  apply core_eq_iff.mpr
  refine ⟨url, List.replicate n '/', Text.isTrimmed_self hblank, hscheme, ?_, ?_⟩
  · intro c hc
    exact List.eq_of_mem_replicate hc
  · intro hlast
    exact (char_of_mem_text h (List.mem_of_getLast? hlast)).1 rfl

theorem isBlank_of_mem_slashed (h : IsHost e.host) {n : Nat} {c : Char}
    (hc : c ∈ e.text.toList ++ List.replicate n '/') : Text.isBlank c = false := by
  rcases List.mem_append.mp hc with hc | hc
  · exact (char_of_mem_text h hc).2
  · rw [List.eq_of_mem_replicate hc]
    rfl

theorem core_slashed (h : IsHost e.host) (n : Nat) :
    core (e.text ++ slashes n).toList = e.text.toList := by
  rw [String.toList_append, slashes, String.toList_ofList]
  apply core_eq_text h
  · intro c hc
    exact isBlank_of_mem_slashed h hc
  · exact Or.inr ⟨no_mark_slashed h n, rfl⟩

/-- A scheme and slashes are all that is cut off an address that is written with them. -/
theorem core_schemed (h : IsHost e.host) {scheme : String} (hscheme : IsScheme scheme) (n : Nat) :
    core (scheme ++ "://" ++ e.text ++ slashes n).toList = e.text.toList := by
  have htext : (scheme ++ "://" ++ e.text ++ slashes n).toList =
      scheme.toList ++ "://".toList ++ (e.text.toList ++ List.replicate n '/') := by
    simp [slashes]
  rw [htext]
  apply core_eq_text h
  · intro c hc
    -- no part of the address has a blank, so nothing is trimmed
    rcases List.mem_append.mp hc with hc | hc
    · rcases List.mem_append.mp hc with hc | hc
      · exact hscheme.no_blank c hc
      · have hmark : c = ':' ∨ c = '/' := by simpa using hc
        rcases hmark with rfl | rfl <;> rfl
    · exact isBlank_of_mem_slashed h hc
  · exact Or.inl (isBehindFirst_scheme hscheme _)

/-! ## Reading back -/

/-- An endpoint is read back from its written form, with a scheme in front or not, and with any
    number of slashes at the end. -/
theorem parse_written {e : Endpoint} (h : IsHost e.host) :
    parse e.text = .ok e ∧
    ∀ n, parse (e.text ++ slashes n) = .ok e ∧
      ∀ scheme, IsScheme scheme → parse (scheme ++ "://" ++ e.text ++ slashes n) = .ok e := by
  have hslashed : ∀ n, parse (e.text ++ slashes n) = .ok e := by
    intro n
    rw [parse_eq_ok_iff, core_slashed h]
    exact isReadAs_text h
  refine ⟨?_, ?_⟩
  · -- the bare form is the one with no slash behind it
    have hbare := hslashed 0
    rwa [slashes, List.replicate_zero, String.ofList_nil, String.append_empty] at hbare
  · intro n
    refine ⟨hslashed n, ?_⟩
    intro scheme hscheme
    rw [parse_eq_ok_iff, core_schemed h hscheme]
    exact isReadAs_text h

/-- A host that looks like a host with a number, behind a scheme with a colon at its end. -/
theorem parse_written_like_number :
    IsHost "a:5" ∧ IsScheme "tcp:" ∧ parse "[a:5]:7" = .ok ⟨"a:5", 7⟩ ∧
      parse "tcp:://[a:5]:7//" = .ok ⟨"a:5", 7⟩ := by
  have hhost : IsHost "a:5" := by
    constructor
    case no_blank => simp [Text.isBlank]
    all_goals decide
  have hscheme : IsScheme "tcp:" := by
    constructor
    case no_blank => simp [Text.isBlank]
    all_goals decide
  have hwritten := parse_written (e := ⟨"a:5", 7⟩) hhost
  have htext : text ⟨"a:5", 7⟩ = "[a:5]:7" := by
    apply String.toList_inj.mp
    rw [toList_text, numeral, Decimal.ofNat]
    rfl
  rw [htext] at hwritten
  exact ⟨hhost, hscheme, hwritten.1, (hwritten.2 2).2 "tcp:" hscheme⟩

end SoloMiner.Endpoint
