import Mathlib.Data.List.Basic
import SoloMiner.Share.Calculation

/-! # Exact arithmetic

    Which candidates a pair of operands has, told by the arithmetic of all integers. A 64-bit
    evaluation gives the exact result wherever 64-bit numbers have one, and gives none
    otherwise. So nothing is decided by the width of the operands, with one exception: no
    remainder of the least operand by `-1` is formed. -/

namespace SoloMiner

namespace Operator

variable {o : Operator} {a b min max r : Int64}

/-! ## Evaluation -/

/-- The result among all integers. Division goes toward zero. What is said of a candidate is said
    of this result, and never of one that wrapped around. -/
def exact : Operator → Int → Int → Int
  | .add, x, y => x + y
  | .sub, x, y => x - y
  | .mul, x, y => x * y
  | .div, x, y => x.tdiv y
  | .mod, x, y => x.tmod y

/-- Quotient and remainder are formed for all operands but a zero divisor and the one pair
    whose quotient exceeds 64 bits. -/
def CanDivide (a b : Int64) : Prop := b ≠ 0 ∧ ¬(a = Int64.minValue ∧ b = -1)

/-- The operands for which `o` is defined, whatever size the result may have. -/
def IsDefined (a b : Int64) : Operator → Prop
  | .add | .sub | .mul => True
  | .div => CanDivide a b ∧ b.toInt ∣ a.toInt
  | .mod => CanDivide a b

/-- An integer is a 64-bit number if it lies between the least and the greatest of them. -/
theorem int64Of?_eq_some_iff {n : Int} : int64Of? n = some r ↔ r.toInt = n := by
  rw [int64Of?, Option.ite_none_right_eq_some, Option.some.injEq, Int64.toInt_minValue,
    Int64.toInt_maxValue]
  constructor
  · rintro ⟨⟨hlow, hhigh⟩, rfl⟩
    exact Int64.toInt_ofInt_of_le (by omega) (by omega)
  · rintro rfl
    have hlow := r.le_toInt
    have hhigh := r.toInt_lt
    exact ⟨⟨by omega, by omega⟩, Int64.ofInt_toInt r⟩

/-- There is a remainder if the division can be done. -/
theorem remainder?_eq_some_iff : remainder? a b = some r ↔ CanDivide a b ∧ r = a % b := by
  unfold remainder? CanDivide
  split
  · next hzero => exact ⟨nofun, fun h => absurd hzero h.1.1⟩
  · next hzero =>
    split
    · next hleast => exact ⟨nofun, fun h => absurd hleast h.1.2⟩
    · next hleast =>
      rw [Option.some.injEq]
      exact ⟨fun h => ⟨⟨hzero, hleast⟩, h.symm⟩, fun h => h.2.symm⟩

/-- A quotient of 64-bit numbers is a 64-bit number, with one exception. -/
theorem toInt_div_of_canDivide (h : CanDivide a b) : (a / b).toInt = a.toInt.tdiv b.toInt := by
  by_cases hleast : a = Int64.minValue
  · exact Int64.toInt_div_of_ne_right a b fun hb => h.2 ⟨hleast, hb⟩
  · exact Int64.toInt_div_of_ne_left a b hleast

theorem mod_eq_zero_iff : a % b = 0 ↔ b.toInt ∣ a.toInt := by
  rw [← Int64.toInt_inj, Int64.toInt_mod, Int64.toInt_zero, Int.dvd_iff_tmod_eq_zero]

/-- The evaluation gives the exact result if there is one that 64 bits hold, and otherwise none. -/
theorem evaluate_eq_some_iff :
    o.evaluate a b = some r ↔ o.IsDefined a b ∧ r.toInt = o.exact a.toInt b.toInt := by
  cases o with
  -- defined for any operands, and the result is held against 64 bits
  | add | sub | mul =>
    rw [evaluate, int64Of?_eq_some_iff]
    exact ⟨fun h => ⟨trivial, h⟩, fun h => h.2⟩
  | mod =>
    rw [evaluate, remainder?_eq_some_iff, ← Int64.toInt_inj, Int64.toInt_mod]
    exact Iff.rfl
  -- defined if the remainder is zero, and of such a quotient 64 bits hold each one
  | div =>
    rw [evaluate]
    constructor
    · intro h
      split at h
      · next rest hrest =>
        obtain ⟨hdivide, rfl⟩ := remainder?_eq_some_iff.mp hrest
        obtain ⟨heven, hr⟩ := Option.ite_none_right_eq_some.mp h
        obtain rfl := Option.some.inj hr
        exact ⟨⟨hdivide, mod_eq_zero_iff.mp heven⟩, toInt_div_of_canDivide hdivide⟩
      · cases h
    · rintro ⟨⟨hdivide, heven⟩, hr⟩
      have hquotient : a / b = r :=
        Int64.toInt_inj.mp ((toInt_div_of_canDivide hdivide).trans hr.symm)
      rw [remainder?_eq_some_iff.mpr ⟨hdivide, rfl⟩]
      show (if a % b = 0 then some (a / b) else none) = some r
      rw [if_pos (mod_eq_zero_iff.mpr heven), hquotient]

/-! ## Rules -/

/-- All operators, in the order in which they are tried. -/
def inOrder : List Operator := [.sub, .div, .mod, .add, .mul]

/-- When an operator is tried: differences and quotients of descending operands only. So no
    result is negative if the operands are not, and of the two quotients at most one is tried. -/
def Applies : Operator → Int → Int → Prop
  | .sub, x, y => y < x
  | .div, x, y => y < x ∧ y ≠ 0 ∧ y ∣ x
  | .mod, _, y => y ≠ 0
  | .add, _, _ | .mul, _, _ => True

instance (o : Operator) (x y : Int) : Decidable (o.Applies x y) :=
  match o with
  | .sub => inferInstanceAs (Decidable (y < x))
  | .div => inferInstanceAs (Decidable (y < x ∧ y ≠ 0 ∧ y ∣ x))
  | .mod => inferInstanceAs (Decidable (y ≠ 0))
  | .add | .mul => inferInstanceAs (Decidable True)

/-- `o` applies and its exact result lies in `[min, max]`. The remainder that is never formed is
    left out. -/
def MakesCandidate (a b min max : Int64) (o : Operator) : Prop :=
  o.Applies a.toInt b.toInt ∧ min.toInt ≤ o.exact a.toInt b.toInt ∧
    o.exact a.toInt b.toInt ≤ max.toInt ∧ ¬(o = .mod ∧ a = Int64.minValue ∧ b = -1)

instance (a b min max : Int64) : DecidablePred (MakesCandidate a b min max) := fun o =>
  inferInstanceAs (Decidable (o.Applies a.toInt b.toInt ∧ min.toInt ≤ o.exact a.toInt b.toInt ∧
    o.exact a.toInt b.toInt ≤ max.toInt ∧ ¬(o = .mod ∧ a = Int64.minValue ∧ b = -1)))

/-- The operators that need descending operands. -/
def needsDescent (o : Operator) : Bool := o == .sub || o == .div

theorem rulesFor_eq (a b : Int64) :
    rulesFor a b = inOrder.filter fun o => decide (o.needsDescent = true → b < a) := by
  by_cases h : b < a <;> simp [rulesFor, inOrder, needsDescent, h]

/-- An operator among the rules applies if it is defined, up to the exception. -/
theorem applies_iff :
    (o.Applies a.toInt b.toInt ∧ ¬(o = .mod ∧ a = Int64.minValue ∧ b = -1)) ↔
      (o.needsDescent = true → b < a) ∧ o.IsDefined a b := by
  have hzero : b.toInt = 0 ↔ b = 0 := by rw [← Int64.toInt_inj, Int64.toInt_zero]
  -- the least number is below no other
  have hleast : b < a → ¬(a = Int64.minValue ∧ b = -1) := by
    rintro hlt ⟨rfl, rfl⟩
    exact absurd hlt (by decide)
  cases o with
  | add | mul => simp [Applies, needsDescent, IsDefined]
  | sub => simp [Applies, needsDescent, IsDefined, Int64.lt_iff_toInt_lt]
  | mod => simp [Applies, needsDescent, IsDefined, CanDivide, hzero]
  -- with its operands in descending order a quotient does not meet the exception
  | div =>
    simp only [Applies, needsDescent, IsDefined, CanDivide, Int64.lt_iff_toInt_lt] at hleast ⊢
    constructor
    · rintro ⟨⟨hlt, hb, heven⟩, -⟩
      exact ⟨fun _ => hlt, ⟨mt hzero.mpr hb, hleast hlt⟩, heven⟩
    · rintro ⟨hdescent, ⟨hb, -⟩, heven⟩
      exact ⟨⟨hdescent rfl, mt hzero.mp hb, heven⟩, fun h => nomatch h.1⟩

end Operator

namespace Candidate

variable {a b min max : Int64} {o : Operator} {c : Candidate}

/-- An operator gives a candidate if its result lies in the range. -/
theorem ofOperator?_eq_some_iff :
    ofOperator? a b min max o = some c ↔
      ∃ r, o.evaluate a b = some r ∧ min ≤ r ∧ r ≤ max ∧ c = ⟨a, o, b, r⟩ := by
  unfold ofOperator?
  cases o.evaluate a b with
  | none => exact ⟨nofun, nofun⟩
  | some r =>
    show (if r < min ∨ max < r then none else some _) = some c ↔ _
    rw [Option.ite_none_left_eq_some, not_or, Int64.not_lt, Int64.not_lt, Option.some.injEq]
    constructor
    · rintro ⟨⟨hmin, hmax⟩, rfl⟩
      exact ⟨r, rfl, hmin, hmax, rfl⟩
    · rintro ⟨r', hr, hmin, hmax, rfl⟩
      obtain rfl := Option.some.inj hr
      exact ⟨⟨hmin, hmax⟩, rfl⟩

/-- What is told of a candidate: its operands, its operator and its result. -/
def parts (c : Candidate) : Int64 × Operator × Int64 × Int :=
  (c.first, c.operator, c.second, c.solution.toInt)

/-- With its rule satisfied, an operator gives the candidate with its exact result, or none. -/
theorem map_parts_ofOperator? (h : o.needsDescent = true → b < a) :
    (ofOperator? a b min max o).map parts =
      if o.MakesCandidate a b min max then some (a, o, b, o.exact a.toInt b.toInt) else none := by
  apply Option.ext
  intro t
  rw [Option.map_eq_some_iff, Option.ite_none_right_eq_some, Option.some.injEq]
  constructor
  · rintro ⟨c, hc, rfl⟩
    obtain ⟨r, hevaluate, hmin, hmax, rfl⟩ := ofOperator?_eq_some_iff.mp hc
    obtain ⟨hdefined, hexact⟩ := Operator.evaluate_eq_some_iff.mp hevaluate
    obtain ⟨happlies, hformed⟩ := Operator.applies_iff.mpr ⟨h, hdefined⟩
    rw [Int64.le_iff_toInt_le, hexact] at hmin hmax
    refine ⟨⟨happlies, hmin, hmax, hformed⟩, ?_⟩
    show _ = (a, o, b, r.toInt)
    rw [hexact]
  · rintro ⟨⟨happlies, hmin, hmax, hformed⟩, rfl⟩
    -- between two 64-bit numbers the exact result is one itself
    have hresult : (Int64.ofInt (o.exact a.toInt b.toInt)).toInt = o.exact a.toInt b.toInt :=
      Int64.toInt_ofInt_of_le (Int.le_trans min.le_toInt hmin)
        (Int.lt_of_le_of_lt hmax max.toInt_lt)
    have hdefined := (Operator.applies_iff.mp ⟨happlies, hformed⟩).2
    refine ⟨⟨a, o, b, Int64.ofInt (o.exact a.toInt b.toInt)⟩, ofOperator?_eq_some_iff.mpr ?_, ?_⟩
    · rw [← hresult] at hmin hmax
      exact ⟨_, Operator.evaluate_eq_some_iff.mpr ⟨hdefined, hresult⟩,
        Int64.le_iff_toInt_le.mpr hmin, Int64.le_iff_toInt_le.mpr hmax, rfl⟩
    · show (a, o, b, (Int64.ofInt (o.exact a.toInt b.toInt)).toInt) = _
      rw [hresult]

/-- Each of the five operators is tried once, in the order of the rules. -/
theorem map_parts_ofPair (a b min max : Int64) :
    (ofPair a b min max).map parts =
      (Operator.inOrder.filter (Operator.MakesCandidate a b min max ·)).map
        fun o => (a, o, b, o.exact a.toInt b.toInt) := by
  rw [ofPair, Operator.rulesFor_eq, List.filterMap_filter, List.map_filterMap,
    ← List.filterMap_eq_map, List.filterMap_filter]
  apply List.filterMap_congr
  intro o _
  simp only [decide_eq_true_eq]
  -- an operator that has no rule for the operands makes no candidate of them either
  by_cases hrule : o.needsDescent = true → b < a
  · rw [if_pos hrule, map_parts_ofOperator? hrule]
    rfl
  · have hnone : ¬Operator.MakesCandidate a b min max o :=
      fun h => hrule (Operator.applies_iff.mp ⟨h.1, h.2.2.2⟩).1
    rw [if_neg hrule, if_neg hnone]
    rfl

theorem map_operator_ofPair (a b min max : Int64) :
    (ofPair a b min max).map (·.operator) =
      Operator.inOrder.filter (Operator.MakesCandidate a b min max ·) := by
  have hparts : (fun c : Candidate => c.operator) = (fun t => t.2.1) ∘ parts := rfl
  rw [hparts, ← List.map_map, map_parts_ofPair, List.map_map]
  exact List.map_id _

theorem map_operator_ofPair_sublist (a b min max : Int64) :
    ((ofPair a b min max).map (·.operator)).Sublist (Operator.rulesFor a b) := by
  rw [map_operator_ofPair, Operator.rulesFor_eq]
  apply List.monotone_filter_right
  intro o h
  have hmakes : Operator.MakesCandidate a b min max o := of_decide_eq_true h
  exact decide_eq_true (Operator.applies_iff.mp ⟨hmakes.1, hmakes.2.2.2⟩).1

/-- The candidates of a pair are made by just the operators that apply and whose exact result
    lies in the range, each once, in the order of the rules. No pair breaks an evaluation: every
    operator gives its exact result if it is defined and 64 bits hold the result, and otherwise
    none, and no division is done where 64-bit numbers have none. -/
theorem ofPair_exact (a b min max : Int64) :
    (∀ o r, Operator.evaluate o a b = some r ↔
      o.IsDefined a b ∧ r.toInt = o.exact a.toInt b.toInt) ∧
    (∀ r, Operator.remainder? a b = some r ↔ Operator.CanDivide a b ∧ r = a % b) ∧
    ((ofPair a b min max).map (·.operator)).Sublist (Operator.rulesFor a b) ∧
    (ofPair a b min max).map parts =
      (Operator.inOrder.filter (Operator.MakesCandidate a b min max ·)).map
        fun o => (a, o, b, o.exact a.toInt b.toInt) :=
  ⟨fun _ _ => Operator.evaluate_eq_some_iff, fun _ => Operator.remainder?_eq_some_iff,
    map_operator_ofPair_sublist a b min max, map_parts_ofPair a b min max⟩

/-- The remainder would be zero, but it is not formed. -/
example : ofPair Int64.minValue (-1) Int64.minValue Int64.maxValue = [] := by decide

end Candidate
end SoloMiner
