import SoloMiner.Proofs.Cipher.AesPermutation
import SoloMiner.Proofs.Encoding.MaskedHex
import SoloMiner.Proofs.Share.Encryption

/-! # Nothing is lost before the digest

    Every step from a candidate to the text that is digested can be undone: the numerals and
    the operator are found between the blanks, a mask comes off the hexadecimal text, and a
    chain of blocks under one key gives away its plaintext. So candidates with different
    calculations are digested from different texts. -/

namespace SoloMiner

theorem Bytes.ofString_injective : Function.Injective ofString := by
  intro s t h
  have htext := text?_ofString s
  rw [h, text?_ofString] at htext
  exact (Option.some.inj htext).symm

/-! ## Share texts -/

theorem Operator.symbol_injective : Function.Injective symbol := by
  have hread : ∀ o, all.find? (fun o' => o'.symbol == symbol o) = some o := by
    intro o
    cases o <;> rfl
  intro o o' h
  have hfound := hread o
  rw [h, hread o'] at hfound
  exact (Option.some.inj hfound).symm

namespace Candidate

/-- Two candidates that state the same calculation, whatever they give as its result. The result
    is no part of the text of a share. -/
def SameCalculation (c c' : Candidate) : Prop :=
  c.first = c'.first ∧ c.operator = c'.operator ∧ c.second = c'.second

theorem toList_shareText (c : Candidate) (timestamp : Int64) :
    (c.calculationText ++ " " ++ Decimal.text timestamp.toInt).toList =
      Decimal.ofInt c.first.toInt ++ ' ' :: c.operator.symbol :: ' ' ::
        (Decimal.ofInt c.second.toInt ++ ' ' :: Decimal.ofInt timestamp.toInt) := by
  have hblank : " ".toList = [' '] := rfl
  simp only [calculationText, Decimal.text, String.toList_append, String.toList_ofList,
    String.toList_singleton, hblank, List.append_assoc, List.cons_append, List.nil_append]

/-- Under one timestamp a share text is that of one calculation. -/
theorem shareText_inj {c c' : Candidate} {timestamp : Int64}
    (h : c.shareText timestamp = c'.shareText timestamp) : c.SameCalculation c' := by
  have hlist := congrArg String.toList (Bytes.ofString_injective h)
  rw [toList_shareText, toList_shareText] at hlist
  -- numerals have no blank, so both texts are cut at the same places
  obtain ⟨hfirst, hbehind⟩ := append_mark_inj (Decimal.blank_not_mem_ofInt _)
    (Decimal.blank_not_mem_ofInt _) hlist
  obtain ⟨hsymbol, hbehind⟩ := List.cons.inj hbehind
  obtain ⟨-, hbehind⟩ := List.cons.inj hbehind
  obtain ⟨hsecond, -⟩ := append_mark_inj (Decimal.blank_not_mem_ofInt _)
    (Decimal.blank_not_mem_ofInt _) hbehind
  exact ⟨Decimal.ofInt_toInt_injective hfirst, Operator.symbol_injective hsymbol,
    Decimal.ofInt_toInt_injective hsecond⟩

theorem shareText_congr {c c' : Candidate} (timestamp : Int64) (h : c.SameCalculation c') :
    c.shareText timestamp = c'.shareText timestamp := by
  obtain ⟨hfirst, hoperator, hsecond⟩ := h
  rw [shareText, shareText, calculationText, calculationText, hfirst, hoperator, hsecond]

end Candidate

/-! ## Rounds -/

/-- Under one key and register no two texts have one ciphertext. -/
theorem Chaining.encrypt_inj {size : AesKeySize} {key iv bs bs' cs : Bytes}
    (h : encrypt size key iv bs = .ok cs) (h' : encrypt size key iv bs' = .ok cs) : bs = bs' := by
  obtain ⟨start, hcs, hstart⟩ := eq_of_encrypt h
  obtain ⟨start', hcs', hstart'⟩ := eq_of_encrypt h'
  obtain rfl : start = start' := Option.some.inj (hstart.symm.trans hstart')
  apply encryptWith_injective (Aes.Schedule.ofKey key).encrypt_injective start
  rw [← hcs, ← hcs']

namespace ShareEncoder

/-- Rounds lose nothing. One round does not, and every further one starts from its outcome. -/
theorem stageAfter_inj {job : JobTemplate} {n : Nat} {stage stage' text : Bytes}
    (h : stageAfter job n stage = .ok text) (h' : stageAfter job n stage' = .ok text) :
    stage = stage' := by
  induction n generalizing stage stage' with
  | zero => exact Except.ok.inj (h.trans h'.symm)
  | succ n ih =>
    unfold stageAfter at h h'
    cases hseal : Chaining.encrypt job.keySize job.aesKey job.aesIv stage with
    | error fault =>
      rw [hseal] at h
      cases h
    | ok cs =>
      cases hseal' : Chaining.encrypt job.keySize job.aesKey job.aesIv stage' with
      | error fault =>
        rw [hseal'] at h'
        cases h'
      | ok cs' =>
        rw [hseal] at h
        rw [hseal'] at h'
        obtain rfl : cs = cs' := MaskedHex.encode_injective _ _ (ih h h')
        exact Chaining.encrypt_inj hseal hseal'

theorem digestInput_inj {job : JobTemplate} {c c' : Candidate} {input : Bytes}
    (h : digestInput job c = .ok input) (h' : digestInput job c' = .ok input) :
    c.SameCalculation c' := by
  have hmasked := stageAfter_inj h h'
  have htext := MaskedHex.encode_injective job.xorKey false hmasked
  exact Candidate.shareText_inj htext

/-- What an encoder hands to its digest function is determined by the calculation, and two
    calculations never give the same text. The job may have any timestamp, mask and number of
    rounds, as long as its key is accepted; what the encoder was used for does not matter. -/
theorem encrypt_separates {job : JobTemplate}
    (hkey : job.aesKey.length = job.keySize.keyLength) (hiv : job.aesIv.length = Block.size) :
    ∃ input : Candidate → Bytes,
      (∀ e : ShareEncoder, e.text.length = textCapacity →
        ∀ (c : Candidate) (out : EncryptedShare), ∃ e' out',
          e.encrypt job c out = (.ok (), e', out') ∧ e'.stage = input c ∧
            out'.share = e.digest.text (input c)) ∧
      ∀ c c' : Candidate, input c = input c' ↔ c.SameCalculation c' := by
  have hinput : ∀ c, ∃ input, digestInput job c = .ok input := fun c =>
    exists_stageAfter hiv hkey _ _
  choose input hinput using hinput
  refine ⟨input, ?_, ?_⟩
  · -- what the encoder held before plays no part in what it digests
    intro e hlength c out
    have hready : e.IsReady e.digest := ⟨rfl, hlength⟩
    obtain ⟨e', -, heq⟩ := hready.encrypt_eq job c out
    rw [hinput] at heq
    exact ⟨_, _, heq, rfl, rfl⟩
  · intro c c'
    constructor
    · -- the rounds lose nothing, and the text tells the calculation
      intro h
      exact digestInput_inj (hinput c) (h ▸ hinput c')
    · intro h
      have hsame : digestInput job c = digestInput job c' := by
        rw [digestInput, digestInput, Candidate.shareText_congr job.timestamp h]
      rw [hinput, hinput] at hsame
      exact Except.ok.inj hsame

/-- A sum and a difference of the same operands, in four rounds with a mask. -/
theorem encrypt_separates_small :
    ∃ job : JobTemplate, job.rounds = 3 ∧ job.xorKey = [120, 121] ∧
      ∃ e e' out out', (fresh .sha3).encrypt job ⟨57, .sub, 13, 44⟩ .blank = (.ok (), e, out) ∧
        (fresh .sha3).encrypt job ⟨57, .add, 13, 70⟩ .blank = (.ok (), e', out') ∧
        e.stage ≠ e'.stage := by
  have hkey : (List.replicate 16 (7 : UInt8)).length = AesKeySize.bits128.keyLength := by decide
  have hiv : (List.replicate 16 (0 : UInt8)).length = Block.size := by decide
  obtain ⟨input, hencrypt, hseparate⟩ := @encrypt_separates
    ⟨7, 0, "AES", "", 1, 1, 6, [120, 121], .bits128, List.replicate 16 7, List.replicate 16 0, 3,
      #[]⟩ hkey hiv
  obtain ⟨e, out, heq, hstage, -⟩ :=
    hencrypt (fresh .sha3) List.length_replicate ⟨57, .sub, 13, 44⟩ .blank
  obtain ⟨e', out', heq', hstage', -⟩ :=
    hencrypt (fresh .sha3) List.length_replicate ⟨57, .add, 13, 70⟩ .blank
  refine ⟨_, rfl, rfl, e, e', out, out', heq, heq', ?_⟩
  rw [hstage, hstage']
  intro hsame
  obtain ⟨-, hoperator, -⟩ := (hseparate _ _).mp hsame
  cases hoperator

end ShareEncoder
end SoloMiner
