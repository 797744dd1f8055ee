import SoloMiner.Cipher.Chaining
import SoloMiner.Proofs.Cipher.TransportRoundTrip
import SoloMiner.Proofs.Text.Splitting

/-! # Chained blocks

    A padded text is a list of blocks, and so is its ciphertext, with one block for each. If
    no two blocks are encrypted alike, no two texts are: from the front on, every ciphertext
    block gives away the plaintext block, for the one before it is known. -/

namespace SoloMiner

/-! ## Blocks -/

namespace Block

theorem length_toBytes (b : Block) : b.toBytes.length = size := rfl

theorem take?_toBytes (b : Block) (rest : Bytes) : take? (b.toBytes ++ rest) = some (b, rest) :=
  rfl

theorem toBytes_injective : Function.Injective toBytes := by
  intro b c h
  have htake := take?_toBytes b []
  rw [h, take?_toBytes] at htake
  exact ((Prod.mk.inj (Option.some.inj htake)).1).symm

/-- The first sixteen bytes are a block. -/
theorem exists_toBytes {bs : Bytes} (h : size ≤ bs.length) :
    ∃ (b : Block) (rest : Bytes), bs = b.toBytes ++ rest := by
  match bs, h with
  | b0 :: b1 :: b2 :: b3 :: b4 :: b5 :: b6 :: b7 ::
      b8 :: b9 :: b10 :: b11 :: b12 :: b13 :: b14 :: b15 :: rest, _ =>
    exact ⟨⟨b0, b1, b2, b3, b4, b5, b6, b7, b8, b9, b10, b11, b12, b13, b14, b15⟩, rest, rfl⟩

theorem exists_ofBytes? {bs : Bytes} (h : bs.length = size) : ∃ b, ofBytes? bs = some b := by
  obtain ⟨b, rest, rfl⟩ := exists_toBytes (Nat.le_of_eq h.symm)
  rw [List.length_append, length_toBytes] at h
  obtain rfl : rest = [] := List.length_eq_zero_iff.mp (by omega)
  exact ⟨b, rfl⟩

/-- Bytes that fill `n` blocks are `n` blocks. -/
theorem exists_blocks {n : Nat} {bs : Bytes} (h : bs.length = 16 * n) :
    ∃ blocks : List Block, blocks.length = n ∧ blocks.flatMap toBytes = bs := by
  induction n generalizing bs with
  | zero =>
    obtain rfl := List.length_eq_zero_iff.mp h
    exact ⟨[], rfl, rfl⟩
  | succ n ih =>
    -- at least one block, and behind it bytes for the other `n`
    have hroom : size ≤ bs.length := by
      rw [h, size]
      omega
    obtain ⟨b, rest, rfl⟩ := exists_toBytes hroom
    rw [List.length_append, length_toBytes, size] at h
    have hrest : rest.length = 16 * n := by omega
    obtain ⟨blocks, hcount, rfl⟩ := ih hrest
    exact ⟨b :: blocks, congrArg Nat.succ hcount, rfl⟩

theorem flatMap_toBytes_injective :
    Function.Injective fun blocks : List Block => blocks.flatMap toBytes :=
  flatMap_injective (show 0 < size by decide) length_toBytes toBytes_injective

theorem length_flatMap_toBytes (blocks : List Block) :
    (blocks.flatMap toBytes).length = 16 * blocks.length := by
  induction blocks with
  | nil => rfl
  | cons b blocks ih =>
    rw [List.flatMap_cons, List.length_append, ih, length_toBytes, size, List.length_cons]
    omega

theorem xor_injective (a : Block) : Function.Injective a.xor := by
  intro b c h
  simp only [xor, mk.injEq, UInt8.xor_right_inj] at h
  cases b
  cases c
  simp only [mk.injEq]
  exact h

end Block

/-! ## Chains -/

namespace Chaining

variable (f : Block → Block)

/-- The ciphertext blocks of plaintext blocks, after the ciphertext block `prev`. Each is the
    next block with the one before laid on, and encrypted. -/
def chain (prev : Block) : List Block → List Block
  | [] => []
  | b :: blocks => f (prev.xor b) :: chain (f (prev.xor b)) blocks

theorem length_chain (prev : Block) (blocks : List Block) :
    (chain f prev blocks).length = blocks.length := by
  induction blocks generalizing prev with
  | nil => rfl
  | cons b blocks ih => rw [chain, List.length_cons, ih, List.length_cons]

/-- Reading block by block is reading the list of blocks. -/
theorem blocksFrom_eq (prev : Block) (acc blocks : List Block) :
    blocksFrom f blocks.length prev acc (blocks.flatMap Block.toBytes) =
      acc.reverse ++ chain f prev blocks := by
  induction blocks generalizing prev acc with
  | nil => rw [chain, List.append_nil]; rfl
  -- the block that is made is the next register, and goes in front of the accumulator
  | cons b blocks ih =>
    rw [List.length_cons, List.flatMap_cons]
    simp only [blocksFrom, Block.take?_toBytes]
    rw [ih, chain, List.reverse_cons, List.append_assoc]
    rfl

/-- A text is encrypted as the chain of the blocks of its padded form. -/
theorem exists_chain (iv : Block) (bs : Bytes) :
    ∃ blocks, blocks.flatMap Block.toBytes = Padding.pad bs ∧
      encryptWith f iv bs = (chain f iv blocks).flatMap Block.toBytes := by
  have hlength := Padding.length_pad bs
  obtain ⟨blocks, hcount, hblocks⟩ := Block.exists_blocks hlength
  refine ⟨blocks, hblocks, ?_⟩
  have hdiv : (Padding.pad bs).length / Block.size = blocks.length := by
    rw [hlength, hcount, Block.size]
    omega
  simp only [encryptWith, hdiv]
  rw [← hblocks, blocksFrom_eq]
  rfl

/-- Only the padding makes a ciphertext longer than its text. -/
theorem length_encryptWith (iv : Block) (bs : Bytes) :
    (encryptWith f iv bs).length = bs.length + Padding.lengthFor bs.length := by
  obtain ⟨blocks, hblocks, hencrypt⟩ := exists_chain f iv bs
  rw [hencrypt, Block.length_flatMap_toBytes, length_chain, ← Block.length_flatMap_toBytes, hblocks,
    Padding.pad, List.length_append, List.length_replicate]

/-- What a key and a register that are accepted make of a text. -/
theorem eq_of_encrypt {size : AesKeySize} {key iv bs cs : Bytes}
    (h : encrypt size key iv bs = .ok cs) :
    ∃ start, cs = encryptWith (Aes.Schedule.ofKey key).encrypt start bs ∧
      Block.ofBytes? iv = some start := by
  unfold encrypt at h
  -- a key or a register of another length is an error
  by_cases hkey : key.length = size.keyLength
  · rw [if_pos hkey] at h
    cases hiv : Block.ofBytes? iv with
    | none =>
      rw [hiv] at h
      cases h
    | some start =>
      rw [hiv] at h
      exact ⟨start, (Except.ok.inj h).symm, rfl⟩
  · rw [if_neg hkey] at h
    cases h

theorem length_of_encrypt {size : AesKeySize} {key iv bs cs : Bytes}
    (h : encrypt size key iv bs = .ok cs) :
    cs.length = bs.length + Padding.lengthFor bs.length := by
  obtain ⟨start, rfl, -⟩ := eq_of_encrypt h
  exact length_encryptWith _ start bs

/-- A key is refused for its length alone. -/
theorem encrypt_cases (size : AesKeySize) (key bs : Bytes) {iv : Bytes}
    (hiv : iv.length = Block.size) :
    (key.length = size.keyLength ∧ ∃ cs, encrypt size key iv bs = .ok cs) ∨
      (key.length ≠ size.keyLength ∧ encrypt size key iv bs = .error .invalidLength) := by
  by_cases hkey : key.length = size.keyLength
  · obtain ⟨start, hstart⟩ := Block.exists_ofBytes? hiv
    left
    refine ⟨hkey, encryptWith (Aes.Schedule.ofKey key).encrypt start bs, ?_⟩
    rw [encrypt, if_pos hkey, hstart]
  · right
    exact ⟨hkey, by rw [encrypt, if_neg hkey]⟩

variable {f} (hf : Function.Injective f)
include hf

/-- From the same register on, no two lists of blocks have one chain: the first block that is
    made gives the first of the list away, and is the register for the others. -/
theorem chain_injective (prev : Block) : Function.Injective (chain f prev) := by
  intro as bs h
  induction as generalizing prev bs with
  | nil =>
    cases bs with
    | nil => rfl
    | cons b bs => cases h
  | cons a as ih =>
    cases bs with
    | nil => cases h
    | cons b bs =>
      obtain ⟨hfirst, hrest⟩ := List.cons.inj h
      obtain rfl : a = b := prev.xor_injective (hf hfirst)
      rw [ih _ hrest]

/-- No two texts have one ciphertext: the chain gives the blocks away, these the padded text, and
    from that the padding is taken off. -/
theorem encryptWith_injective (iv : Block) : Function.Injective (encryptWith f iv) := by
  intro bs cs h
  obtain ⟨blocks, hblocks, hbs⟩ := exists_chain f iv bs
  obtain ⟨blocks', hblocks', hcs⟩ := exists_chain f iv cs
  rw [hbs, hcs] at h
  have hchain : chain f iv blocks = chain f iv blocks' := Block.flatMap_toBytes_injective h
  have hpad : Padding.pad bs = Padding.pad cs := by
    rw [← hblocks, ← hblocks', chain_injective hf iv hchain]
  have hunpad := Padding.unpad_pad bs
  rw [hpad, Padding.unpad_pad] at hunpad
  exact (Except.ok.inj hunpad).symm

end Chaining
end SoloMiner
