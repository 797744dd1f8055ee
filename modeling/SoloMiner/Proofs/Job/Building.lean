import Mathlib.Data.List.Perm.Subperm
import SoloMiner.Proofs.Cipher.StreamLayout
import SoloMiner.Proofs.Job.EasyValues

/-! # Building templates

    A password is all that building needs: key and initial register can be read from the key
    stream whatever the key size. The easy values of a template that was built are those of its
    range. -/

namespace SoloMiner

namespace KeyStream

/-- Key and initial register are read one after the other. -/
theorem read_key_register (base : Bytes) (size : AesKeySize) :
    ∃ key s, (KeyStream.mk base [] 0 0).read size.keyLength = (.ok key, s) ∧
      key.length = size.keyLength ∧
      ∃ register, (s.read Block.size).1 = .ok register ∧ register.length = Block.size := by
  have hstart := At.start base
  have hpos : LastGroup.none.unread < size.keyLength := by cases size <;> decide
  -- the key needs one block or two of the many there are
  have hblocks : LastGroup.none.next + blockCount (size.keyLength - LastGroup.none.unread) ≤
      lastBlock + 1 := by
    cases size <;> decide
  obtain ⟨hkey, hbehind⟩ := hstart.read_fresh hpos (Nat.zero_le _) hblocks
  generalize hs : ((KeyStream.mk base [] 0 0).read size.keyLength).2 = s at hbehind
  have hregister : ∃ register, (s.read Block.size).1 = .ok register := by
    cases size with
    | bits192 =>
      -- the leftovers of the second block are just the register
      exact ⟨_, congrArg Prod.fst (hbehind.read_unread (by decide) (by decide))⟩
    | bits128 | bits256 =>
      exact ⟨_, (hbehind.read_fresh (by decide) (by decide) (by decide)).1⟩
  obtain ⟨register, hregister⟩ := hregister
  exact ⟨_, s, Prod.ext hkey hs, hstart.length_of_read hkey, register, hregister,
    hbehind.length_of_read hregister⟩

end KeyStream

namespace JobTemplate

/-- Key and initial register are as long as the cipher wants them. With any other length an
    encryption is refused. -/
structure IsKeyed (job : JobTemplate) : Prop where
  length_aesKey : job.aesKey.length = job.keySize.keyLength
  length_aesIv : job.aesIv.length = Block.size

/-- With a password a template can be built, and its key and register have the lengths that the
    cipher asks for. -/
theorem exists_keyed_build (header : BlockHeader) (method : BlockMethod)
    (h : header.password ≠ []) : ∃ job, build header method = .ok job ∧ job.IsKeyed := by
  obtain ⟨key, s, hkey, hkeyLength, register, hregister, hregisterLength⟩ :=
    KeyStream.read_key_register
      (KeyStream.baseOf header.password method.salt KeyStream.standardIterations) method.keySize
  have hstart : KeyStream.start header.password method.salt KeyStream.standardIterations =
      .ok ⟨KeyStream.baseOf header.password method.salt KeyStream.standardIterations, [], 0, 0⟩ := by
    simp [KeyStream.start, h, KeyStream.standardIterations]
  have hlift : ∀ {α : Type} (x : α),
      Except.mapError TemplateError.crypto (.ok x) = .ok x := fun _ => rfl
  simp only [build, hstart, hkey, hregister, hlift, bind, Except.bind, pure, Except.pure]
  exact ⟨_, rfl, hkeyLength, hregisterLength⟩

theorem exists_build (header : BlockHeader) (method : BlockMethod) (h : header.password ≠ []) :
    ∃ job, build header method = .ok job := by
  obtain ⟨job, hbuild, -⟩ := exists_keyed_build header method h
  exact ⟨job, hbuild⟩

/-! ## Templates that were built -/

/-- All but the keys is taken over or computed from what is taken over. -/
theorem eq_of_build {header : BlockHeader} {method : BlockMethod} {job : JobTemplate}
    (h : build header method = .ok job) :
    ∃ aesKey aesIv, job =
      { height := header.height
        timestamp := header.timestamp
        method := header.method
        indication := header.indication
        difficulty := header.difficulty
        minRange := header.minRange
        maxRange := header.maxRange
        xorKey := method.xorKey
        keySize := method.keySize
        aesKey, aesIv
        rounds := method.rounds
        easyValues := (EasyBlock.values header.minRange header.maxRange).toArray } := by
  simp only [build, bind, Except.bind] at h
  -- the key stream may not start, or give no key or no register, and then there is no template
  split at h
  · cases h
  · split at h
    · cases h
    · split at h
      · cases h
      · exact ⟨_, _, (Except.ok.inj h).symm⟩

/-- The template came out of a header and a method. This is the only way in which a program comes
    by a template. -/
def IsBuilt (job : JobTemplate) : Prop := ∃ header method, build header method = .ok job

theorem IsBuilt.easyValues_eq {job : JobTemplate} (h : job.IsBuilt) :
    job.easyValues = (EasyBlock.values job.minRange job.maxRange).toArray := by
  obtain ⟨header, method, hbuild⟩ := h
  obtain ⟨aesKey, aesIv, rfl⟩ := eq_of_build hbuild
  rfl

/-- What is relied on of the easy values of a template: the binary search needs their order, a
    share that they are in the range, and a draw of an index that they are few. -/
structure IsLaidOut (job : JobTemplate) : Prop where
  ascending : job.easyValues.toList.Pairwise (· < ·)
  mem_range : ∀ v ∈ job.easyValues, job.minRange ≤ v ∧ v ≤ job.maxRange
  size_le : job.easyValues.size ≤ EasyBlock.maxCount

/-- The easy values are laid out in the range, at whatever offsets. Those of a template that was
    built come from fractions that are cut to integers, and how they are cut plays no part. -/
def IsSpreadOut (job : JobTemplate) : Prop :=
  ∃ offset, job.easyValues = (EasyBlock.valuesBy offset job.minRange job.maxRange).toArray

theorem IsBuilt.isSpreadOut {job : JobTemplate} (h : job.IsBuilt) : job.IsSpreadOut :=
  ⟨_, h.easyValues_eq⟩

/-- What the search asks of easy values holds wherever they are placed. -/
theorem IsSpreadOut.isLaidOut {job : JobTemplate} (h : job.IsSpreadOut) : job.IsLaidOut := by
  obtain ⟨offset, heq⟩ := h
  refine ⟨?_, ?_, ?_⟩
  · rw [heq]
    exact EasyBlock.valuesBy_pairwise_lt _ _ _
  · intro v hv
    rw [heq, List.mem_toArray] at hv
    exact EasyBlock.mem_of_mem_valuesBy hv
  · rw [heq, List.size_toArray]
    exact EasyBlock.length_valuesBy_le _ _ _

theorem IsBuilt.isLaidOut {job : JobTemplate} (h : job.IsBuilt) : job.IsLaidOut :=
  h.isSpreadOut.isLaidOut

theorem IsLaidOut.isEasyValue_iff {job : JobTemplate} (h : job.IsLaidOut) (v : Int64) :
    job.isEasyValue v = true ↔ v ∈ job.easyValues :=
  searchFrom_eq_true_iff h.ascending v

/-- No easy value occurs twice. -/
theorem IsLaidOut.nodup {job : JobTemplate} (h : job.IsLaidOut) :
    job.easyValues.toList.Nodup :=
  h.ascending.imp fun hlt => Int64.ne_of_lt hlt

/-- A range with more integers than there are easy values has one that is not easy. -/
theorem exists_notMem_easyValues {job : JobTemplate}
    (hcover : job.easyValuesCoverRange = false) :
    ∃ v, (job.minRange ≤ v ∧ v ≤ job.maxRange) ∧ v ∉ job.easyValues := by
  by_contra hnone
  have hall : ∀ v, job.minRange ≤ v ∧ v ≤ job.maxRange → v ∈ job.easyValues :=
    fun v hv => by_contra fun hnot => hnone ⟨v, hv, hnot⟩
  have hnodup : (EasyBlock.integers job.minRange job.maxRange).Nodup :=
    (EasyBlock.integers_pairwise_lt _ _).imp fun hlt => Int64.ne_of_lt hlt
  have hsub : EasyBlock.integers job.minRange job.maxRange ⊆ job.easyValues.toList :=
    fun v hv => Array.mem_toList_iff.mpr (hall v (EasyBlock.mem_integers_iff.mp hv))
  -- so there are no more integers than easy values
  have hlength := (List.subperm_of_subset hnodup hsub).length_le
  rw [EasyBlock.length_integers, Array.length_toList] at hlength
  have hmore := of_decide_eq_false hcover
  omega

end JobTemplate
end SoloMiner
