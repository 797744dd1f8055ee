import Mathlib.Logic.Function.Iterate
import SoloMiner.Cipher.KeyStream

/-! # Layout of a key stream

    The blocks of a stream are made in groups, as reads need them. Where a stream stands is told
    by three numbers: the first block of the last group, how many blocks the group has, and how
    many bytes at its end are unread. What a read gives, and whether it fails, follows from these
    numbers and the blocks. -/

namespace SoloMiner

/-! ## Blocks -/

theorem Sha1.length_digest (message : Bytes) : (digest message).length = size := rfl

namespace KeyStream

theorem length_blocks (base : Bytes) (k n : Nat) :
    (blocks base k n).length = n * Sha1.size := by
  induction n generalizing k with
  | zero => simp [blocks]
  | succ n ih =>
    have hcons : blocks base k (n + 1) = block base k ++ blocks base (k + 1) n := rfl
    rw [hcons, List.length_append, ih, block, Sha1.length_digest, Nat.succ_mul, Nat.add_comm]

/-- The blocks made for a read hold what it needs, and less than one block more. -/
theorem blockCount_mul_size (needed : Nat) :
    needed ≤ blockCount needed * Sha1.size ∧
      blockCount needed * Sha1.size < needed + Sha1.size := by
  have hdiv := Nat.div_add_mod (needed + Sha1.size - 1) Sha1.size
  have hmod := Nat.mod_lt (needed + Sha1.size - 1) (show 0 < Sha1.size by decide)
  simp only [blockCount, Sha1.size] at *
  omega

theorem length_take_blocks (base : Bytes) (k needed : Nat) :
    ((blocks base k (blockCount needed)).take needed).length = needed := by
  rw [List.length_take, length_blocks]
  exact Nat.min_eq_left (blockCount_mul_size needed).1

/-! ## Groups of blocks -/

/-- The last group of blocks made: `count` blocks from number `first` on. The last `unread` of
    their bytes were not read yet. -/
structure LastGroup where
  first : Nat
  count : Nat
  unread : Nat
  deriving DecidableEq, Repr

namespace LastGroup

/-- Nothing was made yet. -/
def none : LastGroup := ⟨0, 0, 0⟩

/-- More blocks were needed than there are. From here on no read of at least one byte succeeds. -/
def exhausted : LastGroup := ⟨lastBlock + 1, 0, 0⟩

def bytes (base : Bytes) (g : LastGroup) : Bytes := blocks base g.first g.count

/-- Number of the block behind the group. -/
def next (g : LastGroup) : Nat := g.first + g.count

/-- The group made for `needed` bytes, of which those at its end that were not needed are left
    unread. -/
def fresh (g : LastGroup) (needed : Nat) : LastGroup :=
  ⟨g.next, blockCount needed, blockCount needed * Sha1.size - needed⟩

/-- The last group behind a read of `count` bytes. A read inside the unread bytes takes them from
    the group, one whose kept bytes would lie outside of it changes nothing, and any other makes
    a new group or uses the stream up. -/
def after (g : LastGroup) (count : Nat) : LastGroup :=
  if count ≤ g.unread then { g with unread := g.unread - count }
  else if g.count * Sha1.size < 2 * g.unread then g
  else if g.next + blockCount (count - g.unread) ≤ lastBlock + 1 then g.fresh (count - g.unread)
  else exhausted

@[simp] theorem length_bytes (base : Bytes) (g : LastGroup) :
    (g.bytes base).length = g.count * Sha1.size :=
  length_blocks base g.first g.count

/-- A read is of unread bytes, overruns the group, or goes on to new blocks, of which there are
    enough or not. -/
theorem read_cases (g : LastGroup) (count : Nat) :
    count ≤ g.unread ∨
      g.unread < count ∧
        (g.count * Sha1.size < 2 * g.unread ∨
          2 * g.unread ≤ g.count * Sha1.size ∧
            (g.next + blockCount (count - g.unread) ≤ lastBlock + 1 ∨
              lastBlock + 1 < g.next + blockCount (count - g.unread))) := by
  omega

theorem after_of_le {g : LastGroup} {count : Nat} (h : count ≤ g.unread) :
    g.after count = { g with unread := g.unread - count } :=
  if_pos h

variable {g : LastGroup} {count : Nat} (more : g.unread < count)
include more

theorem after_of_overrun (h : g.count * Sha1.size < 2 * g.unread) : g.after count = g := by
  rw [after, if_neg (Nat.not_le.mpr more), if_pos h]

variable (half : 2 * g.unread ≤ g.count * Sha1.size)
include half

theorem after_of_fresh (h : g.next + blockCount (count - g.unread) ≤ lastBlock + 1) :
    g.after count = g.fresh (count - g.unread) := by
  rw [after, if_neg (Nat.not_le.mpr more), if_neg (Nat.not_lt.mpr half), if_pos h]

theorem after_of_exhausted (h : lastBlock + 1 < g.next + blockCount (count - g.unread)) :
    g.after count = exhausted := by
  rw [after, if_neg (Nat.not_le.mpr more), if_neg (Nat.not_lt.mpr half), if_neg (Nat.not_le.mpr h)]

end LastGroup

/-! ## Single reads -/

/-- A read from new blocks, while there are enough of them. -/
theorem readNew_of_le {s : KeyStream} (taken : Bytes) {needed : Nat}
    (h : s.next + blockCount needed ≤ lastBlock + 1) :
    s.readNew taken needed =
      let made := blocks s.base s.next (blockCount needed)
      (.ok (taken ++ made.take needed),
        if needed < blockCount needed * Sha1.size then
          { s with group := made, used := needed, next := s.next + blockCount needed }
        else { s with group := [], used := 0, next := s.next + blockCount needed }) := by
  simp only [readNew, if_neg (Nat.not_lt.mpr h), length_blocks]

/-- A read from new blocks, if there are not enough of them. -/
theorem readNew_of_lt {s : KeyStream} (taken : Bytes) {needed : Nat}
    (h : lastBlock + 1 < s.next + blockCount needed) :
    s.readNew taken needed =
      (.error .exhausted, { s with group := [], used := 0, next := lastBlock + 1 }) := by
  rw [readNew, if_pos h]

/-- The stream has base value `base`, and `g` is the last group that was made. So three numbers
    tell all there is to know of a stream. -/
structure At (base : Bytes) (g : LastGroup) (s : KeyStream) : Prop where
  base_eq : s.base = base
  next_eq : s.next = g.next
  unread_le : g.unread ≤ g.count * Sha1.size
  /-- A group is kept until all of it was read. -/
  group_eq : s.group = if g.unread = 0 then [] else g.bytes base
  used_eq : s.used + g.unread = s.group.length

namespace At

variable {base : Bytes} {g : LastGroup} {s : KeyStream} {count : Nat}

theorem start (base : Bytes) : At base .none ⟨base, [], 0, 0⟩ :=
  ⟨rfl, rfl, Nat.le_refl _, rfl, rfl⟩

theorem leftover_eq (h : At base g s) : s.leftover = g.unread := by
  rw [leftover, ← h.used_eq]
  exact Nat.add_sub_cancel_left _ _

theorem group_of_pos (h : At base g s) (hpos : 0 < g.unread) : s.group = g.bytes base := by
  rw [h.group_eq, if_neg (Nat.ne_of_gt hpos)]

theorem isEmpty_of_pos (h : At base g s) (hpos : 0 < g.unread) : s.group.isEmpty = false := by
  have hlength := h.used_eq
  rw [List.isEmpty_eq_false_iff]
  exact List.ne_nil_of_length_pos (by omega)

/-- A read of no more than is unread takes the next bytes of the group, and nothing else changes. -/
theorem read_unread (h : At base g s) (hpos : 0 < count) (hle : count ≤ g.unread) :
    s.read count =
      (.ok (((g.bytes base).drop ((g.bytes base).length - g.unread)).take count),
        if count < g.unread then { s with used := s.used + count }
        else { s with group := [], used := 0 }) := by
  have hunread : 0 < g.unread := Nat.lt_of_lt_of_le hpos hle
  have hused : s.used = (g.bytes base).length - g.unread := by
    rw [← h.group_of_pos hunread, ← h.used_eq]
    exact (Nat.add_sub_cancel _ _).symm
  rw [← hused, ← h.group_of_pos hunread]
  -- the bytes are the same whether the group is kept or was read to its end
  simp only [read, if_neg (Nat.ne_of_gt hpos), h.isEmpty_of_pos hunread, Bool.false_eq_true,
    if_false, h.leftover_eq]
  by_cases hlt : count < g.unread
  · rw [if_pos hlt, if_pos hlt]
  · rw [if_neg hlt, if_pos (Nat.le_antisymm hle (Nat.not_lt.mp hlt)), if_neg hlt]

/-- A read that would begin outside the group fails, and changes nothing: it looks for the kept
    bytes as far from the front as they are many. -/
theorem read_overrun (h : At base g s) (hmore : g.unread < count)
    (hpast : g.count * Sha1.size < 2 * g.unread) :
    s.read count = (.error .leftoverOverrun, s) := by
  have hunread : 0 < g.unread := by omega
  have hpast' : s.group.length < 2 * g.unread := by
    rw [h.group_of_pos hunread, LastGroup.length_bytes]
    exact hpast
  simp only [read, if_neg (show count ≠ 0 by omega), h.isEmpty_of_pos hunread, Bool.false_eq_true,
    if_false, h.leftover_eq, if_neg (Nat.lt_asymm hmore), if_neg (Nat.ne_of_gt hmore),
    if_pos hpast']

/-- A read that goes on to new blocks takes as many bytes as are unread, but from an offset that
    is their number. -/
theorem read_more (h : At base g s) (hmore : g.unread < count)
    (hhalf : 2 * g.unread ≤ g.count * Sha1.size) :
    s.read count =
      s.readNew (((g.bytes base).drop g.unread).take g.unread) (count - g.unread) := by
  have hcount : count ≠ 0 := by omega
  rcases Nat.eq_zero_or_pos g.unread with hzero | hunread
  · -- nothing is kept, and the read begins with new blocks
    have hgroup : s.group.isEmpty = true := by rw [h.group_eq, if_pos hzero]; rfl
    simp only [read, if_neg hcount, hgroup, if_true, hzero, List.take_zero, Nat.sub_zero]
  · have hhalf' : 2 * g.unread ≤ s.group.length := by
      rw [h.group_of_pos hunread, LastGroup.length_bytes]
      exact hhalf
    rw [← h.group_of_pos hunread]
    simp only [read, if_neg hcount, h.isEmpty_of_pos hunread, Bool.false_eq_true, if_false,
      h.leftover_eq, if_neg (Nat.lt_asymm hmore), if_neg (Nat.ne_of_gt hmore),
      if_neg (Nat.not_lt.mpr hhalf')]

/-- With enough blocks left, the read is completed from new ones, which are the last group then. -/
theorem read_fresh (h : At base g s) (hmore : g.unread < count)
    (hhalf : 2 * g.unread ≤ g.count * Sha1.size)
    (hblocks : g.next + blockCount (count - g.unread) ≤ lastBlock + 1) :
    (s.read count).1 =
        .ok (((g.bytes base).drop g.unread).take g.unread ++
          ((g.fresh (count - g.unread)).bytes base).take (count - g.unread)) ∧
      At base (g.fresh (count - g.unread)) (s.read count).2 := by
  have hmade := blockCount_mul_size (count - g.unread)
  rw [h.read_more hmore hhalf, readNew_of_le _ (by rw [h.next_eq]; exact hblocks), h.base_eq,
    h.next_eq]
  refine ⟨rfl, ?_⟩
  -- the new group is kept if any of it is left unread
  by_cases hrest : count - g.unread < blockCount (count - g.unread) * Sha1.size
  · simp only [if_pos hrest]
    refine ⟨rfl, rfl, Nat.sub_le _ _, ?_, ?_⟩
    · rw [if_neg]
      · rfl
      · exact Nat.sub_ne_zero_of_lt hrest
    · show _ + (blockCount (count - g.unread) * Sha1.size - (count - g.unread)) =
        (blocks base g.next (blockCount (count - g.unread))).length
      rw [length_blocks]
      exact Nat.add_sub_cancel' hmade.1
  · have hzero : (g.fresh (count - g.unread)).unread = 0 :=
      Nat.sub_eq_zero_of_le (Nat.not_lt.mp hrest)
    simp only [if_neg hrest]
    refine ⟨rfl, rfl, Nat.sub_le _ _, ?_, ?_⟩
    · rw [if_pos hzero]
    · rw [hzero]
      rfl

/-- With too few blocks left, the read fails, and the stream is used up. -/
theorem read_exhausted (h : At base g s) (hmore : g.unread < count)
    (hhalf : 2 * g.unread ≤ g.count * Sha1.size)
    (hblocks : lastBlock + 1 < g.next + blockCount (count - g.unread)) :
    (s.read count).1 = .error .exhausted ∧ At base .exhausted (s.read count).2 := by
  have hlt : lastBlock + 1 < s.next + blockCount (count - g.unread) := by
    rw [h.next_eq]
    exact hblocks
  rw [h.read_more hmore hhalf, readNew_of_lt _ hlt]
  exact ⟨rfl, h.base_eq, rfl, Nat.le_refl _, rfl, rfl⟩

/-- Unread bytes that are read are unread no more. -/
theorem at_read_unread (h : At base g s) (hpos : 0 < count) (hle : count ≤ g.unread) :
    At base { g with unread := g.unread - count } (s.read count).2 := by
  have hunread : 0 < g.unread := Nat.lt_of_lt_of_le hpos hle
  have hused := h.used_eq
  rw [h.read_unread hpos hle]
  -- the group is kept until its last byte is read
  by_cases hlt : count < g.unread
  · simp only [if_pos hlt]
    refine ⟨h.base_eq, h.next_eq, Nat.le_trans (Nat.sub_le _ _) h.unread_le, ?_, ?_⟩
    · rw [if_neg (Nat.sub_ne_zero_of_lt hlt)]
      exact h.group_of_pos hunread
    · show s.used + count + (g.unread - count) = s.group.length
      omega
  · have hzero : g.unread - count = 0 := Nat.sub_eq_zero_of_le (Nat.not_lt.mp hlt)
    simp only [if_neg hlt, hzero]
    exact ⟨h.base_eq, h.next_eq, Nat.zero_le _, rfl, rfl⟩

/-- Whatever comes of a read, the stream stands where the numbers say, in each of the four cases. -/
theorem read (h : At base g s) (count : Nat) : At base (g.after count) (s.read count).2 := by
  rcases g.read_cases count with hle | ⟨hmore, hpast | ⟨hhalf, hge | hlt⟩⟩
  · rw [LastGroup.after_of_le hle]
    rcases Nat.eq_zero_or_pos count with rfl | hpos
    · exact h
    · exact h.at_read_unread hpos hle
  · rw [LastGroup.after_of_overrun hmore hpast, h.read_overrun hmore hpast]
    exact h
  · rw [LastGroup.after_of_fresh hmore hhalf hge]
    exact (h.read_fresh hmore hhalf hge).2
  · rw [LastGroup.after_of_exhausted hmore hhalf hlt]
    exact (h.read_exhausted hmore hhalf hlt).2

/-- A read that succeeds gives as many bytes as were asked for. -/
theorem length_of_read (h : At base g s) {bytes : Bytes} (hread : (s.read count).1 = .ok bytes) :
    bytes.length = count := by
  have hunread_le := h.unread_le
  rcases g.read_cases count with hle | ⟨hmore, hpast | ⟨hhalf, hge | hlt⟩⟩
  · rcases Nat.eq_zero_or_pos count with rfl | hpos
    · obtain rfl := Except.ok.inj hread
      rfl
    · rw [h.read_unread hpos hle] at hread
      obtain rfl := Except.ok.inj hread
      rw [List.length_take, List.length_drop, LastGroup.length_bytes]
      omega
  · rw [h.read_overrun hmore hpast] at hread
    cases hread
  · -- the bytes that were unread, and the others from the new group
    rw [(h.read_fresh hmore hhalf hge).1] at hread
    obtain rfl := Except.ok.inj hread
    have hmade : (((g.fresh (count - g.unread)).bytes base).take (count - g.unread)).length =
        count - g.unread :=
      length_take_blocks base g.next (count - g.unread)
    rw [List.length_append, hmade, List.length_take, List.length_drop, LastGroup.length_bytes]
    omega
  · rw [(h.read_exhausted hmore hhalf hlt).1] at hread
    cases hread

end At

/-! ## Sequences of reads -/

/-- The stream behind reads of these lengths, whatever came of them. -/
def behind (s : KeyStream) (counts : List Nat) : KeyStream :=
  counts.foldl (fun s count => (s.read count).2) s

/-- The last group made for reads of these lengths. -/
def LastGroup.behind (g : LastGroup) (counts : List Nat) : LastGroup :=
  counts.foldl LastGroup.after g

theorem At.behind {base : Bytes} {g : LastGroup} {s : KeyStream} (h : At base g s)
    (counts : List Nat) : At base (g.behind counts) (s.behind counts) := by
  induction counts generalizing g s with
  | nil => exact h
  | cons count counts ih => exact ih (h.read count)

/-- No block is left, so every read of at least one byte needs more than there are. -/
theorem LastGroup.lt_next_exhausted {count : Nat} (hpos : 0 < count) :
    lastBlock + 1 < exhausted.next + blockCount (count - exhausted.unread) := by
  have hneeded := (blockCount_mul_size count).1
  have hcount : 0 < blockCount count := by
    rcases Nat.eq_zero_or_pos (blockCount count) with hzero | hpos'
    · rw [hzero] at hneeded
      omega
    · exact hpos'
  exact Nat.lt_add_of_pos_right hcount

/-- A stream that is used up stays so. -/
theorem LastGroup.behind_exhausted (counts : List Nat) : exhausted.behind counts = exhausted := by
  induction counts with
  | nil => rfl
  | cons count counts ih =>
    have hafter : exhausted.after count = exhausted := by
      rcases Nat.eq_zero_or_pos count with rfl | hpos
      · exact after_of_le (Nat.le_refl _)
      · exact after_of_exhausted hpos (Nat.le_refl _) (lt_next_exhausted hpos)
    show (exhausted.after count).behind counts = exhausted
    rw [hafter, ih]

theorem rehash_eq_iterate (n : Nat) (bs : Bytes) : rehash n bs = Sha1.digest^[n] bs := by
  induction n generalizing bs with
  | zero => rfl
  | succ n ih => exact ih (Sha1.digest bs)

/-- What a read gives, behind any reads that came before. With `l` unread bytes at the end of the
    last group `group`, a read of no more than that takes the next of them. A longer one takes
    the `l` bytes from offset `l` of the group and the rest from new blocks, which are the last
    group from then on. It fails, and changes nothing, if the group ends before those bytes do;
    and it uses the stream up if it needs a block behind the last one. -/
theorem reads_follow_layout (password salt : Bytes) (iterations : Nat)
    (hpassword : password ≠ []) (hiterations : 1 ≤ iterations) :
    ∃ s, start password salt iterations = .ok s ∧ ∀ (earlier : List Nat) (count : Nat),
      let base := Sha1.digest^[max 1 (iterations - 1)] (password ++ salt)
      let t := s.behind earlier
      let g := LastGroup.none.behind earlier
      let group := g.bytes base
      let l := g.unread
      let n := blockCount (count - l)
      (t.used + l = t.group.length ∧
          ∀ bytes, (t.read count).1 = .ok bytes → bytes.length = count) ∧
        (count = 0 → t.read count = (.ok [], t)) ∧
        (0 < count → count ≤ l →
          (t.read count).1 = .ok ((group.drop (group.length - l)).take count) ∧
            g.after count = { g with unread := l - count }) ∧
        (l < count → group.length < 2 * l →
          t.read count = (.error .leftoverOverrun, t) ∧ g.after count = g) ∧
        (l < count → 2 * l ≤ group.length → g.next + n ≤ lastBlock + 1 →
          (t.read count).1 =
              .ok ((group.drop l).take l ++ (blocks base g.next n).take (count - l)) ∧
            g.after count = ⟨g.next, n, n * Sha1.size - (count - l)⟩) ∧
        (l < count → 2 * l ≤ group.length → lastBlock + 1 < g.next + n →
          (t.read count).1 = .error .exhausted ∧
            ∀ later more, 0 < more →
              (((t.read count).2.behind later).read more).1 = .error .exhausted) := by
  have hstart : start password salt iterations =
      .ok ⟨baseOf password salt iterations, [], 0, 0⟩ := by
    rw [start, if_neg (by simpa using hpassword), if_neg (by omega)]
  -- any reads behind a start leave the stream at the group that the numbers alone tell
  refine ⟨_, hstart, ?_⟩
  intro earlier count base t g group l n
  have hbase : baseOf password salt iterations = base := rehash_eq_iterate _ _
  have hat : At base g t := by
    rw [← hbase]
    exact (At.start _).behind earlier
  have hlength : group.length = g.count * Sha1.size := LastGroup.length_bytes base g
  rw [hlength]
  refine ⟨⟨hat.used_eq, fun bytes => hat.length_of_read⟩, ?_, ?_, ?_, ?_, ?_⟩
  · rintro rfl
    rfl
  · intro hpos hle
    rw [hat.read_unread hpos hle, ← hlength]
    exact ⟨rfl, LastGroup.after_of_le hle⟩
  · intro hmore hpast
    exact ⟨hat.read_overrun hmore hpast, LastGroup.after_of_overrun hmore hpast⟩
  · intro hmore hhalf hblocks
    exact ⟨(hat.read_fresh hmore hhalf hblocks).1, LastGroup.after_of_fresh hmore hhalf hblocks⟩
  · intro hmore hhalf hblocks
    -- every later read finds the stream used up
    obtain ⟨hread, hexhausted⟩ := hat.read_exhausted hmore hhalf hblocks
    refine ⟨hread, fun later more hpos => ?_⟩
    have hlater := hexhausted.behind later
    rw [LastGroup.behind_exhausted] at hlater
    exact (hlater.read_exhausted hpos (Nat.le_refl _) (LastGroup.lt_next_exhausted hpos)).1

/-- A key of 32 bytes and then a register of 16: the eight bytes left over of the second block
    are passed over, and eight of the first block are read again in their place. -/
theorem reads_follow_layout_key_register :
    ∃ s, start [1] [2] 100 = .ok s ∧
      let base := Sha1.digest^[99] [1, 2]
      ((s.behind [32]).read 16).1 =
        .ok (((blocks base 0 2).drop 8).take 8 ++ (blocks base 2 1).take 8) := by
  obtain ⟨s, hstart, hreads⟩ := reads_follow_layout [1] [2] 100 (by decide) (by decide)
  refine ⟨s, hstart, ?_⟩
  obtain ⟨-, -, -, -, hfresh, -⟩ := hreads [32] 16
  have hhalf : 2 * 8 ≤ (blocks (Sha1.digest^[99] [1, 2]) 0 2).length := by
    rw [length_blocks]
    decide
  exact (hfresh (by decide) hhalf (by decide)).1

end KeyStream
end SoloMiner
