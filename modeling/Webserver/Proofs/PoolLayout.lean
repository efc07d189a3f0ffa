import Webserver.HashBucket
import Webserver.Library.Chain

/-! Where the slots of a pool lie: each in a block behind its link, apart from one
another and from what `curSlot_` and `lastSlot_` bound. -/

namespace Webserver
open Library

open HashBucket (blockRegion)

def slotRegion (width : Nat) (slot : UInt64) : Region := ⟨slot.toNat, width⟩

namespace MemoryPool

def unused (width : Nat) (pool : MemoryPool) : Region :=
  ⟨pool.curSlot_.toNat, if pool.exhausted then 0 else pool.lastSlot_.toNat + width - 1 - pool.curSlot_.toNat⟩

structure Width (width : Nat) : Prop where
  multiple : 8 ∣ width
  positive : 0 < width
  small : width ≤ 512

structure Sized (width : Nat) (pool : MemoryPool) : Prop where
  block : pool.BlockSize_ = 4096
  slot : pool.SlotSize_.toNat = width

structure Placed (width : Nat) (slot block : UInt64) : Prop where
  header : block.toNat + 8 ≤ slot.toNat
  inside : slot.toNat + width ≤ block.toNat + 4096

structure Current (width : Nat) (pool : MemoryPool) (block : UInt64) : Prop where
  aligned : 8 ∣ pool.curSlot_.toNat
  header : block.toNat + 8 ≤ pool.curSlot_.toNat
  mark : pool.lastSlot_.toNat + width = block.toNat + 4096 + 1

/-- Where the blocks and the slots that were handed out lie. -/
structure Laid (width : Nat) (pool : MemoryPool) (blocks held : List UInt64) : Prop where
  sized : Sized width pool
  bounded : ∀ block ∈ blocks, block.toNat + 4096 < UInt64.size
  aligned : ∀ slot ∈ held, 8 ∣ slot.toNat
  placed : ∀ slot ∈ held, ∃ block ∈ blocks, Placed width slot block
  apart : held.Pairwise fun first second => (slotRegion width first).Apart (slotRegion width second)
  current : pool.exhausted = false → ∃ block ∈ blocks, Current width pool block
  spare : ∀ slot ∈ held, (slotRegion width slot).Apart (pool.unused width)

section Arithmetic
variable {width : Nat} {pool : MemoryPool}

theorem exhausted_iff : pool.exhausted = true ↔ pool.lastSlot_.toNat ≤ pool.curSlot_.toNat := by
  rw [exhausted, decide_eq_true_iff, ge_iff_le, UInt64.le_iff_toNat_le]

theorem not_exhausted_iff : pool.exhausted = false ↔ pool.curSlot_.toNat < pool.lastSlot_.toNat := by
  rw [← Bool.not_eq_true, exhausted_iff, Nat.not_le]

/-- The padding keeps the alignment and is less than a slot, whether or not the
subtraction wraps. -/
theorem padPointer_spec {p align : UInt64} (aligned : 8 ∣ p.toNat) (multiple : 8 ∣ align.toNat)
    (positive : 0 < align.toNat) : 8 ∣ (padPointer p align).toNat ∧ (padPointer p align).toNat < align.toNat := by
  rw [padPointer, UInt64.toNat_mod]
  refine ⟨(Nat.dvd_mod_iff multiple).mpr ?_, Nat.mod_lt _ positive⟩
  have size : 8 ∣ 2 ^ 64 := by decide
  rw [UInt64.toNat_sub, Nat.dvd_mod_iff size]
  exact (Nat.dvd_add_right (Nat.dvd_sub size aligned)).mpr multiple

/-- A new block has room for a slot behind its link. -/
theorem linkBlock_spec (range : Width width) (sized : Sized width pool) {newBlock : UInt64}
    (aligned : 8 ∣ newBlock.toNat) (bounded : newBlock.toNat + 4096 < UInt64.size) :
    Current width (pool.linkBlock newBlock) newBlock ∧ (pool.linkBlock newBlock).exhausted = false := by
  have body : (newBlock + sizeofSlot).toNat = newBlock.toNat + 8 := by
    rw [UInt64.toNat_add]
    exact Nat.mod_eq_of_lt (Nat.lt_of_le_of_lt (Nat.add_le_add_left (by decide) _) bounded)
  have multiple := range.multiple
  have positive := range.positive
  have small := range.small
  rw [← sized.slot] at multiple positive small
  obtain ⟨padded, short⟩ := padPointer_spec (body ▸ (Nat.dvd_add_left (by decide)).mpr aligned) multiple positive
  have current : (pool.linkBlock newBlock).curSlot_.toNat =
      newBlock.toNat + 8 + (padPointer (newBlock + sizeofSlot) pool.SlotSize_).toNat := by
    change (newBlock + sizeofSlot + _).toNat = _
    rw [UInt64.toNat_add, body]
    exact Nat.mod_eq_of_lt (by change _ < UInt64.size; omega)
  have last : (pool.linkBlock newBlock).lastSlot_.toNat + width = newBlock.toNat + 4096 + 1 := by
    change (newBlock + pool.BlockSize_ - pool.SlotSize_ + 1).toNat + width = _
    have whole : (newBlock + pool.BlockSize_).toNat = newBlock.toNat + 4096 := by
      rw [sized.block, UInt64.toNat_add]
      exact Nat.mod_eq_of_lt bounded
    rw [UInt64.toNat_add, UInt64.toNat_sub, whole, sized.slot]
    change ((2 ^ 64 - width + (newBlock.toNat + 4096)) % 2 ^ 64 + 1) % 2 ^ 64 + width = _
    change newBlock.toNat + 4096 < 2 ^ 64 at bounded
    have := range.positive
    have := range.small
    omega
  have room := range.small
  rw [sized.slot] at short
  refine ⟨⟨?_, by omega, last⟩, ?_⟩
  · rw [current]
    exact (Nat.dvd_add_left padded).mpr ((Nat.dvd_add_left (by decide)).mpr aligned)
  · rw [not_exhausted_iff]
    omega

theorem takeSlot_curSlot_ (range : Width width) (sized : Sized width pool) {block : UInt64}
    (current : Current width pool block) (bounded : block.toNat + 4096 < UInt64.size)
    (room : pool.exhausted = false) : pool.takeSlot.2.curSlot_.toNat = pool.curSlot_.toNat + width := by
  have step : (pool.SlotSize_ / sizeofSlot * sizeofSlot).toNat = width := by
    rw [UInt64.toNat_mul, UInt64.toNat_div, sized.slot]
    change width / 8 * 8 % 2 ^ 64 = width
    rw [Nat.div_mul_cancel range.multiple]
    exact Nat.mod_eq_of_lt (Nat.lt_of_le_of_lt range.small (by decide))
  change (pool.curSlot_ + pool.SlotSize_ / sizeofSlot * sizeofSlot).toNat = _
  rw [not_exhausted_iff] at room
  have mark := current.mark
  rw [UInt64.toNat_add, step]
  exact Nat.mod_eq_of_lt (by change _ < UInt64.size; omega)

end Arithmetic

theorem init_laid {width : UInt64} : Laid width.toNat (init width) [] [] where
  sized := ⟨rfl, rfl⟩
  bounded := by simp
  aligned := by simp
  placed := by simp
  apart := .nil
  current room := absurd (not_exhausted_iff.mp room) (Nat.lt_irrefl _)
  spare := by simp

theorem Placed.within {width : Nat} {slot block : UInt64} (placed : Placed width slot block) :
    (slotRegion width slot).Within (blockRegion block) :=
  Region.within_of_le (Nat.le_trans (Nat.le_add_right _ _) placed.header) placed.inside

theorem Current.unused_within {width : Nat} {pool : MemoryPool} {block : UInt64} (current : Current width pool block)
    (room : pool.exhausted = false) : (pool.unused width).Within (blockRegion block) := by
  have before := not_exhausted_iff.mp room
  have header := current.header
  have mark := current.mark
  rw [unused, if_neg (by simp [room])]
  apply Region.within_of_le
  · exact Nat.le_trans (Nat.le_add_right _ _) header
  · dsimp only [blockRegion]
    omega

namespace Laid
variable {width : Nat} {pool : MemoryPool} {blocks held : List UInt64}

theorem setFreeList (laid : Laid width pool blocks held) (head : UInt64) :
    Laid width { pool with freeList_ := head } blocks held :=
  ⟨⟨laid.sized.block, laid.sized.slot⟩, laid.bounded, laid.aligned, laid.placed, laid.apart,
    fun room => (laid.current room).imp fun _ current => ⟨current.1, ⟨current.2.aligned, current.2.header, current.2.mark⟩⟩,
    laid.spare⟩

theorem perm {other : List UInt64} (laid : Laid width pool blocks held) (same : held.Perm other) :
    Laid width pool blocks other :=
  ⟨laid.sized, laid.bounded, fun slot member => laid.aligned slot (same.mem_iff.mpr member),
    fun slot member => laid.placed slot (same.mem_iff.mpr member),
    (same.pairwise_iff fun apart => apart.symm).mp laid.apart, laid.current,
    fun slot member => laid.spare slot (same.mem_iff.mpr member)⟩

theorem sublist {other : List UInt64} (laid : Laid width pool blocks held) (fewer : other.Sublist held) :
    Laid width pool blocks other :=
  ⟨laid.sized, laid.bounded, fun slot member => laid.aligned slot (fewer.subset member),
    fun slot member => laid.placed slot (fewer.subset member), laid.apart.sublist fewer, laid.current,
    fun slot member => laid.spare slot (fewer.subset member)⟩

theorem nodup (laid : Laid width pool blocks held) (range : Width width) : held.Nodup :=
  laid.apart.imp fun apart same => apart.start_ne range.positive range.positive (congrArg UInt64.toNat same)

theorem ne_null (laid : Laid width pool blocks held) {slot : UInt64} (member : slot ∈ held) : slot ≠ nullptr := by
  obtain ⟨block, _, placed⟩ := laid.placed slot member
  have header := placed.header
  rintro rfl
  change block.toNat + 8 ≤ 0 at header
  omega

theorem start_mem (range : Width width) (slot : UInt64) : slot.toNat ∈ slotRegion width slot :=
  ⟨Nat.le_refl _, Nat.lt_add_of_pos_right range.positive⟩

theorem not_held (laid : Laid width pool blocks held) (range : Width width) {newBlock : UInt64}
    (apart : ∀ block ∈ blocks, (blockRegion block).Apart (blockRegion newBlock)) : newBlock ∉ held := by
  intro member
  obtain ⟨block, among, placed⟩ := laid.placed newBlock member
  exact apart block among _ (placed.within _ (start_mem range newBlock)) ⟨Nat.le_refl _, Nat.lt_add_of_pos_right (Nat.succ_pos _)⟩

/-- The next slot comes out of the unused part, which shrinks by it. -/
theorem take (laid : Laid width pool blocks held) (range : Width width) (room : pool.exhausted = false) :
    Laid width pool.takeSlot.2 blocks (pool.takeSlot.1 :: held) := by
  obtain ⟨block, member, current⟩ := laid.current room
  have bounded := laid.bounded block member
  have step := takeSlot_curSlot_ range laid.sized current bounded room
  have header := current.header
  have mark := current.mark
  have positive := range.positive
  have before := not_exhausted_iff.mp room
  have last : pool.takeSlot.2.lastSlot_ = pool.lastSlot_ := rfl
  have whole : pool.unused width = ⟨pool.curSlot_.toNat, pool.lastSlot_.toNat + width - 1 - pool.curSlot_.toNat⟩ := by
    rw [unused, if_neg (by simp [room])]
  have part : (slotRegion width pool.curSlot_).Within (pool.unused width) := by
    rw [whole]
    apply Region.within_of_le
    · exact Nat.le_refl _
    · dsimp only [slotRegion]
      omega
  have left : (pool.takeSlot.2.unused width).Within (pool.unused width) := by
    rw [whole, unused, step, last]
    apply Region.within_of_le
    · exact Nat.le_add_right _ _
    · dsimp only
      split <;> omega
  have split : (slotRegion width pool.curSlot_).Apart (pool.takeSlot.2.unused width) := by
    rw [Region.apart_iff, unused, step]
    exact .inr (.inr (.inl (Nat.le_refl _)))
  refine ⟨⟨laid.sized.block, laid.sized.slot⟩, laid.bounded, ?_, ?_, ?_, ?_, ?_⟩
  · rintro slot (_ | ⟨_, old⟩)
    · exact current.aligned
    · exact laid.aligned slot old
  · rintro slot (_ | ⟨_, old⟩)
    · exact ⟨block, member, header, by change pool.curSlot_.toNat + width ≤ _; omega⟩
    · exact laid.placed slot old
  · refine .cons (fun slot old => ?_) laid.apart
    exact ((laid.spare slot old).within (Region.within_refl _) part).symm
  · intro remains
    refine ⟨block, member, ?_, ?_, ?_⟩
    · rw [step]
      exact (Nat.dvd_add_left range.multiple).mpr current.aligned
    · rw [step]
      omega
    · rw [last]
      exact mark
  · rintro slot (_ | ⟨_, old⟩)
    · exact split
    · exact (laid.spare slot old).within (Region.within_refl _) left

/-- A new block replaces the current one; what was left of that is given up. -/
theorem link (laid : Laid width pool blocks held) (range : Width width) {newBlock : UInt64} (aligned : 8 ∣ newBlock.toNat)
    (bounded : newBlock.toNat + 4096 < UInt64.size)
    (apart : ∀ block ∈ blocks, (blockRegion block).Apart (blockRegion newBlock)) :
    Laid width (pool.linkBlock newBlock) (newBlock :: blocks) held := by
  obtain ⟨current, room⟩ := linkBlock_spec range laid.sized aligned bounded
  refine ⟨⟨laid.sized.block, laid.sized.slot⟩, ?_, laid.aligned, ?_, laid.apart, ?_, ?_⟩
  · rintro block (_ | ⟨_, old⟩)
    · exact bounded
    · exact laid.bounded block old
  · intro slot member
    obtain ⟨block, old, placed⟩ := laid.placed slot member
    exact ⟨block, List.mem_cons_of_mem _ old, placed⟩
  · exact fun _ => ⟨newBlock, List.mem_cons_self, current⟩
  · intro slot member
    obtain ⟨block, old, placed⟩ := laid.placed slot member
    exact (apart block old).within placed.within (current.unused_within room)

end Laid
end MemoryPool
end Webserver
