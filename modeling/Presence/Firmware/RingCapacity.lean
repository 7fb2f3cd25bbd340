import Presence.Data.SkipList
import Presence.Firmware.PunchRecord

namespace Presence.Firmware

open Data

/-! # The size of the ring file

`ringCapacityBytes` and `ringFileRewritable` of `ring_buffer.h`, with a `size_t` of 64 bits.
-/

def kLfsCtzOverheadPerBlock : UInt64 := 8

def sizeofPunchRecord : UInt64 := UInt64.ofNat recordBytes

def ringCapacityBytes (blockSize blockCount usedBytes existingRingBytes slackBlocks
    minRecords : UInt64) : UInt64 :=
  if blockSize ≤ kLfsCtzOverheadPerBlock || blockCount == 0 then 0
  else
    let usedBlocks := (usedBytes + blockSize - 1) / blockSize
    if usedBlocks > blockCount then 0
    else
      let reclaim := existingRingBytes / blockSize
      let reclaim := if reclaim > usedBlocks then usedBlocks else reclaim
      let metadataBlocks := usedBlocks - reclaim
      if metadataBlocks + slackBlocks ≥ blockCount then 0
      else
        let ringBlocks := (blockCount - metadataBlocks - slackBlocks) / 2
        let bytes := ringBlocks * (blockSize - kLfsCtzOverheadPerBlock)
        let records := bytes / sizeofPunchRecord
        if records == 0 || records < minRecords then 0 else records * sizeofPunchRecord

def ringFileRewritable (blockSize blockCount usedBytes fileBytes slackBlocks : UInt64) : Bool :=
  if blockSize ≤ kLfsCtzOverheadPerBlock then false
  else
    let usedBlocks := (usedBytes + blockSize - 1) / blockSize
    if usedBlocks > blockCount then false
    else
      let perBlock := blockSize - kLfsCtzOverheadPerBlock
      let fileBlocks := (fileBytes + perBlock - 1) / perBlock
      blockCount - usedBlocks ≥ fileBlocks + slackBlocks

/-! ## Startup -/

def kLfsBlockSize : UInt64 := 4096

def kRingSlackBlocks : UInt64 := 2

def kRingMinRecords : UInt64 := 256

/-- What `LittleFsStorage::begin` reads, a missing ring file as one of no bytes. -/
structure Mounted where
  totalBytes : UInt64
  usedBytes : UInt64
  /-- What is in use once the ring file is removed. -/
  usedWithout : UInt64
  existing : UInt64
  bufferEmpty : Bool

/-- Whether the ring file is dropped, and the capacity, zero for a fault. -/
def Mounted.begin (mounted : Mounted) : Bool × UInt64 :=
  let blocks := mounted.totalBytes / kLfsBlockSize
  let dropped := mounted.existing ≥ kRingMinRecords * sizeofPunchRecord &&
    !ringFileRewritable kLfsBlockSize blocks mounted.usedBytes mounted.existing
      kRingSlackBlocks && mounted.bufferEmpty
  let existing := if dropped then 0 else mounted.existing
  let usedBytes := if dropped then mounted.usedWithout else mounted.usedBytes
  if existing ≥ kRingMinRecords * sizeofPunchRecord then
    (dropped, existing / sizeofPunchRecord * sizeofPunchRecord)
  else
    (dropped, ringCapacityBytes kLfsBlockSize blocks usedBytes existing kRingSlackBlocks
      kRingMinRecords)

/-! ## The file on littlefs -/

/-- What a file of so many blocks holds, at four bytes a pointer. -/
def ctzCapacity (blocks blockSize : Nat) : Nat := SkipList.capacity blockSize 4 blocks

def ctzBlocks (bytes blockSize : Nat) : Nat := SkipList.blocksFor blockSize 4 bytes

/-- The closed form that the host test computes. -/
theorem ctzCapacity_succ (count blockSize : Nat) : ctzCapacity (count + 1) blockSize =
    (count + 1) * blockSize - 4 * (2 * count - SkipList.popcount count) := by
  rw [ctzCapacity, SkipList.capacity, ← SkipList.sum_pointers, Nat.add_sub_cancel]

/-- What the filesystem reports for so many blocks in use. -/
def bytesOf (blockSize : UInt64) (blocks : Nat) : UInt64 :=
  UInt64.ofNat (blocks * blockSize.toNat)

/-! ## The arithmetic without bounds -/

/-- The records of half of what metadata and slack leave. -/
def budgetRecords (blockSize blockCount metadataBlocks slackBlocks : Nat) : Nat :=
  (blockCount - metadataBlocks - slackBlocks) / 2 * (blockSize - 8) / 60

/-- A quotient rounded up, where the sum does not overflow before the one is taken off. -/
theorem ceil_toNat {bytes unit : UInt64} (positive : 0 < unit.toNat)
    (fits : bytes.toNat + unit.toNat ≤ 2 ^ 64) :
    ((bytes + unit - 1) / unit).toNat = (bytes.toNat + unit.toNat - 1) / unit.toNat := by
  have one : (1 : UInt64).toNat = 1 := rfl
  rw [UInt64.toNat_div, UInt64.toNat_sub, UInt64.toNat_add, one]
  congr 1
  omega

theorem usedBlocks_toNat {blockSize : UInt64} {blocks : Nat} (positive : 0 < blockSize.toNat)
    (fits : blockSize.toNat * (blocks + 1) ≤ 2 ^ 64) :
    ((bytesOf blockSize blocks + blockSize - 1) / blockSize).toNat = blocks := by
  rw [Nat.mul_succ, Nat.mul_comm] at fits
  have bytes : (bytesOf blockSize blocks).toNat = blocks * blockSize.toNat :=
    Nat.mod_eq_of_lt (by omega)
  rw [ceil_toNat positive (by omega), bytes, Nat.add_sub_assoc positive, Nat.add_comm,
    Nat.add_mul_div_right _ _ positive, Nat.div_eq_of_lt (by omega), Nat.zero_add]

/-- Half of what metadata and slack leave, in whole records. -/
theorem records_toNat {blockSize blockCount metadataBlocks slackBlocks : UInt64}
    (wide : 8 < blockSize.toNat) (partition : blockSize.toNat * blockCount.toNat < 2 ^ 64)
    (room : metadataBlocks.toNat + slackBlocks.toNat < blockCount.toNat) :
    ((blockCount - metadataBlocks - slackBlocks) / 2 * (blockSize - kLfsCtzOverheadPerBlock) /
      sizeofPunchRecord).toNat =
      budgetRecords blockSize.toNat blockCount.toNat metadataBlocks.toNat slackBlocks.toNat ∧
    budgetRecords blockSize.toNat blockCount.toNat metadataBlocks.toNat slackBlocks.toNat * 60 <
      2 ^ 64 := by
  have left : (blockCount - metadataBlocks - slackBlocks).toNat =
      blockCount.toNat - metadataBlocks.toNat - slackBlocks.toNat := by
    have first : (blockCount - metadataBlocks).toNat = blockCount.toNat - metadataBlocks.toNat :=
      UInt64.toNat_sub_of_le _ _ (UInt64.le_iff_toNat_le.mpr (by omega))
    rw [UInt64.toNat_sub_of_le _ _ (UInt64.le_iff_toNat_le.mpr (by omega)), first]
  have data : (blockSize - kLfsCtzOverheadPerBlock).toNat = blockSize.toNat - 8 :=
    UInt64.toNat_sub_of_le _ _ (UInt64.le_iff_toNat_le.mpr wide.le)
  have bounded : (blockCount.toNat - metadataBlocks.toNat - slackBlocks.toNat) / 2 *
      (blockSize.toNat - 8) ≤ blockSize.toNat * blockCount.toNat := by
    rw [Nat.mul_comm blockSize.toNat]
    exact Nat.mul_le_mul (by omega) (by omega)
  have fits := bounded.trans_lt partition
  refine ⟨?_, (Nat.div_mul_le_self _ _).trans_lt fits⟩
  rw [UInt64.toNat_div, UInt64.toNat_mul, UInt64.toNat_div, left, data]
  exact congrArg (· / 60) (Nat.mod_eq_of_lt fits)

/-- Too few records make no file. -/
theorem file_toNat {records minRecords : UInt64} (fits : records.toNat * 60 < 2 ^ 64) :
    (if records == 0 || records < minRecords then 0 else records * sizeofPunchRecord).toNat =
      if minRecords.toNat ≤ records.toNat then records.toNat * 60 else 0 := by
  have bytes : (records * sizeofPunchRecord).toNat = records.toNat * 60 := by
    rw [UInt64.toNat_mul]
    exact Nat.mod_eq_of_lt fits
  by_cases few : records < minRecords
  · have short := UInt64.lt_iff_toNat_lt.mp few
    have refused : (records == 0 || decide (records < minRecords)) = true := by simp [few]
    rw [if_pos refused, if_neg (by omega)]
    rfl
  rw [if_pos (Nat.not_lt.mp (mt UInt64.lt_iff_toNat_lt.mpr few))]
  by_cases zero : records = 0
  · subst zero
    simp
  · have kept : ¬ (records == 0 || decide (records < minRecords)) = true := by simp [few, zero]
    rw [if_neg kept, bytes]

theorem reclaim_toNat (existingBlocks usedBlocks : UInt64) :
    (if existingBlocks > usedBlocks then usedBlocks else existingBlocks).toNat =
      min existingBlocks.toNat usedBlocks.toNat := by
  split
  next more => exact (Nat.min_eq_right (UInt64.lt_iff_toNat_lt.mp more).le).symm
  next less => exact (Nat.min_eq_left (Nat.not_lt.mp (mt UInt64.lt_iff_toNat_lt.mpr less))).symm

/-- Nothing is left once metadata and slack take every block. -/
theorem budgetRecords_full {blockSize blockCount metadataBlocks slackBlocks : Nat}
    (full : blockCount ≤ metadataBlocks + slackBlocks) :
    budgetRecords blockSize blockCount metadataBlocks slackBlocks = 0 := by
  have nothing : blockCount - metadataBlocks - slackBlocks = 0 := by omega
  rw [budgetRecords, nothing, Nat.zero_div, Nat.zero_mul, Nat.zero_div]

/-- What the sizing computes, where no product overflows. -/
theorem ringCapacityBytes_toNat {blockSize blockCount usedBytes existingRingBytes slackBlocks
    minRecords : UInt64} {blocks : Nat} (wide : 8 < blockSize.toNat)
    (partition : blockSize.toNat * blockCount.toNat < 2 ^ 64)
    (slackFits : blockSize.toNat * slackBlocks.toNat < 2 ^ 64)
    (used : ((usedBytes + blockSize - 1) / blockSize).toNat = blocks) :
    (ringCapacityBytes blockSize blockCount usedBytes existingRingBytes slackBlocks
      minRecords).toNat =
      (let records := budgetRecords blockSize.toNat blockCount.toNat
        (blocks - min (existingRingBytes.toNat / blockSize.toNat) blocks) slackBlocks.toNat
      if blocks ≤ blockCount.toNat ∧ minRecords.toNat ≤ records then records * 60 else 0) := by
  by_cases empty : blockCount = 0
  · subst empty
    simp [ringCapacityBytes, budgetRecords]
  have sized : ¬ (blockSize ≤ kLfsCtzOverheadPerBlock || blockCount == 0) = true := by
    have large : ¬ blockSize ≤ kLfsCtzOverheadPerBlock := by
      rw [UInt64.le_iff_toNat_le]
      exact Nat.not_le.mpr wide
    simp [large, empty]
  rw [ringCapacityBytes, if_neg sized]
  dsimp only
  generalize (usedBytes + blockSize - 1) / blockSize = usedBlocks at used ⊢
  subst used
  by_cases crowded : usedBlocks > blockCount
  · have beyond := UInt64.lt_iff_toNat_lt.mp crowded
    rw [if_pos crowded, if_neg (by omega)]
    rfl
  have inside : usedBlocks.toNat ≤ blockCount.toNat :=
    Nat.not_lt.mp (mt UInt64.lt_iff_toNat_lt.mpr crowded)
  have reclaim := reclaim_toNat (existingRingBytes / blockSize) usedBlocks
  rw [UInt64.toNat_div] at reclaim
  rw [if_neg crowded, ← reclaim]
  generalize (if existingRingBytes / blockSize > usedBlocks then usedBlocks
      else existingRingBytes / blockSize) = reclaimed at reclaim ⊢
  have metadata : (usedBlocks - reclaimed).toNat = usedBlocks.toNat - reclaimed.toNat :=
    UInt64.toNat_sub_of_le _ _ (UInt64.le_iff_toNat_le.mpr (by omega))
  rw [← metadata]
  generalize usedBlocks - reclaimed = metadataBlocks at metadata ⊢
  have reserved : (metadataBlocks + slackBlocks).toNat =
      metadataBlocks.toNat + slackBlocks.toNat := by
    have blocks := Nat.mul_le_mul_right blockCount.toNat (Nat.succ_le_of_lt wide)
    have slack := Nat.mul_le_mul_right slackBlocks.toNat (Nat.succ_le_of_lt wide)
    rw [UInt64.toNat_add]
    exact Nat.mod_eq_of_lt (by omega)
  by_cases full : metadataBlocks + slackBlocks ≥ blockCount
  · have filled := UInt64.le_iff_toNat_le.mp full
    rw [if_pos full, budgetRecords_full (by omega), Nat.zero_mul, ite_self]
    rfl
  · have room := Nat.not_le.mp (mt UInt64.le_iff_toNat_le.mpr full)
    obtain ⟨records, fits⟩ := records_toNat wide partition (reserved ▸ room)
    rw [← records] at fits
    rw [if_neg full, file_toNat fits, records]
    simp only [inside, true_and]

theorem ctzBlocks_le {bytes blocks blockSize : Nat} (fits : bytes ≤ blocks * (blockSize - 8)) :
    ctzBlocks bytes blockSize ≤ blocks :=
  SkipList.blocksFor_le (fits.trans (@SkipList.le_capacity blockSize 4 blocks))

theorem ctzBlocks_pos {bytes blockSize : Nat} (wide : 8 < blockSize) (positive : 0 < bytes) :
    0 < ctzBlocks bytes blockSize := by
  by_contra none
  have holds : bytes ≤ SkipList.capacity blockSize 4 (ctzBlocks bytes blockSize) :=
    (SkipList.blocksFor_isLeast (by omega) bytes).1
  rw [Nat.eq_zero_of_not_pos none] at holds
  have nothing := @SkipList.capacity_le blockSize 4 0
  omega

theorem budgetRecords_anti {blockSize blockCount fewer more slackBlocks : Nat}
    (order : fewer ≤ more) : budgetRecords blockSize blockCount more slackBlocks ≤
      budgetRecords blockSize blockCount fewer slackBlocks := by
  refine Nat.div_le_div_right (Nat.mul_le_mul_right _ (Nat.div_le_div_right ?_))
  omega

section Budget

variable {blockSize blockCount slackBlocks minRecords capacity : UInt64} {metadata : Nat}

/-- A file that was sized has a budget of blocks, twice over. -/
theorem sized_within_budget (wide : 8 < blockSize.toNat)
    (partition : blockSize.toNat * blockCount.toNat < 2 ^ 64)
    (slackFits : blockSize.toNat * slackBlocks.toNat < 2 ^ 64)
    (metadataFits : blockSize.toNat * (metadata + 1) ≤ 2 ^ 64)
    (made : ringCapacityBytes blockSize blockCount (bytesOf blockSize metadata) 0 slackBlocks
      minRecords = capacity) (sized : 0 < capacity.toNat) :
    (∃ ringBlocks, 2 * ringBlocks + metadata + slackBlocks.toNat ≤ blockCount.toNat ∧
      capacity.toNat ≤ ringBlocks * (blockSize.toNat - 8)) ∧
    60 ∣ capacity.toNat ∧ minRecords.toNat * 60 ≤ capacity.toNat := by
  have computed := congrArg UInt64.toNat made
  rw [ringCapacityBytes_toNat wide partition slackFits
    (usedBlocks_toNat (by omega) metadataFits)] at computed
  simp only [UInt64.toNat_zero, Nat.zero_div, Nat.zero_min, Nat.sub_zero] at computed
  split at computed
  next enough =>
    rw [← computed] at sized ⊢
    have positive : 0 < (blockCount.toNat - metadata - slackBlocks.toNat) / 2 := by
      by_contra none
      rw [budgetRecords, Nat.eq_zero_of_not_pos none, Nat.zero_mul] at sized
      exact absurd sized (Nat.lt_irrefl 0)
    exact ⟨⟨_, by omega, Nat.div_mul_le_self _ _⟩, Nat.dvd_mul_left _ _,
      Nat.mul_le_mul_right _ enough.2⟩
  next refused => omega

/-- A file that its budget fits beside what is in use can be rewritten. -/
theorem rewritable_within_budget {fileBytes : UInt64} {ringBlocks used : Nat}
    (wide : 8 < blockSize.toNat) (partition : blockSize.toNat * blockCount.toNat < 2 ^ 64)
    (slackFits : blockSize.toNat * slackBlocks.toNat < 2 ^ 64)
    (inUse : 0 < used) (positive : 0 < ringBlocks)
    (budget : used + ringBlocks + slackBlocks.toNat ≤ blockCount.toNat)
    (fits : fileBytes.toNat ≤ ringBlocks * (blockSize.toNat - 8)) :
    ringFileRewritable blockSize blockCount (bytesOf blockSize used) fileBytes slackBlocks =
      true := by
  have usedFits : blockSize.toNat * (used + 1) ≤ blockSize.toNat * blockCount.toNat :=
    Nat.mul_le_mul_left _ (by omega)
  have usedBlocks := usedBlocks_toNat (by omega) (usedFits.trans partition.le)
  have narrow : ¬ blockSize ≤ kLfsCtzOverheadPerBlock := by
    rw [UInt64.le_iff_toNat_le]
    exact Nat.not_le.mpr wide
  rw [ringFileRewritable, if_neg narrow]
  dsimp only
  generalize (bytesOf blockSize used + blockSize - 1) / blockSize = blocks at usedBlocks ⊢
  have inside : ¬ blocks > blockCount := by
    rw [gt_iff_lt, UInt64.lt_iff_toNat_lt]
    omega
  have left : (blockCount - blocks).toNat = blockCount.toNat - used := by
    rw [UInt64.toNat_sub_of_le _ _ (UInt64.le_iff_toNat_le.mpr (by omega)), usedBlocks]
  have perBlock : (blockSize - kLfsCtzOverheadPerBlock).toNat = blockSize.toNat - 8 :=
    UInt64.toNat_sub_of_le _ _ (UInt64.le_iff_toNat_le.mpr wide.le)
  rw [if_neg inside, decide_eq_true_iff, ge_iff_le, UInt64.le_iff_toNat_le, left]
  generalize blockSize - kLfsCtzOverheadPerBlock = unit at perBlock ⊢
  have roundable : fileBytes.toNat + unit.toNat ≤ 2 ^ 64 := by
    calc fileBytes.toNat + unit.toNat ≤ (ringBlocks + 1) * (blockSize.toNat - 8) := by
          rw [perBlock, Nat.succ_mul]
          exact Nat.add_le_add_right fits _
      _ ≤ blockCount.toNat * blockSize.toNat := Nat.mul_le_mul (by omega) (by omega)
      _ ≤ 2 ^ 64 := (Nat.mul_comm _ _).trans_le partition.le
  have file : ((fileBytes + unit - 1) / unit).toNat ≤ ringBlocks := by
    rw [ceil_toNat (by omega) roundable, perBlock]
    refine Nat.lt_succ_iff.mp (Nat.div_lt_of_lt_mul ?_)
    rw [Nat.mul_succ, Nat.mul_comm]
    omega
  have blocksFit := Nat.mul_le_mul_right blockCount.toNat (Nat.succ_le_of_lt wide)
  have slack := Nat.mul_le_mul_right slackBlocks.toNat (Nat.succ_le_of_lt wide)
  rw [UInt64.toNat_add]
  omega

/-- The blocks of a stale file are more than what is reclaimed for it. -/
theorem stale_le_fresh {existing : UInt64} (wide : 8 < blockSize.toNat)
    (partition : blockSize.toNat * blockCount.toNat < 2 ^ 64)
    (slackFits : blockSize.toNat * slackBlocks.toNat < 2 ^ 64)
    (usedFits : blockSize.toNat * (metadata + ctzBlocks existing.toNat blockSize.toNat + 1) ≤
      2 ^ 64) :
    ringCapacityBytes blockSize blockCount
        (bytesOf blockSize (metadata + ctzBlocks existing.toNat blockSize.toNat)) existing
        slackBlocks minRecords ≤
      ringCapacityBytes blockSize blockCount (bytesOf blockSize metadata) 0 slackBlocks
        minRecords := by
  have metadataFits : blockSize.toNat * (metadata + 1) ≤ 2 ^ 64 :=
    (Nat.mul_le_mul_left _ (by omega)).trans usedFits
  have reclaimed : existing.toNat / blockSize.toNat ≤ ctzBlocks existing.toNat blockSize.toNat :=
    SkipList.div_le_blocksFor _
  rw [UInt64.le_iff_toNat_le,
    ringCapacityBytes_toNat wide partition slackFits (usedBlocks_toNat (by omega) usedFits),
    ringCapacityBytes_toNat wide partition slackFits (usedBlocks_toNat (by omega) metadataFits)]
  simp only [UInt64.toNat_zero, Nat.zero_div, Nat.zero_min, Nat.sub_zero]
  split
  next enough =>
    have fewer : budgetRecords blockSize.toNat blockCount.toNat
        (metadata + ctzBlocks existing.toNat blockSize.toNat -
          min (existing.toNat / blockSize.toNat)
            (metadata + ctzBlocks existing.toNat blockSize.toNat)) slackBlocks.toNat ≤
        budgetRecords blockSize.toNat blockCount.toNat metadata slackBlocks.toNat :=
      budgetRecords_anti (by omega)
    rw [if_pos ⟨by omega, enough.2.trans fewer⟩]
    exact Nat.mul_le_mul_right _ fewer
  next refused => exact Nat.zero_le _

/-- A file that was sized can be rewritten once it is there. -/
theorem sized_rewritable (wide : 8 < blockSize.toNat)
    (partition : blockSize.toNat * blockCount.toNat < 2 ^ 64)
    (slackFits : blockSize.toNat * slackBlocks.toNat < 2 ^ 64)
    (metadataFits : blockSize.toNat * (metadata + 1) ≤ 2 ^ 64)
    (made : ringCapacityBytes blockSize blockCount (bytesOf blockSize metadata) 0 slackBlocks
      minRecords = capacity) (sized : 0 < capacity.toNat) :
    2 * ctzBlocks capacity.toNat blockSize.toNat + metadata + slackBlocks.toNat ≤
        blockCount.toNat ∧
      ringFileRewritable blockSize blockCount
        (bytesOf blockSize (metadata + ctzBlocks capacity.toNat blockSize.toNat)) capacity
        slackBlocks = true := by
  obtain ⟨⟨ringBlocks, budget, fits⟩, -⟩ :=
    sized_within_budget wide partition slackFits metadataFits made sized
  have fewer := ctzBlocks_le fits
  have some := ctzBlocks_pos wide sized
  exact ⟨by omega, rewritable_within_budget wide partition slackFits (by omega) (by omega)
    (by omega) fits⟩

/-- The next start keeps the file, and its size, whatever it holds by then. -/
theorem begin_keeps {totalBytes usedWithout : UInt64} {bufferEmpty : Bool}
    (metadataFits : kLfsBlockSize.toNat * (metadata + 1) ≤ 2 ^ 64)
    (made : ringCapacityBytes kLfsBlockSize (totalBytes / kLfsBlockSize)
      (bytesOf kLfsBlockSize metadata) 0 kRingSlackBlocks kRingMinRecords = capacity)
    (sized : 0 < capacity.toNat) :
    Mounted.begin ⟨totalBytes, bytesOf kLfsBlockSize (metadata + ctzBlocks capacity.toNat
      kLfsBlockSize.toNat), usedWithout, capacity, bufferEmpty⟩ = (false, capacity) := by
  have partition : kLfsBlockSize.toNat * (totalBytes / kLfsBlockSize).toNat < 2 ^ 64 := by
    rw [UInt64.toNat_div]
    exact (Nat.mul_div_le _ _).trans_lt totalBytes.toNat_lt
  obtain ⟨-, rewritable⟩ :=
    sized_rewritable (by decide) partition (by decide) metadataFits made sized
  obtain ⟨-, whole, enough⟩ :=
    sized_within_budget (by decide) partition (by decide) metadataFits made sized
  have large : capacity ≥ kRingMinRecords * sizeofPunchRecord := UInt64.le_iff_toNat_le.mpr enough
  have records : capacity / sizeofPunchRecord * sizeofPunchRecord = capacity := by
    refine UInt64.toNat_inj.mp ?_
    rw [UInt64.toNat_mul, UInt64.toNat_div]
    have exact : capacity.toNat / 60 * 60 = capacity.toNat := Nat.div_mul_cancel whole
    exact (congrArg (· % 2 ^ 64) exact).trans (Nat.mod_eq_of_lt capacity.toNat_lt)
  simp only [Mounted.begin, rewritable, Bool.not_true, Bool.and_false, Bool.false_and,
    Bool.false_eq_true, if_false, if_pos large, records]

/--
The ring file fits its budget for rewriting, and a stale file does not enlarge it.  Bytes in
use are rounded up to whole blocks, so that one block more is still to be below 2^64.
-/
theorem ring_file_fits (wide : 128 ≤ blockSize)
    (partition : blockSize.toNat * blockCount.toNat < 2 ^ 64)
    (slackFits : blockSize.toNat * slackBlocks.toNat < 2 ^ 64)
    (metadataFits : blockSize.toNat * (metadata + 1) ≤ 2 ^ 64) :
    (∀ capacity, ringCapacityBytes blockSize blockCount (bytesOf blockSize metadata) 0 slackBlocks
        minRecords = capacity → 0 < capacity →
      2 * ctzBlocks capacity.toNat blockSize.toNat + metadata + slackBlocks.toNat ≤
        blockCount.toNat ∧
      ringFileRewritable blockSize blockCount
        (bytesOf blockSize (metadata + ctzBlocks capacity.toNat blockSize.toNat)) capacity
        slackBlocks = true ∧
      60 ∣ capacity.toNat ∧ minRecords.toNat * 60 ≤ capacity.toNat) ∧
    ∀ existing : UInt64,
      blockSize.toNat * (metadata + ctzBlocks existing.toNat blockSize.toNat + 1) ≤ 2 ^ 64 →
      ringCapacityBytes blockSize blockCount
          (bytesOf blockSize (metadata + ctzBlocks existing.toNat blockSize.toNat)) existing
          slackBlocks minRecords ≤
        ringCapacityBytes blockSize blockCount (bytesOf blockSize metadata) 0 slackBlocks
          minRecords := by
  have large : 8 < blockSize.toNat := by
    have least : 128 ≤ blockSize.toNat := UInt64.le_iff_toNat_le.mp wide
    omega
  refine ⟨fun capacity made sized => ?_, fun existing => stale_le_fresh large partition slackFits⟩
  have positive : 0 < capacity.toNat := UInt64.lt_iff_toNat_lt.mp sized
  obtain ⟨budget, rewritable⟩ :=
    sized_rewritable large partition slackFits metadataFits made positive
  exact ⟨budget, rewritable,
    (sized_within_budget large partition slackFits metadataFits made positive).2⟩

end Budget

/-- The smallest of the partition schemes, and what it is sized to. -/
theorem ring_file_fits_sample :
    ringCapacityBytes 4096 32 (bytesOf 4096 2) 0 2 256 = 57180 ∧
      2 * ctzBlocks 57180 4096 + 2 + 2 ≤ 32 := by
  have made : ringCapacityBytes 4096 32 (bytesOf 4096 2) 0 2 256 = 57180 := by decide
  refine ⟨made, ?_⟩
  exact ((ring_file_fits (by decide) (by decide) (by decide) (by decide)).1 57180 made
    (by decide)).1

end Presence.Firmware
