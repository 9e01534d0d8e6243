import Btos.Lib.Word

/-!
# Partitions of a disk

`modules/hwpnp/ata/mbr.cpp`: `mbr_parse` reads the partition table in the first sector of a disk, and
`MBRVolume` gives access to the sectors of a partition.

* `mbrParse` — **the parser**.  The products of sector numbers with the sector size are 32-bit words, since
  both factors are;
* `mbr_confined_iff` — **a call is confined exactly under the condition**, whatever memory holds behind the
  vector of partitions.
-/

namespace Btos.Modules.Ata

open Lib.Word List Option

/-! ### The table -/

/-- `part_entry`, as far as it is used. -/
structure PartEntry where
  boot : ℕ
  system : ℕ
  startLba : ℕ
  sectors : ℕ
  deriving DecidableEq, Repr

structure Partition where
  start : ℕ
  sectors : ℕ
  deriving DecidableEq, Repr

def word16 (buf : ℕ → UInt8) (o : ℕ) : ℕ := (buf o).toNat + 256 * (buf (o + 1)).toNat

def word32 (buf : ℕ → UInt8) (o : ℕ) : ℕ := word16 buf o + 65536 * word16 buf (o + 2)

theorem word16_lt (buf : ℕ → UInt8) (o : ℕ) : word16 buf o < 65536 := by
  have h1 := (buf o).toNat_lt
  have h2 := (buf (o + 1)).toNat_lt
  unfold word16
  omega

theorem word32_lt (buf : ℕ → UInt8) (o : ℕ) : word32 buf o < 2 ^ 32 := by
  have h1 := word16_lt buf o
  have h2 := word16_lt buf (o + 2)
  unfold word32
  omega

/-- An entry of `part_table`. -/
def partEntry (blockbuf : ℕ → UInt8) (i : ℕ) : PartEntry :=
  let o := 0x1be + 16 * i
  ⟨(blockbuf o).toNat, (blockbuf (o + 4)).toNat, word32 blockbuf (o + 8), word32 blockbuf (o + 12)⟩

/-! ### The parser -/

/-- The fields of `MBRVolume`, and `active` of the parser. -/
structure Parse where
  mbrOk : Bool
  active : ℕ
  partitions : List Partition
  deriving DecidableEq, Repr

/-- One turn of the loop of `mbr_parse`; `mbrOk` is false after a `goto fail`. -/
def parseEntry (secSize devSize : ℕ) (r : Parse) (p : PartEntry) : Parse :=
  if p.boot ≠ 0x80 ∧ p.boot ≠ 0 then { r with mbrOk := false }
  else
    let r := if p.boot = 0x80 then { r with active := r.active + 1 } else r
    let startByte := mul32 p.startLba secSize
    let endByte := startByte + mul32 p.sectors secSize
    if endByte > devSize then { r with mbrOk := false }
    else if p.system ≠ 0 then { r with partitions := r.partitions ++ [⟨p.startLba, p.sectors⟩] }
    else r

/-- The loop of `mbr_parse`. -/
def parseEntries (secSize devSize : ℕ) : List PartEntry → Parse → Parse
  | [], r => r
  | p :: ps, r =>
      let r := parseEntry secSize devSize r p
      if r.mbrOk then parseEntries secSize devSize ps r else r

/-- The first sector of a FAT volume without a partition table. -/
def looksLikeFat (blockbuf : ℕ → UInt8) : Bool :=
  let secSize := word16 blockbuf 0x0B
  let media := (blockbuf 0x15).toNat
  (secSize == 512 || secSize == 1024 || secSize == 2048 || secSize == 4096) && (media == 0xF8 || media == 0xF0)

/-- **`mbr_parse`** on the first sector. -/
def mbrParse (secSize devSize : ℕ) (blockbuf : ℕ → UInt8) : Parse :=
  if word16 blockbuf 0x1fe ≠ 0xAA55 then ⟨false, 0, []⟩
  else
    let r := parseEntries secSize devSize ((List.range 4).map (partEntry blockbuf)) ⟨true, 0, []⟩
    if r.mbrOk ∧ r.active = 0 ∧ looksLikeFat blockbuf then { r with mbrOk := false } else r

/-! ### What is accepted -/

/-- A partition that the parser took: its numbers are 32-bit words, and the end that the parser computed is
on the disk. -/
structure Fits (secSize devSize : ℕ) (p : Partition) : Prop where
  start_lt : p.start < 2 ^ 32
  sectors_lt : p.sectors < 2 ^ 32
  onDisk : mul32 p.start secSize + mul32 p.sectors secSize ≤ devSize

theorem parseEntry_fits (hp : p.startLba < 2 ^ 32 ∧ p.sectors < 2 ^ 32)
    (hr : ∀ q ∈ r.partitions, Fits secSize devSize q) :
    ∀ q ∈ (parseEntry secSize devSize r p).partitions, Fits secSize devSize q := by
  have hsame : (if p.boot = 0x80 then { r with active := r.active + 1 } else r).partitions = r.partitions := by
    split <;> rfl
  unfold parseEntry
  simp only
  split
  · exact hr
  · split
    · rw [hsame]
      exact hr
    · rename_i hend
      split
      · intro q hq
        rw [hsame, mem_append, mem_singleton] at hq
        rcases hq with hq | rfl
        · exact hr q hq
        · exact ⟨hp.1, hp.2, Nat.not_lt.1 hend⟩
      · rw [hsame]
        exact hr

/-- **The partitions of a table** are such that the end the parser computes for them is on the disk. -/
theorem mbrParse_fits (secSize devSize : ℕ) (blockbuf : ℕ → UInt8) :
    ∀ q ∈ (mbrParse secSize devSize blockbuf).partitions, Fits secSize devSize q := by
  have hloop : ∀ (ps : List PartEntry) (r : Parse), (∀ p ∈ ps, p.startLba < 2 ^ 32 ∧ p.sectors < 2 ^ 32) →
        (∀ q ∈ r.partitions, Fits secSize devSize q) →
          ∀ q ∈ (parseEntries secSize devSize ps r).partitions, Fits secSize devSize q := by
    intro ps
    induction ps with
    | nil => exact fun _ _ hr => hr
    | cons p ps ih =>
      intro r hps hr
      have hturn := parseEntry_fits (hps p mem_cons_self) hr
      rw [parseEntries]
      split
      · exact ih _ (fun q hq => hps q (mem_cons_of_mem _ hq)) hturn
      · exact hturn
  have hwords : ∀ p ∈ (List.range 4).map (partEntry blockbuf), p.startLba < 2 ^ 32 ∧ p.sectors < 2 ^ 32 := by
    intro p hp
    obtain ⟨i, -, rfl⟩ := mem_map.1 hp
    exact ⟨word32_lt _ _, word32_lt _ _⟩
  have hempty : ∀ q ∈ ([] : List Partition), Fits secSize devSize q := by
    simp
  unfold mbrParse
  split
  · exact hempty
  · simp only
    split
    · exact hloop _ ⟨true, 0, []⟩ hwords hempty
    · exact hloop _ ⟨true, 0, []⟩ hwords hempty

/-! ### Access -/

inductive Request where
  | read (lba : ℕ)
  | write (lba : ℕ)
  deriving DecidableEq, Repr

/-- `MBRVolume`; `behind` is what memory holds behind the elements of the vector. -/
structure MBRVolume where
  partitions : List Partition
  behind : Partition

/-- `partitions[i]`, which is not checked. -/
def MBRVolume.partition (v : MBRVolume) (i : ℕ) : Partition := v.partitions.getD i v.behind

/-- The two access functions: the result and the requests of the disk. -/
def MBRVolume.accessSector (v : MBRVolume) (request : ℕ → Request) (device : Request → Bool)
    (i lba : ℕ) : Bool × List Request :=
  if i > v.partitions.length then (false, [])
  else if lba > (v.partition i).sectors then (false, [])
  else
    let realLba := add64 (v.partition i).start lba
    (device (request realLba), [request realLba])

def MBRVolume.readSector (v : MBRVolume) (device : Request → Bool) (i lba : ℕ) : Bool × List Request :=
  v.accessSector .read device i lba

def MBRVolume.writeSector (v : MBRVolume) (device : Request → Bool) (i lba : ℕ) : Bool × List Request :=
  v.accessSector .write device i lba

/-! ### Confinement -/

/-- A call fails without a request, or it makes one of the sector `lba` of partition `i`, which is in the
partition and on the disk. -/
def Confined (v : MBRVolume) (secSize devSize : ℕ) (request : ℕ → Request) (i lba : ℕ)
    (r : Bool × List Request) : Prop :=
  r = (false, []) ∨ ∃ p, v.partitions[i]? = some p ∧ lba < p.sectors ∧
    r.2 = [request (p.start + lba)] ∧ (p.start + lba + 1) * secSize ≤ devSize

/-- **The condition on a call**: the index is not the number of partitions, the sector not the number of
sectors of the partition, and for a sector of the partition either the products of the parser were exact or
the sector is on the disk. -/
def CallOk (partitions : List Partition) (devSize i lba : ℕ) : Prop :=
  i ≠ partitions.length ∧ ∀ p, partitions[i]? = some p → lba ≠ p.sectors ∧
    (lba < p.sectors → (p.start < 2 ^ 23 ∧ p.sectors < 2 ^ 23) ∨ (p.start + lba + 1) * 512 ≤ devSize)

section Confinement

variable {partitions : List Partition} {devSize i lba : ℕ}

theorem Fits.sector_le (h : Fits 512 devSize p) (hstart : p.start < 2 ^ 23)
    (hsectors : p.sectors < 2 ^ 23) (hlba : lba < p.sectors) : (p.start + lba + 1) * 512 ≤ devSize := by
  have honDisk := h.onDisk
  have hexact : ∀ n < 2 ^ 23, mul32 n 512 = n * 512 := by
    intro n hn
    exact Nat.mod_eq_of_lt (by omega)
  rw [hexact _ hstart, hexact _ hsectors] at honDisk
  omega

theorem partition_of_getElem? (h : partitions[i]? = some p) :
    (MBRVolume.mk partitions behind).partition i = p := by
  rw [MBRVolume.partition, List.getD, h, getD_some]

/-- **A call that meets the condition is confined.** -/
theorem CallOk.confined (h : CallOk partitions devSize i lba)
    (hfits : ∀ q ∈ partitions, Fits 512 devSize q) (behind : Partition) (request : ℕ → Request)
    (device : Request → Bool) : Confined ⟨partitions, behind⟩ 512 devSize request i lba
      ((MBRVolume.mk partitions behind).accessSector request device i lba) := by
  unfold MBRVolume.accessSector
  split
  · exact .inl rfl
  · rename_i hi
    have hlt : i < partitions.length := by
      have := h.1
      have : ¬i > partitions.length := hi
      omega
    obtain ⟨hne, hsector⟩ := h.2 _ (getElem?_eq_getElem hlt)
    rw [partition_of_getElem? (getElem?_eq_getElem hlt)]
    have hfit := hfits _ (getElem_mem hlt)
    split
    · exact .inl rfl
    · have hlba : lba < partitions[i].sectors := by omega
      have hreal : add64 partitions[i].start lba = partitions[i].start + lba := by
        have := hfit.start_lt
        have := hfit.sectors_lt
        exact add64_of_lt (by omega)
      refine .inr ⟨_, getElem?_eq_getElem hlt, hlba, by rw [hreal], ?_⟩
      rcases hsector hlba with ⟨hstart, hsectors⟩ | hdisk
      · exact hfit.sector_le hstart hsectors hlba
      · exact hdisk

/-- **A call that is confined whatever is behind the vector meets the condition.** -/
theorem CallOk.of_confined (lba : Word64)
    (h : ∀ start sectors : Word64, Confined ⟨partitions, start, sectors⟩ 512 devSize request i lba
      ((MBRVolume.mk partitions ⟨start, sectors⟩).accessSector request device i lba)) :
    CallOk partitions devSize i lba := by
  constructor
  · -- the number of partitions: memory behind the vector may look like a large partition
    intro hi
    have hcall := h 0 lba
    have hnone : partitions[i]? = none := getElem?_eq_none (Nat.le_of_eq hi.symm)
    have hpart : (MBRVolume.mk partitions ⟨(0 : Word64), lba⟩).partition i = ⟨(0 : Word64), lba⟩ := by
      rw [MBRVolume.partition, List.getD, hnone, getD_none]
    unfold MBRVolume.accessSector at hcall
    rw [if_neg (Nat.not_lt.2 (Nat.le_of_eq hi)), hpart, if_neg (Nat.lt_irrefl _)] at hcall
    rcases hcall with hcall | ⟨p, hp, -⟩
    · exact absurd (congrArg Prod.snd hcall) (cons_ne_nil _ _)
    · rw [hnone] at hp
      cases hp
  · intro p hp
    have hi : ¬i > partitions.length := by
      have := (List.getElem?_eq_some_iff.1 hp).1
      omega
    have hcall := h 0 0
    unfold MBRVolume.accessSector at hcall
    rw [if_neg hi, partition_of_getElem? hp] at hcall
    -- a sector of the partition, or the one behind it, is asked for
    have hreach : lba ≤ p.sectors → lba < p.sectors ∧ (p.start + lba + 1) * 512 ≤ devSize := by
      intro hle
      rw [if_neg (Nat.not_lt.2 hle)] at hcall
      rcases hcall with hcall | ⟨q, hq, hlt, -, hdisk⟩
      · exact absurd (congrArg Prod.snd hcall) (cons_ne_nil _ _)
      · cases hp.symm.trans hq
        exact ⟨hlt, hdisk⟩
    constructor
    · intro heq
      exact absurd (hreach (Nat.le_of_eq heq)).1 (Nat.not_lt.2 (Nat.le_of_eq heq.symm))
    · intro hlt
      exact .inr (hreach (Nat.le_of_lt hlt)).2

end Confinement

/-- **Calls are confined exactly under the condition.**  For every first sector that is accepted on a disk
with sectors of 512 bytes, `ReadSector` and `WriteSector` of a partition stay in it and on the disk, for all
that memory may hold behind the vector and all that the disk may answer, if and only if the call meets the
condition. -/
theorem mbr_confined_iff (blockbuf : ℕ → UInt8) (devSize : Fin (2 ^ 63))
    (_hok : (mbrParse 512 devSize blockbuf).mbrOk = true) (i : Word32) (lba : Word64) :
    (∀ (start sectors : Word64) (device : Request → Bool),
      let v : MBRVolume := ⟨(mbrParse 512 devSize blockbuf).partitions, start, sectors⟩
      Confined v 512 devSize .read i lba (v.readSector device i lba) ∧
        Confined v 512 devSize .write i lba (v.writeSector device i lba)) ↔
      CallOk (mbrParse 512 devSize blockbuf).partitions devSize i lba := by
  constructor
  · intro h
    exact CallOk.of_confined lba fun start sectors => (h start sectors fun _ => true).1
  · intro h start sectors device
    have hfits := mbrParse_fits 512 devSize blockbuf
    exact ⟨h.confined hfits ⟨start, sectors⟩ .read device, h.confined hfits ⟨start, sectors⟩ .write device⟩

/-! ### A disk with one partition -/

def oneEntry (start sectors : ℕ) (o : ℕ) : UInt8 :=
  if o = 0x1be then 0x80
  else if o = 0x1be + 4 then 0x06
  else if 0x1be + 8 ≤ o ∧ o < 0x1be + 12 then UInt8.ofNat (start / 256 ^ (o - (0x1be + 8)) % 256)
  else if 0x1be + 12 ≤ o ∧ o < 0x1be + 16 then UInt8.ofNat (sectors / 256 ^ (o - (0x1be + 12)) % 256)
  else if o = 0x1fe then 0x55
  else if o = 0x1ff then 0xAA
  else 0

/-- A partition of 16 sectors behind the first on a disk of 100 sectors: its sectors are reached, and no call
behind them gets through. -/
theorem mbr_confined_iff_sixteen :
    mbrParse 512 51200 (oneEntry 1 16) = ⟨true, 1, [⟨1, 16⟩]⟩ ∧
      ∀ lba : Word64, lba.val ≠ 16 → ∀ (start sectors : Word64) (device : Request → Bool),
        let v : MBRVolume := ⟨(mbrParse 512 51200 (oneEntry 1 16)).partitions, start, sectors⟩
        Confined v 512 51200 .read 0 lba (v.readSector device 0 lba) ∧
          Confined v 512 51200 .write 0 lba (v.writeSector device 0 lba) := by
  have htable : mbrParse 512 51200 (oneEntry 1 16) = ⟨true, 1, [⟨1, 16⟩]⟩ := by decide +kernel
  refine ⟨htable, ?_⟩
  intro lba hlba
  have hcall : CallOk (mbrParse 512 51200 (oneEntry 1 16)).partitions 51200 0 lba := by
    refine ⟨Nat.zero_ne_one, ?_⟩
    intro p hp
    cases hp
    exact ⟨hlba, fun _ => .inl (by decide)⟩
  exact (mbr_confined_iff (oneEntry 1 16) ⟨51200, by decide⟩ (congrArg Parse.mbrOk htable) 0 lba).2 hcall

/-- **Calls that escape.**  The sector behind a partition, a partition behind the last one, and a partition at
sector `2 ^ 23`, where the product with the sector size is zero, on a disk of 100 sectors. -/
theorem mbr_escapes :
    (mbrParse 512 51200 (oneEntry 1 16) = ⟨true, 1, [⟨1, 16⟩]⟩ ∧
      ((MBRVolume.mk [⟨1, 16⟩] ⟨0, 0⟩).writeSector (fun _ => true) 0 16 = (true, [.write 17])) ∧
      ((MBRVolume.mk [⟨1, 16⟩] ⟨4096, 8⟩).writeSector (fun _ => true) 1 0 = (true, [.write 4096]))) ∧
    (mbrParse 512 51200 (oneEntry (2 ^ 23) 16) = ⟨true, 1, [⟨2 ^ 23, 16⟩]⟩ ∧
      ((MBRVolume.mk [⟨2 ^ 23, 16⟩] ⟨0, 0⟩).writeSector (fun _ => true) 0 0 = (true, [.write (2 ^ 23)]))) := by
  decide +kernel

end Btos.Modules.Ata
