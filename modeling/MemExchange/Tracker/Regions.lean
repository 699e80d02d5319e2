import MemExchange.Lib.Run
import MemExchange.Tracker.State

/-!
# Regions of the shared slab memory

`shm_malloc` and `signal_alloc_free` cut the shared file from offset 0 upwards and the address range
from `start` downwards: a region of `n` bytes begins at `start_address`, which then moves down by
`n`. A region ends where the region before it begins only if both have the same length; a longer one
runs into it.
-/
namespace MemExchange

/-- A mapped piece of the slab file. `home` is the offset at which these bytes were mapped
for the first time. -/
structure Region where
  addr : Int
  off : Int
  len : Nat
  home : Int
  deriving DecidableEq, Repr

namespace Tracker

/-- `shm_malloc`, its system calls succeeding and `mmap` returning the requested address.
The result is `none` when the request exceeds `max_size`; sizes are multiples of 8, so the
pointer arithmetic on `long *` moves by the whole size. -/
def shmMalloc (pagesize n : Nat) (t : Tracker) : Option Region × Tracker :=
  let n := adjustSize pagesize n
  if t.maxSize < t.usedSize + n then (none, t)
  else
    (some ⟨t.startAddress, t.usedSize, n, t.usedSize⟩,
      { t with startAddress := t.startAddress - n, usedSize := t.usedSize + n })

end Tracker

structure Memory where
  tracker : Tracker
  /-- A `shm_malloc` that failed returned without `sem_post`; every later call blocks. -/
  stuck : Bool
  live : List Region
  /-- Taken off the unused end by the first half of `signal_alloc_free`. -/
  reserved : List Region
  /-- The page released last, as it was announced. -/
  released : Option Region
  /-- The page released last has not been mapped by anyone yet. -/
  waiting : Bool
  /-- By how much `start_address` moved last. -/
  last : Option Nat

variable (pagesize : Nat) (memAllocated : Nat) (shares : Int → ℚ) (slabStart : Int) (w : Memory)

def Memory.initial : Memory where
  tracker := .initial memAllocated shares slabStart
  stuck := false
  live := []
  reserved := []
  released := none
  waiting := false
  last := none

/-- One call, by any tenant. `signal_alloc_free` is two critical sections: `reserve` and
`announce` of a reserved region. `setSpareMem` releases a live region; its size is computed
by the caller. -/
inductive MemoryCall
  | shmMalloc (n : Nat)
  | reserve (n : Nat)
  | announce (i : Nat) (id : Int)
  | setSpareMem (i n : Nat) (cls id : Int)
  | shmMallocSpare (n : Nat) (id : Int)
  deriving DecidableEq, Repr

variable (call : MemoryCall)

namespace Memory

def shmMalloc (n : Nat) : Memory :=
  match w.tracker.shmMalloc pagesize n with
  | (none, _) => { w with stuck := true }
  | (some r, t) => { w with tracker := t, live := r :: w.live, last := some r.len }

def reserve (n : Nat) : Memory :=
  let ((rptr, size), t) := w.tracker.signalAllocFree pagesize n
  { w with
    tracker := t
    reserved := ⟨rptr, w.tracker.usedSize, size, w.tracker.usedSize⟩ :: w.reserved
    last := some size }

/-- `set_spare_mem` of the region `r` as `n` bytes. -/
def spare (r : Region) (n : Nat) (cls id : Int) : Memory :=
  { w with
    tracker := w.tracker.setSpareMem r.addr n cls id
    released := some { r with len := n }
    waiting := true }

def announce (i : Nat) (id : Int) : Option Memory :=
  w.reserved[i]?.map fun r => { w.spare r r.len 1 id with reserved := w.reserved.eraseIdx i }

def setSpareMem (i n : Nat) (cls id : Int) : Option Memory :=
  w.live[i]?.map fun r => { w.spare r n cls id with live := w.live.eraseIdx i }

/-- The region `shm_malloc_spare` maps, from the fields of the tracker; its bytes are those
of the page released last. -/
def shmMallocSpare (n : Nat) (id : Int) : Option Memory :=
  w.released.map fun page =>
    let (mapped, t) := w.tracker.shmMallocSpare pagesize n id
    { w with
      tracker := t
      live := ⟨w.tracker.spareMemStart, w.tracker.spareOff, mapped, page.home⟩ :: w.live
      waiting := false }

end Memory

def memoryStep : Option Memory :=
  if w.stuck then none
  else
    match call with
    | .shmMalloc n => some (w.shmMalloc pagesize n)
    | .reserve n => some (w.reserve pagesize n)
    | .announce i id => w.announce i id
    | .setSpareMem i n cls id => w.setSpareMem i n cls id
    | .shmMallocSpare n id => w.shmMallocSpare pagesize n id

/-- Two regions have disjoint address ranges and disjoint file ranges. -/
def Apart (r q : Region) : Prop :=
  (r.addr + r.len ≤ q.addr ∨ q.addr + q.len ≤ r.addr) ∧
  (r.off + r.len ≤ q.off ∨ q.off + q.len ≤ r.off)

instance : DecidableRel Apart := fun _ _ => inferInstanceAs (Decidable (_ ∧ _))

/-- The layout of the slab memory: the distance of `start_address` from `start` is the used
size, live regions are apart, the used size is within the maximum, and the offset
`shm_malloc_spare` maps is where the released page was mapped first. -/
def LaidOut : Prop :=
  w.tracker.start - w.tracker.startAddress = w.tracker.usedSize ∧
  w.live.Pairwise Apart ∧
  w.tracker.usedSize ≤ w.tracker.maxSize ∧
  ∀ page ∈ w.released, w.tracker.spareOff = page.home

instance : DecidablePred LaidOut := fun _ => inferInstanceAs (Decidable (_ ∧ _ ∧ _ ∧ _))

/-- No request takes more pages than the one before it, free space is reserved below
`max_size` only, a page is released with at most the length it has, and it is mapped once. -/
def Fits : MemoryCall → Prop
  | .shmMalloc n => ∀ previous ∈ w.last, Tracker.adjustSize pagesize n ≤ previous
  | .reserve n => (∀ previous ∈ w.last, Tracker.adjustSize pagesize n ≤ previous) ∧
      w.tracker.usedSize + Tracker.adjustSize pagesize n ≤ w.tracker.maxSize
  | .announce .. => True
  | .setSpareMem i n .. => ∀ r ∈ w.live[i]?, n ≤ r.len
  | .shmMallocSpare .. => w.waiting = true

instance : DecidableRel (Fits pagesize) := fun _ _ => by
  unfold Fits
  split <;> infer_instance

/-! ### Regions that keep their place -/

theorem Apart.symm {r q : Region} (apart : Apart r q) : Apart q r := ⟨apart.1.symm, apart.2.symm⟩

/-- `r'` begins where `r` does and is no longer. -/
structure Within (r' r : Region) : Prop where
  addr : r'.addr = r.addr
  off : r'.off = r.off
  len : r'.len ≤ r.len
  home : r'.home = r.home

theorem Apart.within {r r' q : Region} (apart : Apart r q) (within : Within r' r) : Apart r' q := by
  obtain ⟨addr, off, len, -⟩ := within
  obtain ⟨addresses, offsets⟩ := apart
  constructor <;> omega

/-- A region lies in the used part of the file, its address mirrors its offset, and the
next region will begin far enough below it for anything up to the last request. -/
structure Placed (w : Memory) (r : Region) : Prop where
  mirrored : w.tracker.start - r.addr = r.off
  home : r.off = r.home
  used : r.off + r.len ≤ w.tracker.usedSize
  clear : ∃ previous ∈ w.last, r.off + previous ≤ w.tracker.usedSize

theorem Placed.within {w : Memory} {r r' : Region} (placed : Placed w r) (within : Within r' r) :
    Placed w r' where
  mirrored := by rw [within.addr, within.off]; exact placed.mirrored
  home := by rw [within.off, within.home]; exact placed.home
  used := by have := placed.used; have := within.len; rw [within.off]; omega
  clear := by rw [within.off]; exact placed.clear

namespace Memory

/-- Every region somebody has or will get: the live ones, the reserved ones and the page
that waits to be mapped. -/
def occupied (w : Memory) : List Region :=
  w.live ++ w.reserved ++ if w.waiting then w.released.toList else []

end Memory

structure LayoutInv (w : Memory) : Prop where
  distance : w.tracker.start - w.tracker.startAddress = w.tracker.usedSize
  bounded : w.tracker.usedSize ≤ w.tracker.maxSize
  placed : ∀ r ∈ w.occupied, Placed w r
  apart : w.occupied.Pairwise Apart
  released : ∀ page ∈ w.released, w.tracker.spareOff = page.home
  waiting : w.waiting = true → ∃ page, w.released = some page ∧
    w.tracker.spareMemStart = page.addr ∧ w.tracker.spareOff = page.off ∧
    w.tracker.spareSize = page.len

theorem layoutInv_initial : LayoutInv (.initial memAllocated shares slabStart) where
  distance := by simp [Memory.initial, Tracker.initial]
  bounded := Nat.zero_le _
  placed := by simp [Memory.occupied, Memory.initial]
  apart := by simp [Memory.occupied, Memory.initial]
  released := by simp [Memory.initial]
  waiting := by simp [Memory.initial]

theorem LayoutInv.laidOut {w : Memory} (inv : LayoutInv w) : LaidOut w := by
  refine ⟨inv.distance, ?_, inv.bounded, inv.released⟩
  have all := inv.apart
  rw [Memory.occupied, List.append_assoc, List.pairwise_append] at all
  exact all.1

/-! ### New regions -/

section Bump

variable {w} {w' : Memory} {size : Nat}

/-- The region that begins at `start_address`. -/
def Memory.next (w : Memory) (size : Nat) : Region :=
  ⟨w.tracker.startAddress, w.tracker.usedSize, size, w.tracker.usedSize⟩

/-- `w'` is `w` after the next region was cut off as `size` bytes. -/
structure Bumped (w w' : Memory) (size : Nat) : Prop where
  tracker : w'.tracker =
    { w.tracker with
      startAddress := w.tracker.startAddress - size
      usedSize := w.tracker.usedSize + size }
  last : w'.last = some size
  released : w'.released = w.released
  waiting : w'.waiting = w.waiting
  occupied : List.Perm w'.occupied (w.next size :: w.occupied)

/-- The next region is apart from an earlier one if it is no longer than the last request
before it. -/
theorem Placed.apart_next {r : Region} (placed : Placed w r)
    (distance : w.tracker.start - w.tracker.startAddress = w.tracker.usedSize)
    (smaller : ∀ previous ∈ w.last, size ≤ previous) : Apart (w.next size) r := by
  obtain ⟨previous, known, clear⟩ := placed.clear
  have := smaller previous known
  have := placed.mirrored
  refine ⟨Or.inl ?_, Or.inr placed.used⟩
  change w.tracker.startAddress + size ≤ r.addr
  omega

theorem Placed.bump {r : Region} (placed : Placed w r) (bumped : Bumped w w' size) :
    Placed w' r where
  mirrored := by rw [bumped.tracker]; exact placed.mirrored
  home := placed.home
  used := by have := placed.used; rw [bumped.tracker]; push_cast; omega
  clear := by
    have := placed.used
    refine ⟨size, bumped.last, ?_⟩
    rw [bumped.tracker]; push_cast; omega

theorem placed_next (distance : w.tracker.start - w.tracker.startAddress = w.tracker.usedSize)
    (bumped : Bumped w w' size) : Placed w' (w.next size) where
  mirrored := by rw [bumped.tracker]; exact distance
  home := rfl
  used := by rw [bumped.tracker, Memory.next]; push_cast; omega
  clear := ⟨size, bumped.last, by rw [bumped.tracker, Memory.next]; push_cast; omega⟩

theorem LayoutInv.bump (inv : LayoutInv w) (bumped : Bumped w w' size)
    (smaller : ∀ previous ∈ w.last, size ≤ previous)
    (room : w.tracker.usedSize + size ≤ w.tracker.maxSize) : LayoutInv w' where
  distance := by have := inv.distance; rw [bumped.tracker]; push_cast; omega
  bounded := by rw [bumped.tracker]; exact room
  placed := by
    intro r mem
    rcases List.mem_cons.mp (bumped.occupied.mem_iff.mp mem) with rfl | mem
    · exact placed_next inv.distance bumped
    · exact (inv.placed r mem).bump bumped
  apart := by
    refine (bumped.occupied.pairwise_iff Apart.symm).mpr (List.pairwise_cons.mpr ⟨?_, inv.apart⟩)
    intro r mem
    exact (inv.placed r mem).apart_next inv.distance smaller
  released := by rw [bumped.released, bumped.tracker]; exact inv.released
  waiting := by rw [bumped.waiting, bumped.released, bumped.tracker]; exact inv.waiting

end Bump

/-! ### Regions that change hands -/

section Handed

variable {w} {w' : Memory} {r r' : Region}

/-- `w'` has the regions of `w`, some of them perhaps given up, and one of them under a
new owner who has no more of it than there was. -/
structure Handed (w w' : Memory) (r r' : Region) : Prop where
  start : w'.tracker.start = w.tracker.start
  startAddress : w'.tracker.startAddress = w.tracker.startAddress
  used : w'.tracker.usedSize = w.tracker.usedSize
  max : w'.tracker.maxSize = w.tracker.maxSize
  last : w'.last = w.last
  within : Within r' r
  occupied : ∃ rest, List.Perm w'.occupied (r' :: rest) ∧ List.Subperm (r :: rest) w.occupied

theorem Placed.handed {q : Region} (placed : Placed w q) (handed : Handed w w' r r') :
    Placed w' q where
  mirrored := by rw [handed.start]; exact placed.mirrored
  home := placed.home
  used := by rw [handed.used]; exact placed.used
  clear := by rw [handed.last, handed.used]; exact placed.clear

theorem LayoutInv.hand (inv : LayoutInv w) (handed : Handed w w' r r')
    (released : ∀ page ∈ w'.released, w'.tracker.spareOff = page.home)
    (waiting : w'.waiting = true → ∃ page, w'.released = some page ∧
      w'.tracker.spareMemStart = page.addr ∧ w'.tracker.spareOff = page.off ∧
      w'.tracker.spareSize = page.len) : LayoutInv w' := by
  obtain ⟨rest, now, ordered, perm, sublist⟩ := handed.occupied
  have was : ∀ q ∈ r :: rest, Placed w q := fun q mem =>
    inv.placed q (sublist.subset (perm.mem_iff.mpr mem))
  obtain ⟨apart, others⟩ := List.pairwise_cons.mp
    ((perm.pairwise_iff Apart.symm).mp (inv.apart.sublist sublist))
  refine ⟨?_, ?_, ?_, ?_, released, waiting⟩
  · rw [handed.start, handed.startAddress, handed.used]; exact inv.distance
  · rw [handed.used, handed.max]; exact inv.bounded
  · intro q mem
    rcases List.mem_cons.mp (now.mem_iff.mp mem) with rfl | mem
    · exact ((was r (by simp)).within handed.within).handed handed
    · exact (was q (by simp [mem])).handed handed
  · refine (now.pairwise_iff Apart.symm).mpr (List.pairwise_cons.mpr ⟨?_, others⟩)
    intro q mem
    exact (apart q mem).within handed.within

end Handed

/-! ### The calls -/

section Calls

variable {pagesize w} {w' : Memory} {i n : Nat} {r : Region} {id : Int}

theorem perm_eraseIdx {l : List Region} (found : l[i]? = some r) :
    List.Perm l (r :: l.eraseIdx i) := by
  obtain ⟨bound, rfl⟩ := List.getElem?_eq_some_iff.mp found
  exact (List.getElem_cons_eraseIdx_perm bound).symm

theorem shmMalloc_bumped
    (room : w.tracker.usedSize + Tracker.adjustSize pagesize n ≤ w.tracker.maxSize) :
    Bumped w (w.shmMalloc pagesize n) (Tracker.adjustSize pagesize n) := by
  rw [Memory.shmMalloc, Tracker.shmMalloc, if_neg (by omega)]
  exact ⟨rfl, rfl, rfl, rfl, List.Perm.refl _⟩

theorem reserve_bumped : Bumped w (w.reserve pagesize n) (Tracker.adjustSize pagesize n) := by
  refine ⟨rfl, rfl, rfl, rfl, ?_⟩
  simp only [Memory.reserve, Tracker.signalAllocFree, Memory.occupied, Memory.next,
    List.append_assoc, List.cons_append]
  exact List.perm_middle

variable (inv : LayoutInv w)
include inv

theorem layoutInv_shmMalloc (fits : Fits pagesize w (.shmMalloc n)) :
    LayoutInv (w.shmMalloc pagesize n) := by
  by_cases room : w.tracker.usedSize + Tracker.adjustSize pagesize n ≤ w.tracker.maxSize
  · exact inv.bump (shmMalloc_bumped room) fits room
  · -- the request fails and only the semaphore is lost
    rw [Memory.shmMalloc, Tracker.shmMalloc, if_pos (by omega)]
    exact ⟨inv.distance, inv.bounded, fun r mem => ⟨(inv.placed r mem).1, (inv.placed r mem).2,
      (inv.placed r mem).3, (inv.placed r mem).4⟩, inv.apart, inv.released, inv.waiting⟩

/-- Announcing a region somebody has, as no more bytes than it has. -/
theorem layoutInv_spare {live reserved : List Region} (cls id : Int) (fits : n ≤ r.len)
    (parts : List.Perm (w.live ++ w.reserved) (r :: (live ++ reserved))) :
    LayoutInv { w.spare r n cls id with live := live, reserved := reserved } := by
  have had : List.Subperm (r :: (live ++ reserved)) w.occupied :=
    parts.symm.subperm.trans (List.sublist_append_left _ _).subperm
  have placed : Placed w r := inv.placed r (had.subset (List.mem_cons_self ..))
  have offset : (w.tracker.setSpareMem r.addr n cls id).spareOff = r.off := placed.mirrored
  have handed : Handed w { w.spare r n cls id with live := live, reserved := reserved } r
      { r with len := n } :=
    ⟨rfl, rfl, rfl, rfl, rfl, ⟨rfl, rfl, fits, rfl⟩, live ++ reserved,
      List.perm_append_singleton _ _, had⟩
  refine inv.hand handed ?_ ?_
  · rintro page ⟨rfl⟩
    exact offset.trans placed.home
  · intro _
    exact ⟨{ r with len := n }, rfl, rfl, offset, rfl⟩

theorem layoutInv_announce (called : w.announce i id = some w') : LayoutInv w' := by
  obtain ⟨r, found, rfl⟩ := Option.map_eq_some_iff.mp called
  refine layoutInv_spare inv 1 id le_rfl ?_
  exact ((perm_eraseIdx found).append_left _).trans List.perm_middle

theorem layoutInv_setSpareMem {cls : Int} (fits : Fits pagesize w (.setSpareMem i n cls id))
    (called : w.setSpareMem i n cls id = some w') : LayoutInv w' := by
  obtain ⟨r, found, rfl⟩ := Option.map_eq_some_iff.mp called
  exact layoutInv_spare inv cls id (fits r found) ((perm_eraseIdx found).append_right _)

theorem layoutInv_shmMallocSpare (waits : w.waiting = true)
    (called : w.shmMallocSpare pagesize n id = some w') : LayoutInv w' := by
  obtain ⟨page, released, rfl⟩ := Option.map_eq_some_iff.mp called
  obtain ⟨page', same, addr, off, size⟩ := inv.waiting waits
  obtain rfl : page' = page := Option.some.inj (same.symm.trans released)
  have capped : (w.tracker.shmMallocSpare pagesize n id).1 ≤ w.tracker.spareSize := by
    simp only [Tracker.shmMallocSpare]; split <;> omega
  rw [size] at capped
  have within : Within ⟨w.tracker.spareMemStart, w.tracker.spareOff,
      (w.tracker.shmMallocSpare pagesize n id).1, page'.home⟩ page' := ⟨addr, off, capped, rfl⟩
  have had : List.Subperm (page' :: (w.live ++ w.reserved)) w.occupied := by
    rw [Memory.occupied, waits, released]
    exact (List.perm_append_singleton page' _).symm.subperm
  refine inv.hand ⟨rfl, rfl, rfl, rfl, rfl, within, _, ?_, had⟩ inv.released ?_
  · simp [Memory.occupied]
  · intro still
    cases still

end Calls

/-- After a call that fits, no two regions in use overlap. -/
theorem layoutInv_step (w' : Memory) (inv : LayoutInv w) (fits : Fits pagesize w call)
    (called : memoryStep pagesize w call = some w') : LayoutInv w' := by
  unfold memoryStep at called
  split at called
  · cases called
  cases call with
  | shmMalloc n => cases called; exact layoutInv_shmMalloc inv fits
  | reserve n => cases called; exact inv.bump reserve_bumped fits.1 fits.2
  | announce i id => exact layoutInv_announce inv called
  | setSpareMem i n cls id => exact layoutInv_setSpareMem inv fits called
  | shmMallocSpare n id => exact layoutInv_shmMallocSpare inv fits called

/-- In every run in which no request takes more pages than the one before it, free space is
reserved below the maximum, and pages are released and mapped as what they are, the slab
memory is laid out properly in every state. -/
theorem laid_out_of_fitting (pagesize memAllocated : Nat) (shares : Int → ℚ) (slabStart : Int)
    (calls : List MemoryCall)
    (fits : Run.Along (memoryStep pagesize) (Fits pagesize)
      (.initial memAllocated shares slabStart) calls) :
    Run.Always (memoryStep pagesize) LaidOut (.initial memAllocated shares slabStart) calls :=
  Run.always_mono (fun _ inv => inv.laidOut)
    (Run.always_of_invariant (layoutInv_step pagesize) (layoutInv_initial ..) fits)

/-- Two pages, one of them handed to another tenant, then free space and a last page. -/
def fittingCalls : List MemoryCall :=
  [.shmMalloc 1048576, .shmMalloc 1048576, .setSpareMem 1 1048576 2 0,
    .shmMallocSpare 1048576 1, .reserve 1047840, .announce 0 1, .shmMalloc 1044480]

theorem laid_out_when_fitting :
    Run.Along (memoryStep 4096) (Fits 4096) (.initial 8388608 (fun _ => 0) 1000000000) fittingCalls ∧
      Run.Always (memoryStep 4096) LaidOut (.initial 8388608 (fun _ => 0) 1000000000) fittingCalls :=
  ⟨by decide +kernel, laid_out_of_fitting 4096 _ _ _ _ (by decide +kernel)⟩

/-- Free space is announced in whole megabytes, and a megabyte page is one system page
longer: a page mapped after free space was given away overlaps it. Reserving free space is
also what exceeds the maximum. -/
theorem regions_overlap_after_free_space :
    ¬ Run.Always (memoryStep 4096) LaidOut (.initial 8388608 (fun _ => 0) 1000000000)
      [.reserve 1047840, .announce 0 0, .shmMallocSpare 1047840 1, .shmMalloc 1048576] ∧
    ¬ Run.Always (memoryStep 4096) LaidOut (.initial 1048576 (fun _ => 0) 1000000000)
      [.reserve 1047840, .reserve 1047840] := by
  decide +kernel

end MemExchange
