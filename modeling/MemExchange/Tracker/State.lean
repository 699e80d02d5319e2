import Mathlib

/-!
# The shared tracker

`struct tracker` of `shm_malloc.h` and the functions of `shm_malloc.c` that read or
write it. Each of them runs between `sem_wait` and `sem_post`, so each is one atomic
function on the record; a function that also reports something returns it first.
-/
namespace MemExchange

/-- A score is a finite double. The tracker only compares scores, and the one double it
treats specially is the largest, `__DBL_MAX__`, which stands on top. -/
abbrev Score := WithTop ℚ

def dblMax : Score := ⊤

/-- The value `min_score` is reset to. -/
def noMinScore : Score := ((9999999999 : ℚ) : Score)

/-- The value `max_score` is reset to. -/
def noMaxScore : Score := ((-1 : ℚ) : Score)

/-- Tenants are known by their port, remote trackers by the digits of their address;
ids from here on are remote. -/
def remoteIdBase : Int := 99999

structure Tracker where
  maxSize : Nat
  usedSize : Nat
  spareOff : Int
  spareSize : Nat
  /-- Addresses count bytes; `start_address` moves downwards from `start`. -/
  start : Int
  startAddress : Int
  spareMemStart : Int
  spareMemClsid : Int
  maxId : Int
  minId : Int
  spareMemOwner : Int
  spareMemAvail : Bool
  spareRequested : Bool
  spareLock : Bool
  maxScore : Score
  minScore : Score
  presetShare : Int → ℚ
  tempScore : Score
  /-- The connection `latest_conn` points to. -/
  latestConn : Option Nat
  rdmaPeerAddr : Nat
  remoteSpareRequested : Bool
  remoteSpareReceived : Bool
  rdmaBroadcast : Bool
  finishBroadcastFlag : Bool
  remoteServerReady : Bool
  maxScoreLock : Bool
  minScoreLock : Bool
  victimPotential : Bool
  localAccessPortN : Int
  rdmaPeerId : Int
  minCounter : Int
  maxCounter : Int

namespace Tracker

/-- The tracker as `main` of `start_tracker.c` leaves it: the file is truncated, so the
fields it does not assign are zero. -/
def initial (memAllocated : Nat) (shares : Int → ℚ) (slabStart : Int) : Tracker where
  maxSize := memAllocated
  usedSize := 0
  spareOff := 0
  spareSize := 0
  start := slabStart
  startAddress := slabStart
  spareMemStart := 0
  spareMemClsid := -1
  maxId := -1
  minId := -1
  spareMemOwner := 0
  spareMemAvail := false
  spareRequested := false
  spareLock := false
  maxScore := noMaxScore
  minScore := noMinScore
  presetShare := fun i => shares i * memAllocated
  tempScore := ((0 : ℚ) : Score)
  latestConn := none
  rdmaPeerAddr := 0
  remoteSpareRequested := false
  remoteSpareReceived := false
  rdmaBroadcast := false
  finishBroadcastFlag := false
  remoteServerReady := false
  maxScoreLock := false
  minScoreLock := false
  victimPotential := false
  localAccessPortN := 0
  rdmaPeerId := 0
  minCounter := 0
  maxCounter := 0

/-! ### Page sizes and the spare page -/

variable (pagesize : Nat) (n : Nat) (sc1 : Score) (sc2 : Score) (id : Int) (sc : Score)
  (t : Tracker)

/-- `adjust_size`: one page more than the whole pages in `n`. -/
def adjustSize : Nat := (n / pagesize + 1) * pagesize

/-- `shm_malloc_spare`, its system calls succeeding: the number of bytes mapped at
`spare_mem_start`, which are credited to tenant slot `id`. -/
def shmMallocSpare : Nat × Tracker :=
  let wanted := adjustSize pagesize n
  let mapped := if t.spareSize < wanted then t.spareSize else wanted
  (mapped, { t with presetShare := fun i => if i = id then t.presetShare i + mapped else t.presetShare i })

def setSpareMem (ptr : Int) (n : Nat) (cls id : Int) (t : Tracker) : Tracker :=
  { t with
    spareOff := t.start - ptr
    spareMemStart := ptr
    spareMemClsid := cls
    spareMemAvail := true
    spareSize := n
    spareMemOwner := id + 11212
    presetShare := fun i => if i = id then t.presetShare i - n else t.presetShare i }

/-- The first critical section of `signal_alloc_free`: take `size` bytes off the unused
end of the region. The second one is `setSpareMem` of the address and size returned. -/
def signalAllocFree (size : Nat) (t : Tracker) : (Int × Nat) × Tracker :=
  let size := adjustSize pagesize size
  ((t.startAddress, size),
    { t with startAddress := t.startAddress - size, usedSize := t.usedSize + size })

/-! ### Scores -/

/-- First part of `set_scores`: a tenant with a non-zero miss rate was a candidate before
by mistake and is withdrawn. -/
def withdrawCandidate : Tracker :=
  if sc2 = dblMax ∧ t.minId = id then
    { t with minId := -1, minScore := noMinScore, victimPotential := false }
  else t

/-- Second part of `set_scores`: a lower score becomes the candidate. -/
def offerMinScore : Tracker :=
  if sc2 < t.minScore ∧ t.minScoreLock = false then
    { t with
      minCounter := if t.minId ≠ id then 0 else t.minCounter
      minId := id
      minScore := sc2
      victimPotential := if id < remoteIdBase then true else t.victimPotential }
  else t

/-- A tenant cannot be highest and lowest at the same time. -/
def dropMinOfMax : Tracker :=
  if t.minId = id ∧ t.minScoreLock = false then
    { t with minId := -1, minScore := noMinScore }
  else t

/-- Last part of `set_scores`: a higher score takes the maximum. -/
def offerMaxScore : Tracker :=
  if t.maxScore < sc1 ∧ t.maxScoreLock = false then
    dropMinOfMax id
      { t with
        maxCounter := if t.maxId ≠ id then 0 else t.maxCounter
        maxId := id
        maxScore := sc1 }
  else t

def setScores : Tracker :=
  offerMaxScore sc1 id (offerMinScore sc2 id (withdrawCandidate sc2 id t))

def compareMinID : Int × Tracker :=
  if id = t.minId then
    (t.minCounter + 1, { t with minScore := sc, minCounter := t.minCounter + 1 })
  else (0, t)

def compareMaxID : Int × Tracker :=
  if id = t.maxId then
    (t.maxCounter + 1, { t with maxScore := sc, maxCounter := t.maxCounter + 1 })
  else (0, t)

def lockMaxScore : Bool × Tracker :=
  if t.maxScoreLock = false then (true, { t with maxScoreLock := true }) else (false, t)

def unlockMaxScore : Tracker :=
  { t with maxScoreLock := false, maxScore := noMaxScore, maxId := -1 }

/-- The three answers of `lock_min_score`. -/
inductive MinLock
  | busy          -- 0
  | noCandidate   -- 1
  | taken         -- 2
  deriving DecidableEq, Repr

def lockMinScore : MinLock × Tracker :=
  if t.minId = -1 then (.noCandidate, t)
  else if t.minScoreLock = false then (.taken, { t with minScoreLock := true })
  else (.busy, t)

def unlockMinScore : Tracker := { t with minScoreLock := false }

def resetMinScore : Tracker :=
  if t.minScoreLock = false then { t with minScore := noMinScore, minId := -1 } else t

/-! ### Requests and the spare lock -/

def getSpareClsid : Int := t.spareMemClsid

def spareNeeded : Bool := t.spareRequested

def newMemAvailable : Bool := t.spareMemAvail

def reqSpare : Bool × Tracker :=
  if t.spareRequested = false then (true, { t with spareRequested := true }) else (false, t)

def reqRemSpare : Bool × Tracker :=
  if t.remoteSpareRequested = false then
    (true, { t with remoteSpareRequested := true, rdmaBroadcast := true })
  else (false, t)

def resetLocks : Tracker :=
  { t with
    spareMemOwner := 0
    spareMemAvail := false
    spareRequested := false
    remoteSpareRequested := false }

def lockSpare : Bool × Tracker :=
  if t.spareLock = false then (true, { t with spareLock := true }) else (false, t)

def unlockSpare : Tracker := { t with spareLock := false }

/-! ### Remote memory -/

def rMemReceived : Bool := t.remoteSpareReceived

def receiveRemoteMem (conn n : Nat) (id : Int) (t : Tracker) : Tracker :=
  { t with
    latestConn := some conn
    remoteSpareReceived := true
    presetShare := fun i => if i = id then t.presetShare i + n else t.presetShare i
    spareSize := n }

def setRemoteMem : Tracker :=
  { t with presetShare := fun i => if i = id then t.presetShare i - n else t.presetShare i }

def setRdmaAccessPort (port : Int) (t : Tracker) : Tracker := { t with localAccessPortN := port }

def stopRDMABroadcast : Tracker := { t with rdmaBroadcast := false }

def stopRDMAFinishBroadcast : Tracker := { t with finishBroadcastFlag := false }

def finishBroadcast : Tracker :=
  { t with finishBroadcastFlag := true, tempScore := t.maxScore }

def setRdmaServerInfo (peerAddr : Nat) (peerId : Int) (t : Tracker) : Tracker :=
  { t with
    remoteServerReady := true
    rdmaPeerAddr := peerAddr
    rdmaPeerId := peerId
    remoteSpareRequested := true }

/-- Only the tenant with the highest score is told to fetch a remote page. -/
def rServerAvailable : Bool :=
  if t.maxId = id then t.remoteServerReady else false

/-- Only the tenant with the lowest score is told to release a page to a remote tenant. -/
def remoteSpareNeeded : Bool :=
  if t.minId = id then t.remoteSpareRequested else false

def resetRemoteSpare : Tracker :=
  { t with
    remoteSpareRequested := false
    remoteSpareReceived := false
    remoteServerReady := false
    rdmaPeerAddr := 0
    rdmaPeerId := 0
    localAccessPortN := 0
    minCounter := 0
    maxCounter := 0 }

end Tracker

end MemExchange
