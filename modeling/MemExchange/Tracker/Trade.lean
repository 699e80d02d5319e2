import MemExchange.Tracker.Ops

/-!
# Local trades

Victim and victor of a trade round a number of bytes up to whole pages, but not the same number: the
victim the page of the class it empties, the victor the page of the class it wants to fill, once in
`slab_rebalance_finish` and once more in `shm_malloc_spare`.
-/
namespace MemExchange

open Function (update update_self update_of_ne update_apply)

/-- Chunk size and chunks per page of a slab class. Both are `unsigned int`, and so is
their product. -/
structure SlabDims where
  size : UInt32
  perslab : UInt32
  deriving DecidableEq, Repr

/-- `(size_t)(p->size * p->perslab)`. -/
def SlabDims.pageBytes (p : SlabDims) : Nat := (p.size * p.perslab).toNat

/-- The bytes `calculate_scores` gives away when a tenant releases free space. -/
def freeSpaceBytes : Nat := 1047840

namespace Tracker

variable (pagesize : Nat)

/-- The release of a page to a local tenant in `slab_rebalance_finish`. -/
def releasePage (src : SlabDims) (ptr clsid slot : Int) (t : Tracker) : Tracker :=
  t.setSpareMem ptr (adjustSize pagesize src.pageBytes) clsid slot

/-- The release of free space in `calculate_scores`: both critical sections of
`signal_alloc_free`. -/
def releaseFreeSpace (slot : Int) (t : Tracker) : Tracker :=
  let ((rptr, size), t) := t.signalAllocFree pagesize freeSpaceBytes
  t.setSpareMem rptr size 1 slot

/-- The acquisition in `slab_rebalance_finish`: the page of the receiving class, or what
the spare page has if that is less, is asked of `shm_malloc_spare`. -/
def receivePage (dst : SlabDims) (slot : Int) (t : Tracker) : Tracker :=
  let si := adjustSize pagesize dst.pageBytes
  let si := if t.spareSize < si then t.spareSize else si
  (t.shmMallocSpare pagesize si slot).2

end Tracker

inductive Source
  | page (src : SlabDims) (ptr clsid : Int)
  | freeSpace
  deriving DecidableEq

def Source.bytes : Source → Nat
  | .page src .. => src.pageBytes
  | .freeSpace => freeSpaceBytes

/-- The calls that write a share or the size of the spare page. -/
def TrackerOp.trading : TrackerOp → Bool
  | .setSpareMem .. | .shmMallocSpare .. | .receiveRemoteMem .. | .setRemoteMem .. => true
  | _ => false

/-- A completed local trade: a release, calls of any users of the tracker that belong to
no other trade, and the matching acquisition. Shares are kept in four slots. -/
structure Trade where
  releaser : Fin 4
  receiver : Fin 4
  source : Source
  dst : SlabDims
  meanwhile : List TrackerOp
  alone : ∀ op ∈ meanwhile, op.trading = false

/-- The slot of a tenant as the `int` the tracker functions take. -/
def slotId (slot : Fin 4) : Int := slot.val

namespace Trade

variable (pagesize : Nat) (trade : Trade) (t : Tracker)

def release : Tracker :=
  match trade.source with
  | .page src ptr clsid => t.releasePage pagesize src ptr clsid (slotId trade.releaser)
  | .freeSpace => t.releaseFreeSpace pagesize (slotId trade.releaser)

def announced : Tracker :=
  runTracker (trade.release pagesize t) trade.meanwhile

def complete : Tracker :=
  (trade.announced pagesize t).receivePage pagesize trade.dst (slotId trade.receiver)

end Trade

variable (pagesize : Nat) (t : Tracker) (trade : Trade)

def tradeStep : Option Tracker :=
  some (trade.complete pagesize t)

/-- The sum of `preset_share[0..3]`. -/
def Tracker.totalShare : ℚ := ∑ slot : Fin 4, t.presetShare (slotId slot)

/-- What the releaser's share loses is what the receiver's share gains, and the sum of the
shares after the trade is the sum before it. -/
def Conserves : Prop :=
  t.presetShare (slotId trade.releaser)
      - (trade.release pagesize t).presetShare (slotId trade.releaser) =
    (trade.complete pagesize t).presetShare (slotId trade.receiver)
      - (trade.announced pagesize t).presetShare (slotId trade.receiver) ∧
  (trade.complete pagesize t).totalShare = t.totalShare

instance : DecidableRel (Conserves pagesize) :=
  fun _ _ => inferInstanceAs (Decidable (_ ∧ _))

/-! ### Rounding -/

namespace Tracker

section AdjustSize

variable (n m : Nat)

/-- What reaches the receiver's share when `n` bytes were released for a class whose page
has `m`: rounded by the victim, by the victor, and by `shm_malloc_spare`. -/
def mappedBytes : Nat :=
  min (adjustSize pagesize n)
    (adjustSize pagesize (min (adjustSize pagesize n) (adjustSize pagesize m)))

theorem adjustSize_min_adjustSize :
    adjustSize pagesize (min (adjustSize pagesize n) (adjustSize pagesize m)) =
      (min (n / pagesize) (m / pagesize) + 2) * pagesize := by
  rcases Nat.eq_zero_or_pos pagesize with rfl | pos
  · simp [adjustSize]
  · have whole : min (adjustSize pagesize n) (adjustSize pagesize m) =
        (min (n / pagesize) (m / pagesize) + 1) * pagesize := by
      simp only [adjustSize, ← Nat.add_min_add_right, Nat.mul_min_mul_right]
    rw [whole, adjustSize, Nat.mul_div_cancel _ pos]

/-- Everything that was released is mapped exactly when the released bytes fill at most
one system page more than the bytes of the receiving class. -/
theorem mappedBytes_eq_iff :
    mappedBytes pagesize n m = adjustSize pagesize n ↔ n / pagesize ≤ m / pagesize + 1 := by
  rcases Nat.eq_zero_or_pos pagesize with rfl | pos
  · simp [mappedBytes, adjustSize]
  · rw [mappedBytes, adjustSize_min_adjustSize, min_eq_left_iff, adjustSize,
      Nat.mul_le_mul_right_iff pos]
    omega

end AdjustSize

/-! ### Shares and the spare page -/

section Shares

variable (slot : Int)

/-- Both releases take the rounded bytes off the share of the releaser and announce them. -/
theorem release_presetShare : (trade.release pagesize t).presetShare =
      update t.presetShare (slotId trade.releaser)
        (t.presetShare (slotId trade.releaser) - adjustSize pagesize trade.source.bytes) := by
  funext i
  rw [update_apply, Trade.release]
  cases trade.source <;>
    simp only [releasePage, releaseFreeSpace, setSpareMem, signalAllocFree, Source.bytes] <;>
    split <;> simp_all

theorem release_spareSize :
    (trade.release pagesize t).spareSize = adjustSize pagesize trade.source.bytes := by
  rw [Trade.release]
  cases trade.source <;> rfl

/-- A call that does not trade leaves the shares and the size of the spare page alone. -/
theorem apply_of_not_trading (op : TrackerOp) (other : op.trading = false) :
    (op.apply t).presetShare = t.presetShare ∧ (op.apply t).spareSize = t.spareSize := by
  cases op <;> simp only [TrackerOp.trading, Bool.true_eq_false] at other
  case setScores =>
    rw [TrackerOp.apply, setScores_eq]
    exact ⟨rfl, rfl⟩
  all_goals first | exact ⟨rfl, rfl⟩ | simp [TrackerOp.apply]

theorem runTracker_of_not_trading (ops : List TrackerOp) (others : ∀ op ∈ ops, op.trading = false) :
    (runTracker t ops).presetShare = t.presetShare ∧ (runTracker t ops).spareSize = t.spareSize := by
  induction ops generalizing t with
  | nil => exact ⟨rfl, rfl⟩
  | cons op ops ih =>
    obtain ⟨shares, spare⟩ := apply_of_not_trading t op (others op (by simp))
    obtain ⟨laterShares, laterSpare⟩ := ih (op.apply t) fun o mem => others o (by simp [mem])
    exact ⟨laterShares.trans shares, laterSpare.trans spare⟩

theorem receivePage_presetShare (n : Nat) (dst : SlabDims)
    (spare : t.spareSize = adjustSize pagesize n) : (t.receivePage pagesize dst slot).presetShare =
      update t.presetShare slot
        (t.presetShare slot + mappedBytes pagesize n dst.pageBytes) := by
  funext i
  have capped : ∀ a b : Nat, (if a < b then a else b) = min a b := by
    intro a b; split <;> omega
  rw [update_apply, receivePage, shmMallocSpare]
  simp only [capped, spare, mappedBytes]
  split <;> simp_all

theorem slotId_injective : Function.Injective slotId := by
  intro a b same
  exact Fin.ext (Int.ofNat.inj same)

theorem sum_update_slot (shares : Int → ℚ) (slot : Fin 4) (amount : ℚ) :
    ∑ s : Fin 4, update shares (slotId slot) (shares (slotId slot) + amount) (slotId s) =
      (∑ s : Fin 4, shares (slotId s)) + amount := by
  have apart : ∀ s : Fin 4,
      update shares (slotId slot) (shares (slotId slot) + amount) (slotId s) =
        shares (slotId s) + if s = slot then amount else 0 := by
    intro s
    by_cases here : s = slot
    · subst here; simp
    · rw [update_of_ne (slotId_injective.ne here), if_neg here, add_zero]
  rw [Finset.sum_congr rfl fun s _ => apart s, Finset.sum_add_distrib]
  simp

end Shares

end Tracker

open Tracker

/-! ### Trades -/

section Trades

theorem announced_presetShare :
    (trade.announced pagesize t).presetShare = (trade.release pagesize t).presetShare :=
  (runTracker_of_not_trading _ _ trade.alone).1

theorem announced_spareSize :
    (trade.announced pagesize t).spareSize = adjustSize pagesize trade.source.bytes :=
  (runTracker_of_not_trading _ _ trade.alone).2.trans (release_spareSize ..)

theorem complete_presetShare : (trade.complete pagesize t).presetShare =
      update (trade.release pagesize t).presetShare (slotId trade.receiver)
        ((trade.release pagesize t).presetShare (slotId trade.receiver)
          + mappedBytes pagesize trade.source.bytes trade.dst.pageBytes) := by
  rw [Trade.complete, receivePage_presetShare pagesize _ _ trade.source.bytes trade.dst
    (announced_spareSize pagesize t trade), announced_presetShare]

/-- A trade changes the sum of the shares by what it maps less what it releases. -/
theorem complete_totalShare : (trade.complete pagesize t).totalShare = t.totalShare
      - adjustSize pagesize trade.source.bytes
      + mappedBytes pagesize trade.source.bytes trade.dst.pageBytes := by
  rw [totalShare, complete_presetShare, sum_update_slot, release_presetShare, sub_eq_add_neg,
    sum_update_slot, ← totalShare, sub_eq_add_neg]

/-- A single trade conserves the shares exactly when everything released is mapped. -/
theorem conserves_iff : Conserves pagesize t trade ↔
      trade.source.bytes / pagesize ≤ trade.dst.pageBytes / pagesize + 1 := by
  have lost : t.presetShare (slotId trade.releaser)
      - (trade.release pagesize t).presetShare (slotId trade.releaser) =
        adjustSize pagesize trade.source.bytes := by
    rw [release_presetShare, update_self]
    ring
  have gained : (trade.complete pagesize t).presetShare (slotId trade.receiver)
      - (trade.announced pagesize t).presetShare (slotId trade.receiver) =
        mappedBytes pagesize trade.source.bytes trade.dst.pageBytes := by
    rw [complete_presetShare, announced_presetShare, update_self]
    ring
  rw [← mappedBytes_eq_iff, Conserves, lost, gained, complete_totalShare]
  constructor
  · rintro ⟨same, -⟩
    exact_mod_cast same.symm
  · intro all
    rw [all]
    exact ⟨rfl, by ring⟩

end Trades

/-- Over any sequence of local trades, every trade takes from the releaser what it gives
to the receiver, and leaves the sum of the four shares as it was, exactly when each
released page fills at most one system page more than the page of its receiving class. -/
theorem trades_conserve_iff (pagesize : Nat) (t : Tracker) (trades : List Trade) :
    Run.Along (tradeStep pagesize) (Conserves pagesize) t trades ↔
      ∀ trade ∈ trades, trade.source.bytes / pagesize ≤ trade.dst.pageBytes / pagesize + 1 := by
  induction trades generalizing t with
  | nil => simp [Run.Along]
  | cons trade trades ih =>
    rw [Run.Along, conserves_iff, List.forall_mem_cons]
    refine and_congr_right fun _ => ?_
    constructor
    · intro later
      exact (ih _).mp (later _ rfl)
    · intro rest next called
      exact (ih next).mpr rest

/-- A page of 96-byte chunks fills 255 system pages and some bytes and is released as 256;
the class that receives it has pages of two 400000-byte chunks, 196 system pages when
rounded and 197 when rounded again. -/
def shortTrade : Trade where
  releaser := 0
  receiver := 1
  source := .page ⟨96, 10922⟩ 1000000 2
  dst := ⟨400000, 2⟩
  meanwhile := []
  alone := by simp

/-- That trade loses 59 system pages of share for good. -/
theorem short_trade_loses_share :
    let t := Tracker.initial 67108864 (fun _ => 1 / 4) 0
    ¬ Run.Along (tradeStep 4096) (Conserves 4096) t [shortTrade] ∧
      (shortTrade.complete 4096 t).totalShare = t.totalShare - 59 * 4096 := by
  decide +kernel

end MemExchange
