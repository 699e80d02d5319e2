import MemExchange.Slabs.Frame

/-!
# The page that is emptied and the page that is removed

`slab_rebalance_start` empties the page at `slab_to_release` when it releases to another tenant, and
that at 0 when it moves a page between classes. `slab_rebalance_finish` removes the entry at
`slab_to_release` in both cases, and that is -1 unless a release set it: the last entry is dropped.
The release of free space to a remote tenant names page 0 of class 1 without asking whether there is
one or whose it is.
-/
namespace MemExchange.Slabs

/-- Verdict on `slab_rebalance_finish` of anything but a reception: the index is in use, it
has the page chosen at the start, that page is local, and the page list afterwards is the
old one without that entry. -/
def RemovesEmptied (cfg : Config) (w : World) : Action → Prop
  | .finish => w.rebal.done = true → w.rebal.source = .slab →
      let t := w.pages w.rebal.sClsid
      let idx := w.rebal.slabToRelease
      0 ≤ idx ∧ idx < t.slabs ∧ t.slabList idx = w.rebal.slabStart ∧ t.conn idx = none ∧
      (w.slabRebalanceFinish cfg).map (fun w' => (w'.pages w.rebal.sClsid).entries) =
        some (t.entries.eraseIdx idx.toNat)
  | _ => True

instance (cfg : Config) : DecidableRel (RemovesEmptied cfg) := fun _ action => by
  cases action <;> unfold RemovesEmptied <;> infer_instance

/-- No move between classes is accepted, `force_reassign` does not interfere with a move,
and free space goes to a remote tenant only while class 1 begins with a local page. -/
def AsksForItsPages (cfg : Config) (w : World) : Action → Prop
  | .reassign src dst => (w.doSlabsReassign cfg src dst).1 = true → src = 1000
  | .forceReassign d => (w.forceReassign cfg d).1 = false ∧
      (w.rebal.signal = .idle ∨ w.rebal.signal = .waiting)
  | .releaseFreeRemote => 0 < (w.pages 1).slabs ∧ (w.pages 1).conn 0 = none
  | _ => True

instance (cfg : Config) : DecidableRel (AsksForItsPages cfg) := fun _ action => by
  cases action <;> unfold AsksForItsPages <;> infer_instance

/-! ### Page tables through the steps -/

/-- `t'` has the entries of `t` where they were, and perhaps more behind them. -/
structure Extends (t t' : PageTable) : Prop where
  slabs : t.slabs ≤ t'.slabs
  slabList : ∀ i : Nat, i < t.slabs → t'.slabList i = t.slabList i
  conn : ∀ i : Nat, i < t.slabs → t'.conn i = t.conn i

variable (cfg : Config) (t : PageTable) (w : World) (page : Option Nat) (action : Action)

theorem Extends.refl : Extends t t := ⟨le_rfl, fun _ _ => rfl, fun _ _ => rfl⟩

theorem extends_attach (rkey : Nat) (conn : Option Nat) : Extends t (t.attach page rkey conn) where
  slabs := Nat.le_succ _
  slabList i inside := Function.update_of_ne (by omega) _ _
  conn i inside := Function.update_of_ne (by omega) _ _

namespace World

variable {w' : World} {found : Option Chunk} (page : Nat)

theorem pages_of_cls {w : World} (same : w'.cls = w.cls) (id : Int) :
    w'.pages id = w.pages id := by rw [pages, same, pages]

theorem addPage_pages (id other : Int) : (w.addPage cfg page id).pages other =
      if other = id then (w.pages id).attach (some page) 0 none else w.pages other := by
  have kept := (w.zeroPage_chunksOnly page).trans (split_chunksOnly cfg _ page id (cfg.len id))
  rw [addPage, setPages_pages, kept.pages id, kept.pages other]

theorem addPage_rebal (id : Int) : (w.addPage cfg page id).rebal = w.rebal :=
  ((w.zeroPage_chunksOnly page).trans (split_chunksOnly cfg _ page id (cfg.len id))).rebal

theorem doSlabsNewslab_grows {id : Int} (called : w.doSlabsNewslab cfg id = some w') :
    w'.rebal = w.rebal ∧ ∀ other, other ≠ 0 → Extends (w.pages other) (w'.pages other) := by
  obtain ⟨a, -, -, refreshed⟩ := w.refreshed_eq cfg
  have pool : ∀ {entry w₁}, (w.refreshed cfg).getPageFromGlobalPool = (entry, w₁) →
      w₁.rebal = w.rebal ∧ ∀ other, other ≠ 0 → w₁.pages other = w.pages other := by
    intro entry w₁ got
    rw [refreshed] at got
    rcases getPageFromGlobalPool_eq _ got with ⟨-, rfl, -⟩ | ⟨-, -, rfl⟩
    · exact ⟨rfl, fun _ _ => rfl⟩
    · exact ⟨rfl, fun other notPool => by rw [setPages_pages, if_neg notPool]; rfl⟩
  have added : ∀ {w₁ : World} {page}, (∀ other, other ≠ 0 → w₁.pages other = w.pages other) →
      ∀ other, other ≠ 0 → Extends (w.pages other) ((w₁.addPage cfg page id).pages other) := by
    intro w₁ page same other notPool
    rw [addPage_pages]
    split
    next here =>
      subst here
      rw [same _ notPool]
      exact extends_attach ..
    next => rw [same _ notPool]; exact .refl _
  cases w.doSlabsNewslab_newslab cfg called with
  | refused => rw [refreshed]; exact ⟨rfl, fun _ _ => .refl _⟩
  | reached => exact ⟨rfl, fun _ _ => .refl _⟩
  | pooled open_ passes got =>
    obtain ⟨rebal, same⟩ := pool got
    exact ⟨by rw [addPage_rebal, rebal], added same⟩
  | exhausted got memory =>
    obtain ⟨rebal, same⟩ := pool got
    obtain ⟨cls, -, -, -, -, rebal', -⟩ := memoryAllocate_eq cfg _ memory
    refine ⟨rebal'.trans rebal, fun other notPool => ?_⟩
    rw [pages_of_cls cls, same other notPool]
    exact .refl _
  | mapped open_ passes got memory =>
    obtain ⟨rebal, same⟩ := pool got
    obtain ⟨cls, -, -, -, -, rebal', -⟩ := memoryAllocate_eq cfg _ memory
    refine ⟨by rw [addPage_rebal, rebal', rebal], added fun other notPool => ?_⟩
    rw [pages_of_cls cls, same other notPool]

theorem takeChunk_keeps {id : Int} (taken : w.takeChunk id = some (found, w')) :
    w'.rebal = w.rebal ∧ ∀ other, w'.pages other = w.pages other := by
  rcases w.takeChunk_cases taken with ⟨-, it, -, slot⟩ | ⟨-, it, -, slot⟩ | ⟨-, rfl⟩
  · have kept := w.takeSlot_uncut slot
    exact ⟨kept.rebal, kept.pages⟩
  · obtain ⟨r, rest, -, -, rfl⟩ := w.takeRemoteSlot_eq slot
    refine ⟨rfl, fun other => ?_⟩
    rw [pages, setClass_cls]
    split
    next here => rw [here]; rfl
    next => rfl
  · exact ⟨rfl, fun _ => rfl⟩

theorem doSlabsAlloc_grows {id : Int} {noNewPage : Bool}
    (called : w.doSlabsAlloc cfg id noNewPage = some (found, w')) :
    w'.rebal = w.rebal ∧ ∀ other, other ≠ 0 → Extends (w.pages other) (w'.pages other) := by
  simp only [doSlabsAlloc] at called
  split at called
  · split at called
    · obtain ⟨w₁, newslab, taken⟩ := Option.bind_eq_some_iff.mp called
      obtain ⟨rebal, grown⟩ := w.doSlabsNewslab_grows cfg newslab
      obtain ⟨rebal', same⟩ := w₁.takeChunk_keeps taken
      exact ⟨rebal'.trans rebal, fun other notPool => by rw [same]; exact grown other notPool⟩
    · obtain ⟨rebal, same⟩ := w.takeChunk_keeps called
      exact ⟨rebal, fun other _ => by rw [same]; exact .refl _⟩
  · cases called
    exact ⟨rfl, fun _ _ => .refl _⟩

/-! ### The page list loop -/

theorem renumber_pages (id : Int) (x : Int) (other : Int) :
    (w.renumber cfg id x).pages other = w.pages other := by
  simp only [renumber]
  split <;> rfl

theorem shiftPages_pages (id : Int) (x : Int) (n : Nat) (other : Int) :
    (w.shiftPages cfg id x n).pages other =
      if other = id then (w.pages id).shift x n else w.pages other := by
  induction n generalizing w x with
  | zero =>
    rw [shiftPages, PageTable.shift]
    split
    next here => rw [here]
    next => rfl
  | succ n ih =>
    rw [shiftPages, ih, renumber_pages, renumber_pages, setPages_pages, setPages_pages, if_pos rfl,
      PageTable.shift]
    split <;> rfl

theorem removePage_pages (id : Int) (idx : Int) (other : Int) :
    (w.removePage cfg id idx).pages other =
      if other = id then (w.pages id).remove idx else w.pages other := by
  rw [removePage, setPages_pages, shiftPages_pages, shiftPages_pages, setPages_pages, setPages_pages,
    if_pos rfl, if_pos rfl, PageTable.remove]
  split <;> rfl

theorem giveAway_pages (page : Option Nat) (id : Int) :
    (w.giveAway cfg page).pages id = w.pages id := by
  simp only [giveAway]
  split <;> rfl

theorem finishAccount_pages (id : Int) : (w.finishAccount cfg).pages id = w.pages id := by
  simp only [finishAccount]
  split <;> rfl

theorem finishReset_pages (id : Int) : w.finishReset.pages id = w.pages id := by
  simp only [finishReset]
  split <;> rfl

theorem releaseFreeLocal_keeps (called : w.releaseFreeLocal cfg = some w') :
    w'.rebal = w.rebal ∧ ∀ id, w'.pages id = w.pages id := by
  rw [releaseFreeLocal] at called
  split at called
  · cases called
    exact ⟨rfl, fun _ => rfl⟩
  · cases called

/-- Accepted or not, a request only writes what the mover reads, and only while idle. -/
theorem doSlabsReassign_cases (src dst : Int) : ((w.doSlabsReassign cfg src dst).1 = false ∧
      ∃ cur, (w.doSlabsReassign cfg src dst).2 = w.setRebal fun r => { r with cur := cur }) ∨
    ((w.doSlabsReassign cfg src dst).1 = true ∧ w.rebal.signal = .idle ∧ src = 1000 ∧
      (w.doSlabsReassign cfg src dst).2 =
        w.setRebal fun r => { r with signal := .waiting, dClsid := dst }) ∨
    ((w.doSlabsReassign cfg src dst).1 = true ∧ w.rebal.signal = .idle ∧ src ≠ 1000 ∧
      ∃ src' cur, (src ≠ -1 → src' = src) ∧ w.acceptsReassign cfg src' dst = true ∧
        (w.doSlabsReassign cfg src dst).2 = w.setRebal fun r =>
          { r with cur := cur, sClsid := src', dClsid := dst, signal := .requested }) := by
  by_cases idle : w.rebal.signal = .idle
  swap
  · refine .inl ?_
    rw [doSlabsReassign, if_pos idle]
    exact ⟨rfl, w.rebal.cur, rfl⟩
  rw [doSlabsReassign, if_neg (not_not.mpr idle)]
  by_cases unknown : src = 1000
  · rw [if_pos unknown]
    exact .inr (.inl ⟨rfl, idle, unknown, rfl⟩)
  rw [if_neg unknown]
  by_cases same : src = dst ∧ w.rebal.source = .slab
  · rw [if_pos same]
    exact .inl ⟨rfl, w.rebal.cur, rfl⟩
  rw [if_neg same]
  -- the class that is looked for when the request does not name one
  set picked := if src = -1 then w.slabsReassignPickAny cfg dst w.rebal.cur cfg.powerLargest.toNat
    else (src, w.rebal.cur) with pick
  by_cases accepts : w.acceptsReassign cfg picked.1 dst = true
  · refine .inr (.inr ⟨?_, idle, unknown, picked.1, picked.2, fun known => ?_, accepts, ?_⟩)
    · exact congrArg Prod.fst (if_pos accepts)
    · rw [pick, if_neg known]
    · exact congrArg Prod.snd (if_pos accepts)
  · refine .inl ⟨?_, picked.2, ?_⟩
    · exact congrArg Prod.fst (if_neg accepts)
    · exact congrArg Prod.snd (if_neg accepts)

end World

/-! ### The page that was picked -/

/-- The entry the mover was told about is in use and local. -/
structure Picked (cfg : Config) (w : World) : Prop where
  isClass : cfg.isClass w.rebal.sClsid = true
  leaves : w.rebal.destination ≠ .slab
  inside : ∃ idx : Nat, w.rebal.slabToRelease = idx ∧ idx < (w.pages w.rebal.sClsid).slabs ∧
    (w.pages w.rebal.sClsid).conn idx = none
  start : w.rebal.signal = .moving →
    w.rebal.slabStart = (w.pages w.rebal.sClsid).slabList w.rebal.slabToRelease

structure PickInv (cfg : Config) (w : World) : Prop where
  done : w.rebal.done = true → w.rebal.signal = .moving
  picked : w.rebal.signal = .requested ∨ w.rebal.signal = .moving → w.rebal.source = .slab → Picked cfg w

/-- The part of the mover's state that tells it its work. -/
structure SameWork (r r' : Rebal) : Prop where
  signal : r'.signal = r.signal
  sClsid : r'.sClsid = r.sClsid
  slabStart : r'.slabStart = r.slabStart
  slabToRelease : r'.slabToRelease = r.slabToRelease
  source : r'.source = r.source
  destination : r'.destination = r.destination

section PickInv

variable {cfg w} {w' : World}

theorem ne_zero_of_isClass {id : Int} (isClass : cfg.isClass id = true) : id ≠ 0 := by
  simp only [Config.isClass, decide_eq_true_eq] at isClass
  omega

variable {src dst : Int} {found : World.Found}

theorem isClass_of_accepts (accepts : w.acceptsReassign cfg src dst = true)
    (source : w.rebal.source = .slab) (leaves : w.rebal.destination ≠ .slab) :
    cfg.isClass src = true := by
  simp only [World.acceptsReassign, source, leaves, ne_eq, not_true_eq_false, not_false_eq_true,
    if_true, if_false, Bool.decide_and, Bool.and_eq_true, decide_eq_true_eq] at accepts
  exact accepts.1

theorem Picked.grown (picked : Picked cfg w) (work : SameWork w.rebal w'.rebal)
    (grown : ∀ id, id ≠ 0 → Extends (w.pages id) (w'.pages id)) : Picked cfg w' := by
  obtain ⟨idx, toRelease, inside, isLocal⟩ := picked.inside
  have here := grown _ (ne_zero_of_isClass picked.isClass)
  refine ⟨?_, ?_, ⟨idx, ?_, ?_, ?_⟩, ?_⟩
  · rw [work.sClsid]; exact picked.isClass
  · rw [work.destination]; exact picked.leaves
  · rw [work.slabToRelease, toRelease]
  · rw [work.sClsid]; exact lt_of_lt_of_le inside here.slabs
  · rw [work.sClsid, here.conn idx inside]; exact isLocal
  · intro moving
    rw [work.slabStart, work.sClsid, work.slabToRelease, picked.start (work.signal ▸ moving),
      toRelease, here.slabList idx inside]

theorem PickInv.grown (inv : PickInv cfg w) (work : SameWork w.rebal w'.rebal)
    (done : w'.rebal.done = true → w.rebal.done = true ∨ w.rebal.signal = .moving)
    (grown : ∀ id, id ≠ 0 → Extends (w.pages id) (w'.pages id)) : PickInv cfg w' where
  done now := by
    rw [work.signal]
    exact (done now).elim inv.done id
  picked busy source := by
    rw [work.signal] at busy
    rw [work.source] at source
    exact (inv.picked busy source).grown work grown

theorem PickInv.same (inv : PickInv cfg w) (rebal : w'.rebal = w.rebal)
    (grown : ∀ id, id ≠ 0 → Extends (w.pages id) (w'.pages id)) : PickInv cfg w' :=
  inv.grown (by rw [rebal]; exact ⟨rfl, rfl, rfl, rfl, rfl, rfl⟩) (by rw [rebal]; exact .inl) grown

theorem pickInv_of_unemployed (done : w'.rebal.done = true → w'.rebal.signal = .moving)
    (free : w'.rebal.signal = .idle ∨ w'.rebal.signal = .waiting) : PickInv cfg w' where
  done := done
  picked busy := by
    rcases free with free | free <;> rw [free] at busy <;> simp at busy

theorem pickInv_releasePage (inv : PickInv cfg w) {id : Int} {page : Int} {toRemote : Bool}
    (called : w.releasePage cfg id page toRemote = some w') : PickInv cfg w' := by
  obtain ⟨may, ⟨⟩⟩ := Option.ite_none_right_eq_some.mp called
  simp only [World.mayRelease, Bool.decide_and, Bool.and_eq_true, decide_eq_true_eq] at may
  obtain ⟨idle, isClass, -, many, first, last, isLocal, -⟩ := may
  simp only [Config.isClass, decide_eq_true_eq] at isClass
  have notDone : w.rebal.done ≠ true := fun done => by
    have := inv.done done
    simp [idle] at this
  set chosen := w.setRebal fun r =>
    { r with
      destination := if toRemote then .remoteTenant else .localTenant
      slabToRelease := page
      prevVictim := id } with chosen_eq
  have leaves : chosen.rebal.destination ≠ .slab := by
    change (if toRemote = true then Tenancy.remoteTenant else Tenancy.localTenant) ≠ .slab
    split <;> simp
  rcases chosen.doSlabsReassign_cases cfg id (-2) with
    ⟨-, cur, after⟩ | ⟨-, -, big, -⟩ | ⟨-, -, -, src, cur, named, accepts, after⟩
  · rw [after]
    exact pickInv_of_unemployed (fun done => absurd done notDone) (.inl idle)
  · have := cfg.few
    omega
  · rw [after]
    obtain rfl := named (by omega)
    refine ⟨fun done => absurd done notDone,
      fun _ source => ⟨isClass_of_accepts accepts source leaves, leaves,
        ⟨page.toNat, ?_, ?_, ?_⟩, ?_⟩⟩
    · exact (Int.toNat_of_nonneg first).symm
    · change page.toNat < (w.pages src).slabs
      omega
    · change (w.pages src).conn (page.toNat : Int) = none
      rwa [Int.toNat_of_nonneg first]
    · intro moving
      cases moving

theorem pickInv_releaseFreeRemote (inv : PickInv cfg w) (first : 0 < (w.pages 1).slabs)
    (isLocal : (w.pages 1).conn 0 = none) (called : w.releaseFreeRemote cfg = some w') :
    PickInv cfg w' := by
  obtain ⟨guard, called⟩ := Option.ite_none_right_eq_some.mp called
  obtain ⟨w₁, newslab, rfl⟩ := Option.map_eq_some_iff.mp called
  obtain ⟨rebal, grown⟩ := w.doSlabsNewslab_grows cfg newslab
  have one := grown 1 (by omega)
  have notDone : w₁.rebal.done ≠ true := fun done => by
    rw [rebal] at done
    have := inv.done done
    simp [guard.1] at this
  rcases (w₁.setRebal fun r => { r with destination := .remoteTenant, slabToRelease := 0
    }).doSlabsReassign_cases cfg 1 (-2) with
    ⟨-, cur, after⟩ | ⟨-, -, big, -⟩ | ⟨-, -, -, src, cur, named, accepts, after⟩
  · rw [after]
    exact pickInv_of_unemployed (fun done => absurd done notDone) (.inl ((congrArg Rebal.signal rebal).trans guard.1))
  · omega
  · rw [after]
    obtain rfl := named (by omega)
    refine ⟨fun done => absurd done notDone,
      fun _ source => ⟨isClass_of_accepts accepts source (by simp [World.setRebal]), ?_,
        ⟨0, rfl, ?_, ?_⟩, ?_⟩⟩
    · simp [World.setRebal]
    · exact lt_of_lt_of_le first one.slabs
    · exact (one.conn 0 first).trans isLocal
    · intro moving
      cases moving

theorem pickInv_of_receiver (notDone : w'.rebal.done ≠ true) (receives : w'.rebal.source ≠ .slab) :
    PickInv cfg w' where
  done done := absurd done notDone
  picked _ source := absurd source receives

section

variable (inv : PickInv cfg w)
include inv

theorem PickInv.not_done (resting : w.rebal.signal ≠ .moving) :
    w.rebal.done ≠ true := fun done => resting (inv.done done)

theorem pickInv_reassign (asks : (w.doSlabsReassign cfg src dst).1 = true → src = 1000) :
    PickInv cfg (w.doSlabsReassign cfg src dst).2 := by
  rcases w.doSlabsReassign_cases cfg src dst with
    ⟨-, cur, after⟩ | ⟨-, idle, -, after⟩ | ⟨accepted, -, known, -⟩
  · rw [after]
    exact inv.grown ⟨rfl, rfl, rfl, rfl, rfl, rfl⟩ .inl fun _ _ => .refl _
  · rw [after]
    refine pickInv_of_unemployed (fun done => ?_) (.inr rfl)
    exact absurd done (inv.not_done (by rw [idle]; simp))
  · exact absurd (asks accepted) known

theorem pickInv_forceReassign {d : Int} (refused : (w.forceReassign cfg d).1 = false)
    (free : w.rebal.signal = .idle ∨ w.rebal.signal = .waiting) :
    PickInv cfg (w.forceReassign cfg d).2 := by
  have notDone : w.rebal.done ≠ true := inv.not_done (by rcases free with free | free <;> simp [free])
  simp only [World.forceReassign] at refused ⊢
  rcases World.doSlabsReassign_cases cfg _ _ d with
    ⟨-, cur, after⟩ | ⟨accepted, -⟩ | ⟨accepted, -⟩
  · rw [after]
    exact pickInv_of_unemployed (fun done => absurd done notDone) free
  · rw [refused] at accepted; cases accepted
  · rw [refused] at accepted; cases accepted

theorem pickInv_start (called : w.slabRebalanceStart cfg = some w') : PickInv cfg w' := by
  obtain ⟨requested, called⟩ := Option.ite_none_left_eq_some.mp called
  rw [not_not] at requested
  split at called
  · cases called
    refine pickInv_of_unemployed (fun done => ?_) (.inl rfl)
    exact absurd done (inv.not_done (by rw [requested]; simp))
  · cases called
    refine ⟨fun _ => rfl, fun _ source => ?_⟩
    -- a release empties the page at the index it will remove
    have picked := inv.picked (.inl requested) source
    obtain ⟨isClass, leaves, inside, -⟩ := picked
    refine ⟨isClass, leaves, inside, fun _ => ?_⟩
    have own : ¬ (w.rebal.source ≠ .slab ∧ (w.pages w.rebal.sClsid).slabs = 0) :=
      fun both => both.1 source
    simp only [World.setRebal, if_neg own, if_pos leaves]
    rfl

end

theorem emptyChunk_keeps {it : Chunk} (called : w.emptyChunk cfg it found = some w') :
    SameWork w.rebal w'.rebal ∧ ∀ id, w'.pages id = w.pages id := by
  obtain ⟨w₁, only, rfl | rfl⟩ := w.emptyChunk_uncut cfg called
  · exact ⟨by rw [only.rebal]; exact ⟨rfl, rfl, rfl, rfl, rfl, rfl⟩, only.pages⟩
  · refine ⟨?_, only.pages⟩
    simp only [World.markBusy, World.setRebal, only.rebal]
    exact ⟨rfl, rfl, rfl, rfl, rfl, rfl⟩

/-- A step of the mover: a reception only notes that it is done. -/
theorem slabRebalanceMove_cases (called : w.slabRebalanceMove cfg found = some w') :
    w.rebal.signal = .moving ∧ (w' = (w.setRebal fun r => { r with done := true }) ∨
      ∃ it w₁, w.emptyChunk cfg it found = some w₁ ∧ w' = w₁.advance cfg) := by
  obtain ⟨guard, called⟩ := Option.ite_none_left_eq_some.mp called
  refine ⟨not_not.mp fun other => guard (.inl other), ?_⟩
  split at called
  · cases called
  split at called
  · cases called
    exact .inl rfl
  · obtain ⟨w₁, emptied, rfl⟩ := Option.map_eq_some_iff.mp called
    exact .inr ⟨_, w₁, emptied, rfl⟩

/-- The mover changes chunks and its own state, and goes on with the same work. -/
theorem slabRebalanceMove_uncut (called : w.slabRebalanceMove cfg found = some w') :
    ∃ w₁ r, Uncut w w₁ ∧ SameWork w.rebal r ∧ w' = { w₁ with rebal := r } := by
  obtain ⟨-, rfl | ⟨it, w₂, emptied, rfl⟩⟩ := slabRebalanceMove_cases called
  · exact ⟨w, { w.rebal with done := true }, .refl w, ⟨rfl, rfl, rfl, rfl, rfl, rfl⟩, rfl⟩
  have work : SameWork w.rebal (w₂.advance cfg).rebal := by
    obtain ⟨signal, sClsid, slabStart, slabToRelease, source, destination⟩ := (emptyChunk_keeps emptied).1
    simp only [World.advance, World.setRebal]
    split
    · exact ⟨signal, sClsid, slabStart, slabToRelease, source, destination⟩
    split <;> exact ⟨signal, sClsid, slabStart, slabToRelease, source, destination⟩
  obtain ⟨w₁, only, rfl | rfl⟩ := w.emptyChunk_uncut cfg emptied <;> exact ⟨_, _, only, work, rfl⟩

theorem pickInv_move (inv : PickInv cfg w) (called : w.slabRebalanceMove cfg found = some w') :
    PickInv cfg w' := by
  obtain ⟨moving, -⟩ := slabRebalanceMove_cases called
  obtain ⟨w₁, r, only, work, rfl⟩ := slabRebalanceMove_uncut called
  refine inv.grown work (fun _ => .inr moving) fun id _ => ?_
  change Extends (w.pages id) (w₁.pages id)
  rw [only.pages]
  exact .refl _

theorem finishReset_free (w : World) : w.finishReset.rebal.done = false ∧
    (w.finishReset.rebal.signal = .idle ∨ w.finishReset.rebal.signal = .waiting) := by
  simp only [World.finishReset]
  split
  · exact ⟨rfl, .inr rfl⟩
  · exact ⟨rfl, .inl rfl⟩

theorem pickInv_finish (called : w.slabRebalanceFinish cfg = some w') : PickInv cfg w' := by
  obtain ⟨-, called⟩ := Option.ite_none_right_eq_some.mp called
  obtain ⟨w₁, -, rfl⟩ := Option.map_eq_some_iff.mp called
  obtain ⟨notDone, free⟩ := finishReset_free (w₁.finishAccount cfg)
  exact pickInv_of_unemployed (fun done => by rw [notDone] at done; cases done) free

theorem memoryRelease_keeps (cfg : Config) (n : Nat) (w : World) :
    (w.memoryRelease cfg n).rebal = w.rebal ∧
    ∀ id, id ≠ 0 → (w.memoryRelease cfg n).pages id = w.pages id := by
  induction n generalizing w with
  | zero => exact ⟨rfl, fun _ _ => rfl⟩
  | succ n ih =>
    rw [World.memoryRelease]
    split
    · exact ⟨rfl, fun _ _ => rfl⟩
    cases pool : w.getPageFromGlobalPool with
    | mk entry w₁ =>
      have kept : w₁.rebal = w.rebal ∧ ∀ id, id ≠ 0 → w₁.pages id = w.pages id := by
        rcases w.getPageFromGlobalPool_eq pool with ⟨-, rfl, -⟩ | ⟨-, -, rfl⟩
        · exact ⟨rfl, fun _ _ => rfl⟩
        · exact ⟨rfl, fun id notPool => by rw [World.setPages_pages, if_neg notPool]⟩
      cases entry with
      | none => exact kept
      | some page =>
        obtain ⟨rebal, pages⟩ :=
          ih ((w₁.setAccount (·.subMalloced cfg.itemSizeMax)).uncharge (some page))
        exact ⟨rebal.trans kept.1, fun id notPool => (pages id notPool).trans (kept.2 id notPool)⟩

theorem extends_hits (id : Int) (page : Int) (other : Int) :
    Extends (w.pages other) ((w.incrSlabHits id page).pages other) := by
  unfold World.incrSlabHits
  split
  · rw [World.setPages_pages]
    split
    next here => rw [here]; exact ⟨le_rfl, fun _ _ => rfl, fun _ _ => rfl⟩
    next => exact .refl _
  · exact .refl _

theorem incrSlabHits_rebal (id : Int) (page : Int) : (w.incrSlabHits id page).rebal = w.rebal := by
  unfold World.incrSlabHits
  split <;> rfl

end PickInv

/-! ### Runs -/

/-- The actions that leave the mover and its request alone. -/
def Action.besideMover : Action → Bool
  | .preallocate _ | .alloc _ _ | .link _ | .itemFree _ | .storeRemote _ | .hit _ _
  | .releaseFreeLocal | .adjustMemLimit _ | .other _ | .copyMr _ _ => true
  | _ => false

/-- Beside the mover, a class only gains pages. -/
theorem besideMover_step (beside : action.besideMover = true) (called : step cfg w action = some w') :
    w'.rebal = w.rebal ∧ ∀ id, id ≠ 0 → Extends (w.pages id) (w'.pages id) := by
  cases action <;> simp only [Action.besideMover, Bool.false_eq_true] at beside
  case preallocate id =>
    obtain ⟨-, called⟩ := Option.ite_none_right_eq_some.mp called
    exact w.doSlabsNewslab_grows cfg called
  case alloc id noNewPage =>
    obtain ⟨⟨found, after⟩, alloc, rfl⟩ := Option.map_eq_some_iff.mp called
    exact w.doSlabsAlloc_grows cfg alloc
  case link c =>
    obtain ⟨-, ⟨⟩⟩ := Option.ite_none_right_eq_some.mp called
    exact ⟨rfl, fun _ _ => .refl _⟩
  case itemFree c =>
    obtain ⟨-, ⟨⟩⟩ := Option.ite_none_right_eq_some.mp called
    have only := w.doSlabsFree_uncut cfg c (w.header c).clsid
    refine ⟨only.rebal, fun id _ => ?_⟩
    change Extends (w.pages id) ((w.doSlabsFree cfg c (w.header c).clsid).pages id)
    rw [only.pages]
    exact .refl _
  case storeRemote c =>
    simp only [step, World.storeRemote] at called
    split at called
    · cases called
    split at called <;> cases called
    exact ⟨rfl, fun _ _ => .refl _⟩
  case hit id page =>
    obtain rfl := Option.some.inj called
    exact ⟨incrSlabHits_rebal .., fun other _ => extends_hits ..⟩
  case releaseFreeLocal =>
    obtain ⟨rebal, pages⟩ := World.releaseFreeLocal_keeps cfg w called
    exact ⟨rebal, fun id _ => by rw [pages]; exact .refl _⟩
  case adjustMemLimit limit =>
    cases called
    unfold World.doSlabsAdjustMemLimit
    split
    · exact ⟨rfl, fun _ _ => .refl _⟩
    · obtain ⟨rebal, pages⟩ := memoryRelease_keeps cfg (w.pages 0).slabs
        (w.setAccount fun a => { a with memLimit := limit, memLimitReached := false })
      exact ⟨rebal, fun id notPool => by rw [pages id notPool]; exact .refl _⟩
  case other op =>
    obtain ⟨-, ⟨⟩⟩ := Option.ite_none_left_eq_some.mp called
    exact ⟨rfl, fun _ _ => .refl _⟩
  case copyMr conn mr => cases called; exact ⟨rfl, fun _ _ => .refl _⟩

/-- The picked page stays in its class while a move is under way. -/
theorem pickInv_step (w' : World) (inv : PickInv cfg w) (asks : AsksForItsPages cfg w action)
    (called : step cfg w action = some w') : PickInv cfg w' := by
  by_cases beside : action.besideMover = true
  · obtain ⟨rebal, grown⟩ := besideMover_step cfg w action beside called
    exact inv.same rebal grown
  cases action <;> simp only [Action.besideMover, not_true_eq_false] at beside
  case reassign src dst => cases called; exact pickInv_reassign inv asks
  case forceReassign d => cases called; exact pickInv_forceReassign inv asks.1 asks.2
  case releasePage id page toRemote => exact pickInv_releasePage inv called
  case releaseFreeRemote => exact pickInv_releaseFreeRemote inv asks.1 asks.2 called
  case receiveLocal =>
    obtain ⟨guard, ⟨⟩⟩ := Option.ite_none_right_eq_some.mp called
    exact pickInv_of_receiver (inv.not_done (by rw [guard.1]; simp)) (by simp [World.setRebal])
  case receiveRemote =>
    obtain ⟨guard, ⟨⟩⟩ := Option.ite_none_right_eq_some.mp called
    exact pickInv_of_receiver (inv.not_done (by rw [guard.1]; simp)) (by simp [World.setRebal])
  case endWaiting =>
    obtain ⟨guard, ⟨⟩⟩ := Option.ite_none_right_eq_some.mp called
    refine pickInv_of_unemployed (fun done => ?_) (.inl rfl)
    exact absurd done (inv.not_done (by rw [guard]; simp))
  case start => exact pickInv_start inv called
  case move found => exact pickInv_move inv called
  case finish => exact pickInv_finish called

theorem shiftPages_rebal (id x : Int) (n : Nat) : (w.shiftPages cfg id x n).rebal = w.rebal := by
  induction n generalizing w x with
  | zero => rfl
  | succ n ih =>
    rw [World.shiftPages, ih, World.renumber]
    simp only
    split <;> rfl

theorem giveAway_rebal : (w.giveAway cfg page).rebal = w.rebal := by
  simp only [World.giveAway]
  split <;> rfl

theorem finishSource_rebal : (w.finishSource cfg).rebal = w.rebal := by
  simp only [World.finishSource]
  split
  · rfl
  · rw [giveAway_rebal]
    exact shiftPages_rebal ..

theorem removesEmptied_of_picked (inv : PickInv cfg w) : RemovesEmptied cfg w action := by
  cases action with
  | finish =>
    intro done source
    have moving := inv.done done
    obtain ⟨-, leaves, ⟨idx, toRelease, inside, isLocal⟩, start⟩ := inv.picked (.inr moving) source
    have handed : (w.finishSource cfg).rebal.destination ≠ .slab := by
      rw [finishSource_rebal]; exact leaves
    have removed : (w.finishSource cfg).pages w.rebal.sClsid = (w.pages w.rebal.sClsid).remove idx := by
      simp only [World.finishSource, source, ne_eq, not_true_eq_false, if_false]
      rw [World.giveAway_pages, World.removePage_pages, if_pos rfl, toRelease]
    simp only [toRelease]
    refine ⟨by omega, by omega, ?_, isLocal, ?_⟩
    · rw [start moving, toRelease]
    · rw [World.slabRebalanceFinish, if_pos done, World.finishDestination, if_pos handed,
        Option.map_some, Option.map_some, World.finishReset_pages, World.finishAccount_pages, removed,
        PageTable.entries_remove _ inside, Int.toNat_natCast]
  | _ => trivial

theorem pickInv_initial (limit : Nat) (t : Tracker) (junk : Int → PageTable) :
    PickInv cfg (.initial cfg limit t junk) :=
  pickInv_of_unemployed (fun done => by cases done) (.inl rfl)

/-- In every run in which only pages that the scores picked, or a local first page of
class 1, are asked for, every page that is removed is the one that was emptied. -/
theorem removes_emptied_of_own_pages (cfg : Config) (limit : Nat) (t : Tracker)
    (junk : Int → PageTable) (run : List Action)
    (asks : Run.Along (step cfg) (AsksForItsPages cfg) (.initial cfg limit t junk) run) :
    Run.Along (step cfg) (RemovesEmptied cfg) (.initial cfg limit t junk) run :=
  Run.along_of_invariant (pickInv_step cfg)
    (fun w action inv _ => removesEmptied_of_picked cfg w action inv)
    (pickInv_initial cfg limit t junk) asks

/-! ### A tenant with large chunks -/

/-- Four classes of chunks of half a megabyte, a page having two of them. -/
def halves (countsFirst : Bool) : Config where
  pagesize := 4096
  powerLargest := 4
  dims _ := ⟨524288, 2⟩
  slabPageSize := 1048576
  itemSizeMax := 1048576
  slabReassign := true
  chunked := true
  prealloc := false
  slot := 0
  countsFirst := countsFirst
  few := by decide
  pageSize_lt := by decide
  size_pos _ _ _ := by decide
  perslab_pos _ _ _ := by decide
  perslab_eq _ _ _ := by decide

/-- The tenant owns a quarter of the slab memory. -/
def quarterOf (bytes : Nat) : Tracker := .initial bytes (fun _ => 1 / 4) 0

/-- The tenant at the start, with page arrays that happen to be cleared. -/
def blank (cfg : Config) (bytes : Nat) : World := .initial cfg 0 (quarterOf bytes) fun _ => {}

/-- Fill class `id` with `n` pages. -/
def fill (id : Int) (n : Nat) : List Action := List.replicate (2 * n) (.alloc id false)

/-- Free and clear a page of two chunks in two passes of the mover. -/
def clearPage (page : Nat) : List Action :=
  [.itemFree (.cell page 0), .itemFree (.cell page 1), .start, .move .busy, .move .busy]

/-- Of two classes with eleven pages each, one releases a page to a local tenant and then
the other one to a remote tenant. -/
def twoReleases : List Action :=
  fill 2 11 ++ fill 3 11 ++ [.releasePage 2 1 false] ++ clearPage 1 ++ [.finish] ++
    [.releasePage 3 0 true] ++ clearPage 11 ++ [.finish]

/-- Class 2 gets two pages, and one of them is asked for by class 3. -/
def moveToClassThree : List Action :=
  fill 2 2 ++ [.reassign 2 3] ++ clearPage 0 ++ [.finish]

theorem removes_emptied_by_two_releases :
    Run.Along (step (halves true)) (AsksForItsPages (halves true))
      (blank (halves true) 96000000) twoReleases ∧
    Run.Along (step (halves true)) (RemovesEmptied (halves true))
      (blank (halves true) 96000000) twoReleases :=
  ⟨by decide +kernel, removes_emptied_of_own_pages _ _ _ _ _ (by decide +kernel)⟩

/-- The page that class 3 was given stays in the list of class 2, which loses its other
page instead. -/
theorem moved_page_listed_twice : ¬ Run.Along (step (halves true)) (RemovesEmptied (halves true))
      (blank (halves true) 96000000) moveToClassThree ∧
    (Run.exec (step (halves true)) (blank (halves true) 96000000)
      moveToClassThree).map (fun w => ((w.pages 2).entries, (w.pages 3).entries)) =
        some ([⟨some 0, 0, 0, none⟩], [⟨some 0, 0, 0, none⟩]) := by
  decide +kernel

end MemExchange.Slabs
