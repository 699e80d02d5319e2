import MemExchange.Tenant.Phase

/-!
# Pages through the spare slot

A victim publishes a page with `set_spare_mem`, the victor maps it with `shm_malloc_spare` and then
resets the flags. The slot holds one page and is guarded by `spare_mem_avail`, `spare_lock` and
`max_score_lock`, each tested in a critical section of its own.
-/
namespace MemExchange.Tenant

/-- No page was mapped twice, overwritten in the slot, or cleared out of it unmapped. -/
def HandedOver (w : World) : Prop :=
  w.ledger.mapped.Nodup ∧ w.ledger.overwritten = [] ∧ w.ledger.cleared = []

instance : DecidablePred HandedOver := fun _ => inferInstanceAs (Decidable (_ ∧ _ ∧ _))

/-- A victim takes `spare_lock` only while no page is in the slot and no other victim is
about to publish one; and the flags are reset on a timeout, at the end of a request or
after a remote page only while no page is in the slot. -/
def SlotInTurn (tenants : List Nat) (w : World) : Action → Prop
  | .run i _ =>
    match (w.tenant i).pc with
    | .lock _ => w.tracker.spareLock = false →
        w.tracker.spareMemAvail = false ∧ ∀ j ∈ tenants, w.phase j ≠ .publishing
    | .timeoutLocks | .endLocks | .attachLocks => w.tracker.spareMemAvail = false
    | _ => True
  | _ => True

instance (tenants : List Nat) (w : World) : DecidablePred (SlotInTurn tenants w) := fun action => by
  delta SlotInTurn
  rcases action with _ | ⟨i, _⟩ <;> try infer_instance
  dsimp only
  rcases (w.tenant i).pc with _ | _ <;> infer_instance

/-! ### The slot -/

structure SlotInv (w : World) : Prop where
  publisher : ∀ i j, w.phase i = .publishing → w.phase j = .publishing → i = j
  free : ∀ i, w.phase i = .publishing → w.tracker.spareMemAvail = false
  announced : w.ledger.waiting = true → w.tracker.spareMemAvail = true
  taken : w.tracker.spareMemAvail = true → w.ledger.waiting = false → ∃ i, w.phase i = .mapped
  receiving : ∀ i, w.phase i = .receiving → w.ledger.waiting = true
  mapped : ∀ i, w.phase i = .mapped →
    w.tracker.spareMemAvail = true ∧ w.ledger.waiting = false
  fresh : w.ledger.waiting = true → w.ledger.published ∉ w.ledger.mapped
  bounded : ∀ p ∈ w.ledger.mapped, p ≤ w.ledger.published
  handedOver : HandedOver w

/-- Nothing happened to the slot between `w` and `w'`. -/
structure SameSlot (w w' : World) : Prop where
  avail : w'.tracker.spareMemAvail = w.tracker.spareMemAvail
  published : w'.ledger.published = w.ledger.published
  waiting : w'.ledger.waiting = w.ledger.waiting
  mapped : w'.ledger.mapped = w.ledger.mapped
  overwritten : w'.ledger.overwritten = w.ledger.overwritten
  cleared : w'.ledger.cleared = w.ledger.cleared

variable {w w' : World} {i : Nat} {tenants : List Nat}

/-- With the slot as it was, a tenant may change its phase as long as it does not become
a publisher while the slot is in use, or a receiver of nothing. -/
theorem SlotInv.rephase (inv : SlotInv w) (slot : SameSlot w w')
    (elsewhere : ∀ j, j ≠ i → w'.phase j = w.phase j)
    (publishes : w'.phase i = .publishing → w.phase i = .publishing ∨
      (w.tracker.spareMemAvail = false ∧ ∀ j, w.phase j ≠ .publishing))
    (receives : w'.phase i = .receiving → w.phase i = .receiving ∨ w.ledger.waiting = true)
    (maps : w'.phase i = .mapped ↔ w.phase i = .mapped) : SlotInv w' where
  publisher := by
    -- a new publisher is alone, the old ones kept their phase
    have before : ∀ j, w'.phase j = .publishing → w.phase j = .publishing ∨
        (j = i ∧ ∀ k, w.phase k ≠ .publishing) := by
      intro j now
      by_cases same : j = i
      · subst same
        exact (publishes now).imp id fun clear => ⟨rfl, clear.2⟩
      · exact .inl (elsewhere j same ▸ now)
    intro j k hj hk
    rcases before j hj with wasJ | ⟨rfl, none⟩ <;> rcases before k hk with wasK | ⟨rfl, none'⟩
    · exact inv.publisher j k wasJ wasK
    · exact absurd wasJ (none' j)
    · exact absurd wasK (none k)
    · rfl
  free := by
    intro j now
    rw [slot.avail]
    by_cases same : j = i
    · subst same
      rcases publishes now with was | ⟨clear, _⟩
      · exact inv.free j was
      · exact clear
    · exact inv.free j (elsewhere j same ▸ now)
  announced := by rw [slot.waiting, slot.avail]; exact inv.announced
  taken := by
    rw [slot.waiting, slot.avail]
    intro avail unmapped
    obtain ⟨j, was⟩ := inv.taken avail unmapped
    refine ⟨j, ?_⟩
    by_cases same : j = i
    · subst same; exact maps.mpr was
    · rw [elsewhere j same, was]
  receiving := by
    intro j now
    rw [slot.waiting]
    by_cases same : j = i
    · subst same
      exact (receives now).elim (inv.receiving j) id
    · exact inv.receiving j (elsewhere j same ▸ now)
  mapped := by
    intro j now
    rw [slot.waiting, slot.avail]
    by_cases same : j = i
    · subst same; exact inv.mapped j (maps.mp now)
    · exact inv.mapped j (elsewhere j same ▸ now)
  fresh := by rw [slot.waiting, slot.published, slot.mapped]; exact inv.fresh
  bounded := by rw [slot.published, slot.mapped]; exact inv.bounded
  handedOver := by
    unfold HandedOver
    rw [slot.mapped, slot.overwritten, slot.cleared]
    exact inv.handedOver

section Events

variable {n : State}

variable (inv : SlotInv w)
include inv

theorem SlotInv.unwaiting (clear : w.tracker.spareMemAvail = false) : w.ledger.waiting = false := by
  by_contra waits
  simp [inv.announced (by simpa using waits)] at clear

theorem SlotInv.publish {ptr : Int} {size : Nat} {cls id : Int} (was : w.phase i = .publishing)
    (now : n.pc.phase = .outside) :
    SlotInv ((w.apply (.call (.setSpareMem ptr size cls id))).setTenant i n) := by
  have clear := inv.free i was
  have unwaiting := inv.unwaiting clear
  have nobody : ∀ j, ((w.apply (.call (.setSpareMem ptr size cls id))).setTenant i n).phase j ≠
      .publishing := by
    intro j here
    obtain ⟨apart, here⟩ := World.phase_before now (by simp) here
    exact apart (inv.publisher j i here was)
  refine ⟨fun j _ hj => absurd hj (nobody j), fun j hj => absurd hj (nobody j), fun _ => rfl, ?_,
    fun _ _ => rfl, ?_, ?_, ?_, ?_, ?_, inv.handedOver.2.2⟩
  · intro _ unmapped
    cases unmapped
  · intro j here
    have avail := (inv.mapped j (World.phase_before now (by simp) here).2).1
    simp [clear] at avail
  · -- the new page has a number of its own
    intro _ member
    have bound := inv.bounded _ member
    simp only [World.apply, World.setTenant, Ledger.observe] at bound
    omega
  · intro p member
    have bound := inv.bounded p member
    simp only [World.apply, World.setTenant, Ledger.observe]
    omega
  · exact inv.handedOver.1
  · simp only [World.apply, World.setTenant, Ledger.observe, unwaiting, Bool.false_eq_true, if_false]
    exact inv.handedOver.2.1

/-- Resetting the flags is harmless when the slot holds no unmapped page and nobody stays
behind that has mapped one. -/
theorem SlotInv.reset (unwaiting : w.ledger.waiting = false)
    (before : ∀ j p, ((w.apply (.call .resetLocks)).setTenant i n).phase j = p →
      p = .victor ∨ w.phase j = p)
    (unmapped : ∀ j, ((w.apply (.call .resetLocks)).setTenant i n).phase j ≠ .mapped) :
    SlotInv ((w.apply (.call .resetLocks)).setTenant i n) := by
  refine ⟨?_, fun _ _ => rfl, ?_, ?_, ?_, ?_, ?_, inv.bounded, inv.handedOver.1,
    inv.handedOver.2.1, ?_⟩
  · intro j k hj hk
    exact inv.publisher j k ((before j _ hj).resolve_left (by simp))
      ((before k _ hk).resolve_left (by simp))
  · intro waits
    cases waits
  · intro avail
    cases avail
  · intro j here
    have waits := inv.receiving j ((before j _ here).resolve_left (by simp))
    simp [unwaiting] at waits
  · intro j here
    exact absurd here (unmapped j)
  · intro waits
    cases waits
  · simp only [World.apply, World.setTenant, Ledger.observe, unwaiting, Bool.false_eq_true, if_false]
    exact inv.handedOver.2.2

theorem SlotInv.map (reign : Reign tenants w) {pagesize si : Nat} {id : Int}
    (was : w.phase i = .receiving) (now : n.pc.phase = .mapped) :
    SlotInv ((w.apply (.call (.shmMallocSpare pagesize si id))).setTenant i n) := by
  have waits := inv.receiving i was
  have avail := inv.announced waits
  have members : ∀ p, p ∈ ((w.apply (.call (.shmMallocSpare pagesize si id))).setTenant i n).ledger.mapped →
      p = w.ledger.published ∨ p ∈ w.ledger.mapped := by
    intro p member
    simp only [World.apply, World.setTenant, Ledger.observe] at member
    split at member
    · exact .inr member
    · exact List.mem_cons.mp member
  refine ⟨?_, ?_, ?_, ?_, ?_, ?_, ?_, ?_, ?_, inv.handedOver.2.1, inv.handedOver.2.2⟩
  · intro j k hj hk
    exact inv.publisher j k (World.phase_before now (by simp) hj).2 (World.phase_before now (by simp) hk).2
  · intro j hj
    exact inv.free j (World.phase_before now (by simp) hj).2
  · intro waits
    cases waits
  · intro _ _
    exact ⟨i, by rw [World.phase_move, if_pos rfl, now]⟩
  · -- the victor is alone
    intro j hj
    obtain ⟨apart, here⟩ := World.phase_before now (by simp) hj
    exact absurd (reign.alone j i (by rw [here]; rfl) (by rw [was]; rfl)) apart
  · intro j _
    exact ⟨avail, rfl⟩
  · intro waits
    cases waits
  · intro p member
    rcases members p member with rfl | old
    · exact le_refl _
    · exact inv.bounded p old
  · simp only [World.apply, World.setTenant, Ledger.observe]
    split
    · exact inv.handedOver.1
    · exact List.nodup_cons.mpr ⟨inv.fresh waits, inv.handedOver.1⟩

end Events

/-! ### One step -/

theorem sameSlot_quiet (w : World) (i : Nat) (n : State) (e : Event) (quiet : e.Quiet w.tracker) :
    SameSlot w ((w.apply e).setTenant i n) := by
  cases e with
  | none => exact ⟨rfl, rfl, rfl, rfl, rfl, rfl⟩
  | call op =>
    obtain ⟨flags, silent⟩ := quiet
    have same : ((w.apply (.call op)).setTenant i n).ledger = w.ledger := silent w.ledger
    constructor
    · exact flags.avail
    all_goals rw [same]
  | attach k => exact quiet.elim

theorem sameSlot_attach (w : World) (i k : Nat) (n : State) :
    SameSlot w ((w.apply (.attach k)).setTenant i n) := by
  simp only [World.apply]
  split <;> exact ⟨rfl, rfl, rfl, rfl, rfl, rfl⟩

section

variable (inv : SlotInv w)
include inv

/-- A tenant that enters a phase outside the hand-off from another one keeps the invariant. -/
theorem SlotInv.pass {p p' : Phase} {n : State} {e : Event}
    (slot : SameSlot w ((w.apply e).setTenant i n)) (was : w.phase i = p) (now : n.pc.phase = p')
    (apart : p' ≠ .publishing ∧ p' ≠ .receiving ∧ p ≠ .mapped ∧ p' ≠ .mapped) :
    SlotInv ((w.apply e).setTenant i n) := by
  have here := (w.phase_mover e i n).trans now
  obtain ⟨unpublished, unreceived, unmapped, unmapped'⟩ := apart
  refine inv.rephase slot (w.phase_elsewhere e i n) ?_ ?_ ?_ <;> simp [*]

theorem SlotInv.stays (slot : SameSlot w w') (phases : w'.phase = w.phase) : SlotInv w' := by
  refine inv.rephase (i := 0) slot (fun j _ => congrFun phases j) ?_ ?_ ?_
  all_goals rw [phases]
  · exact .inl
  · exact .inl

theorem SlotInv.waiting_of_victor (reign : Reign tenants w) (avail : w.tracker.spareMemAvail = true)
    (was : w.phase i = .victor) : w.ledger.waiting = true := by
  by_contra unmapped
  obtain ⟨j, here⟩ := inv.taken avail (by simpa using unmapped)
  have same : j = i := reign.alone j i (by rw [here]; rfl) (by rw [was]; rfl)
  simp [same, was] at here

theorem slotInv_move {n' : State} {e : Event} (reign : Reign tenants w)
    (moved : Move w.tracker (w.tenant i) n' e)
    (inTurn : match (w.tenant i).pc with
      | .lock _ => w.tracker.spareLock = false →
          w.tracker.spareMemAvail = false ∧ ∀ j ∈ tenants, w.phase j ≠ .publishing
      | .timeoutLocks | .endLocks | .attachLocks => w.tracker.spareMemAvail = false
      | _ => True) : SlotInv ((w.apply e).setTenant i n') := by
  have elsewhere := w.phase_elsewhere e i n'
  have here := w.phase_mover e i n'
  cases moved with
  | quiet still quiet => exact inv.stays (sameSlot_quiet w i n' e quiet) (w.phase_still e still)
  | givesUp was now | hears received was now | looks was now =>
    exact inv.pass (sameSlot_quiet w i n' _ trivial) was now (by simp)
  | locks at_ unlocked now =>
    rw [at_] at inTurn
    obtain ⟨clear, none⟩ := inTurn unlocked
    have nobody : ∀ j, w.phase j ≠ .publishing := by
      intro j publishing
      by_cases runs : j ∈ tenants
      · exact none j runs publishing
      · simp [reign.others j runs] at publishing
    have outside : w.phase i = .outside := congrArg Pc.phase at_
    refine inv.rephase (sameSlot_quiet w i n' _ (quiet_call rfl)) elsewhere ?_ ?_ ?_
    · exact fun _ => .inr ⟨clear, nobody⟩
    · simp [here, now]
    · simp [here, now, outside]
  | publishes was now => exact inv.publish was now
  | crowned free was now =>
    have slot : SameSlot w ((w.apply (.call .lockMaxScore)).setTenant i n') := by
      refine ⟨?_, rfl, rfl, rfl, rfl, rfl⟩
      simp [World.apply, World.setTenant, TrackerOp.apply]
    exact inv.pass slot was now (by simp)
  | resigns was now | finishes was now =>
    exact inv.pass ⟨rfl, rfl, rfl, rfl, rfl, rfl⟩ was now (by simp)
  | resets at_ still =>
    have clear : w.tracker.spareMemAvail = false := by
      rcases at_ with at_ | at_ | at_ <;> rw [at_] at inTurn <;> exact inTurn
    have phases := w.phase_still (.call .resetLocks) still
    refine inv.reset (inv.unwaiting clear) (fun j p now => .inr (phases ▸ now)) ?_
    intro j mapped
    rw [phases] at mapped
    have avail := (inv.mapped j mapped).1
    simp [clear] at avail
  | resetsRemote at_ still =>
    exact inv.stays ⟨rfl, rfl, rfl, rfl, rfl, rfl⟩ (w.phase_still _ still)
  | sees avail was now =>
    refine inv.rephase (sameSlot_quiet w i n' _ trivial) elsewhere ?_ ?_ ?_
    · simp [here, now]
    · exact fun _ => .inr (inv.waiting_of_victor reign avail was)
    · simp [here, now, show w.phase i = .victor from was]
  | maps was now => exact inv.map reign was now
  | clears was now =>
    have unwaiting := (inv.mapped i was).2
    refine inv.reset unwaiting ?_ ?_
    · intro j p phase
      by_cases apart : j = i
      · subst apart
        exact .inl (phase.symm.trans (here.trans now))
      · exact .inr (elsewhere j apart ▸ phase)
    · intro j mapped
      by_cases apart : j = i
      · subst apart
        simp [here, now] at mapped
      · rw [elsewhere j apart] at mapped
        exact apart (reign.alone j i (by rw [mapped]; rfl) (congrArg Phase.reigns was))
  | attaches was now =>
    exact inv.pass (sameSlot_attach w i _ n') was now (by simp)

end

/-! ### Whole runs -/

/-- With tenants in turn the slot goes from one publisher to one receiver. -/
theorem slotInv_step (w : World) (a : Action) (w' : World) (inv : Reign tenants w ∧ SlotInv w)
    (inTurn : SlotInTurn tenants w a) (called : step tenants w a = some w') :
    Reign tenants w' ∧ SlotInv w' := by
  obtain ⟨reign, inv⟩ := inv
  refine ⟨reign_step reign called, ?_⟩
  cases step_move called with
  | tenant runs moved same => subst same; exact slotInv_move inv reign moved inTurn
  | still phases flags ledger =>
    refine inv.stays ⟨flags.avail, ?_, ?_, ?_, ?_, ?_⟩ phases
    all_goals rw [ledger]
  | copies free eq | receives busy eq =>
    subst eq; exact inv.stays ⟨rfl, rfl, rfl, rfl, rfl, rfl⟩ rfl

theorem slotInv_initial (memAllocated : Nat) (shares : Int → ℚ) (slabStart : Int) :
    SlotInv (World.initial memAllocated shares slabStart) where
  publisher := fun _ _ here => nomatch here
  free := fun _ here => nomatch here
  announced := fun waits => nomatch waits
  taken := fun avail => nomatch avail
  receiving := fun _ here => nomatch here
  mapped := fun _ here => nomatch here
  fresh := fun waits => nomatch waits
  bounded := fun _ member => nomatch member
  handedOver := ⟨List.nodup_nil, rfl, rfl⟩

/-- **The local hand-off loses and duplicates nothing while the slot is used in turn.**
For any tenants, in any order of their steps, of completions and of the tracker's calls:
if victims take `spare_lock` only while the slot is empty and nobody else is about to
publish, and the flags are reset without a mapping only while the slot is empty, then in
every state reached no published page was mapped twice, overwritten or cleared away. -/
theorem handed_over_of_slot_in_turn (tenants : List Nat) (memAllocated : Nat) (shares : Int → ℚ)
    (slabStart : Int) (run : List Action)
    (inTurn : Run.Along (step tenants) (SlotInTurn tenants)
      (World.initial memAllocated shares slabStart) run) :
    Run.Always (step tenants) HandedOver (World.initial memAllocated shares slabStart) run :=
  Run.always_mono (fun _ inv => inv.2.handedOver)
    (Run.always_of_invariant slotInv_step
      ⟨reign_initial tenants memAllocated shares slabStart,
        slotInv_initial memAllocated shares slabStart⟩ inTurn)

/-- The plain course of events: tenant 1 publishes a page and finishes, tenant 0 maps it
and ends its request. -/
theorem handed_over_when_undisturbed : Run.Always (step [0, 1]) HandedOver freshWorld
      (victorAsks ++ victimDecides ++ steps 1 true 8 ++ steps 0 false 23) :=
  handed_over_of_slot_in_turn [0, 1] _ _ _ _ (by decide +kernel)

/-- A page is lost: tenant 1 publishes it just when the five seconds of tenant 0 are over,
and tenant 0 resets the flags before it looks into the slot. -/
theorem published_page_cleared : ¬ Run.Always (step [0, 1]) HandedOver freshWorld
      (victorAsks ++ victimDecides ++ steps 1 true 4 ++ steps 0 true 3) := by
  decide +kernel

end MemExchange.Tenant
