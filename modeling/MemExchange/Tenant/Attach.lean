import MemExchange.Tenant.Phase

/-!
# Remote regions and their slab classes

`on_completion` copies a region to the connection, adds its bytes to a share and sets
`remote_spare_received`; the victor attaches the region of `latest_conn` when it sees the flag and
then clears it. The flag and the connection are one slot for all messages, and timeouts, the end of a
request and a victim's own remote hand-off clear the flag too.
-/
namespace MemExchange.Tenant

open Function (update update_self update_of_ne)

/-- Every region whose bytes were added to a share has been attached, once and for its own
message, or is still announced to the victor. -/
def AttachedOnce (w : World) : Prop :=
  w.ledger.attached.Nodup ∧ w.ledger.misattached = [] ∧
  (∀ m ∈ w.ledger.attached, m ∈ w.ledger.counted) ∧
  ∀ m ∈ w.ledger.counted, m ∈ w.ledger.attached ∨
    (w.ledger.pending = some m ∧ w.tracker.remoteSpareReceived = true)

instance : DecidablePred AttachedOnce := fun _ => inferInstanceAs (Decidable (_ ∧ _ ∧ _ ∧ _))

/-- A message is handled, and the flag is cleared by anyone but the victor that has just
attached a region, only while `remote_spare_received` is down. -/
def RegionInTurn (w : World) : Action → Prop
  | .copyMr _ | .receiveMr _ => w.tracker.remoteSpareReceived = false
  | .run i _ =>
    match (w.tenant i).pc with
    | .timeoutRemote | .endRemote | .givenReset => w.tracker.remoteSpareReceived = false
    | _ => True
  | _ => True

instance (w : World) : DecidablePred (RegionInTurn w) := fun _ => by
  unfold RegionInTurn
  (repeat' split) <;> infer_instance

/-! ### The announced region -/

structure RegionInv (w : World) : Prop where
  pending : ∀ m, w.ledger.pending = some m → w.tracker.remoteSpareReceived = true ∧
    m ∈ w.ledger.counted ∧ m ∉ w.ledger.attached ∧
    ∃ k, w.tracker.latestConn = some k ∧ w.peerMr k = some m
  heard : w.tracker.remoteSpareReceived = true → w.ledger.pending = none →
    ∃ i, w.phase i = .attached
  attaching : ∀ i, w.phase i = .attaching → w.ledger.pending ≠ none
  attachingAt : ∀ i c, w.phase i = .attachingAt c →
    w.ledger.pending ≠ none ∧ c = w.tracker.latestConn
  attached : ∀ i, w.phase i = .attached →
    w.tracker.remoteSpareReceived = true ∧ w.ledger.pending = none
  handled : ∀ k m id, w.handler k = some (m, id) → w.peerMr k = some m ∧ m ≤ w.messages ∧
    m ∉ w.ledger.counted ∧ ∀ k' id', w.handler k' = some (m, id') → k' = k
  bounded : ∀ m ∈ w.ledger.counted, m ≤ w.messages
  once : AttachedOnce w

/-- Nothing happened to regions and flag between `w` and `w'`. -/
structure SameRegions (w w' : World) : Prop where
  remote : w'.tracker.remoteSpareReceived = w.tracker.remoteSpareReceived
  conn : w'.tracker.latestConn = w.tracker.latestConn
  counted : w'.ledger.counted = w.ledger.counted
  pending : w'.ledger.pending = w.ledger.pending
  attached : w'.ledger.attached = w.ledger.attached
  misattached : w'.ledger.misattached = w.ledger.misattached
  peerMr : w'.peerMr = w.peerMr
  handler : w'.handler = w.handler
  messages : w'.messages = w.messages

variable {i : Nat} {tenants : List Nat} (w : World)

/-- With the regions as they were, a tenant may change its phase as long as it does not
begin to attach while nothing is pending. -/
theorem RegionInv.rephase {w w' : World} (inv : RegionInv w) (same : SameRegions w w')
    (elsewhere : ∀ j, j ≠ i → w'.phase j = w.phase j)
    (attaches : w'.phase i = .attaching → w.phase i = .attaching ∨ w.ledger.pending ≠ none)
    (looks : ∀ c, w'.phase i = .attachingAt c → w.phase i = .attachingAt c ∨
      (w.ledger.pending ≠ none ∧ c = w.tracker.latestConn))
    (attached : w'.phase i = .attached ↔ w.phase i = .attached) : RegionInv w' where
  pending := by
    rw [same.pending, same.remote, same.counted, same.attached, same.conn, same.peerMr]
    exact inv.pending
  heard := by
    rw [same.pending, same.remote]
    intro flag none
    obtain ⟨j, was⟩ := inv.heard flag none
    refine ⟨j, ?_⟩
    by_cases here : j = i
    · subst here; exact attached.mpr was
    · rw [elsewhere j here, was]
  attaching := by
    intro j now
    rw [same.pending]
    by_cases here : j = i
    · subst here; exact (attaches now).elim (inv.attaching j) id
    · exact inv.attaching j (elsewhere j here ▸ now)
  attachingAt := by
    intro j c now
    rw [same.pending, same.conn]
    by_cases here : j = i
    · subst here; exact (looks c now).elim (inv.attachingAt j c) id
    · exact inv.attachingAt j c (elsewhere j here ▸ now)
  attached := by
    intro j now
    rw [same.remote, same.pending]
    by_cases here : j = i
    · subst here; exact inv.attached j (attached.mp now)
    · exact inv.attached j (elsewhere j here ▸ now)
  handled := by
    rw [same.handler, same.peerMr, same.messages, same.counted]
    exact inv.handled
  bounded := by rw [same.counted, same.messages]; exact inv.bounded
  once := by
    unfold AttachedOnce
    rw [same.attached, same.misattached, same.counted, same.pending, same.remote]
    exact inv.once

/-! ### Messages -/

section Messages

variable {w} {k : Nat}

section

variable (inv : RegionInv w) (down : w.tracker.remoteSpareReceived = false)
include inv down

theorem RegionInv.quiet : w.ledger.pending = none ∧ (∀ i, w.phase i ≠ .attaching) ∧
    (∀ i c, w.phase i ≠ .attachingAt c) ∧ ∀ i, w.phase i ≠ .attached := by
  have none : w.ledger.pending = none := by
    cases isPending : w.ledger.pending with
    | none => rfl
    | some m =>
      have up := (inv.pending m isPending).1
      simp [down] at up
  refine ⟨none, fun i here => inv.attaching i here none,
    fun i c here => (inv.attachingAt i c here).1 none, fun i here => ?_⟩
  have up := (inv.attached i here).1
  simp [down] at up

theorem RegionInv.copy (id : Int) : RegionInv { w with
      peerMr := update w.peerMr k (some (w.messages + 1))
      handler := update w.handler k (some (w.messages + 1, id))
      messages := w.messages + 1 } := by
  obtain ⟨none, _, _, _⟩ := inv.quiet down
  refine ⟨?_, inv.heard, inv.attaching, inv.attachingAt, inv.attached, ?_, ?_, inv.once⟩
  · intro m isPending
    simp [show w.ledger.pending = some m from isPending] at none
  · -- the new message has a number of its own
    have old : ∀ k' m id', w.handler k' = some (m, id') → m ≠ w.messages + 1 := by
      intro k' m id' busy
      have bound := (inv.handled k' m id' busy).2.1
      omega
    intro k' m id' busy
    by_cases same : k' = k
    · subst same
      simp only [update_self, Option.some.injEq, Prod.mk.injEq] at busy ⊢
      obtain ⟨rfl, rfl⟩ := busy
      refine ⟨rfl, le_refl _, ?_, ?_⟩
      · intro member
        have bound := inv.bounded _ member
        omega
      · intro k'' id'' busy''
        by_contra other
        rw [update_of_ne other] at busy''
        exact old _ _ _ busy'' rfl
    · simp only [update_of_ne same] at busy ⊢
      obtain ⟨region, bound, uncounted, unique⟩ := inv.handled k' m id' busy
      refine ⟨region, by omega, uncounted, ?_⟩
      intro k'' id'' busy''
      by_cases here : k'' = k
      · subst here
        simp only [update_self, Option.some.injEq, Prod.mk.injEq] at busy''
        exact absurd busy''.1.symm (old _ _ _ busy)
      · rw [update_of_ne here] at busy''
        exact unique k'' id'' busy''
  · intro m member
    have bound := inv.bounded m member
    show m ≤ w.messages + 1
    omega

end

theorem RegionInv.receive (inv : RegionInv w) (down : w.tracker.remoteSpareReceived = false)
    {m : Nat} {id : Int} (busy : w.handler k = some (m, id)) : RegionInv { w with
      tracker := w.tracker.receiveRemoteMem k (1024 * 1024) id
      handler := update w.handler k none
      ledger := w.ledger.receive m } := by
  obtain ⟨none, unattaching, unlooking, unattached⟩ := inv.quiet down
  obtain ⟨region, bound, uncounted, unique⟩ := inv.handled k m id busy
  obtain ⟨nodup, right, known, settled⟩ := inv.once
  have fresh : m ∉ w.ledger.attached := fun member => uncounted (known m member)
  have isSettled : ∀ m' ∈ w.ledger.counted, m' ∈ w.ledger.attached := by
    intro m' member
    rcases settled m' member with already | ⟨isPending, _⟩
    · exact already
    · simp [none] at isPending
  refine ⟨?_, ?_, fun i here => absurd here (unattaching i), fun i c here => absurd here (unlooking i c),
    fun i here => absurd here (unattached i), ?_, ?_, nodup, right, ?_, ?_⟩
  · intro m' isPending
    cases isPending
    exact ⟨rfl, List.mem_cons_self, fresh, k, rfl, region⟩
  · intro _ gone
    cases gone
  · intro k' m' id' busy'
    have other : k' ≠ k := by
      rintro rfl
      simp at busy'
    simp only [update_of_ne other] at busy'
    obtain ⟨region', bound', uncounted', unique'⟩ := inv.handled k' m' id' busy'
    refine ⟨region', bound', ?_, ?_⟩
    · -- only one handler works on message `m`
      intro member
      rcases List.mem_cons.mp member with rfl | old
      · exact other (unique k' id' busy')
      · exact uncounted' old
    · intro k'' id'' busy''
      by_cases here : k'' = k
      · subst here
        simp at busy''
      · simp only [update_of_ne here] at busy''
        exact unique' k'' id'' busy''
  · intro m' member
    rcases List.mem_cons.mp member with rfl | old
    · exact bound
    · exact inv.bounded m' old
  · intro m' member
    exact List.mem_cons_of_mem _ (known m' member)
  · intro m' member
    rcases List.mem_cons.mp member with rfl | old
    · exact .inr ⟨rfl, rfl⟩
    · exact .inl (isSettled m' old)

end Messages

/-! ### The victor and the flag -/

section Events

variable {w} {n : State}

/-- Clearing the flag is harmless when nothing is pending and nobody stays behind in the
middle of an attachment. -/
theorem RegionInv.clear (inv : RegionInv w) (none : w.ledger.pending = none)
    (idle : ∀ j, ((w.apply (.call .resetRemoteSpare)).setTenant i n).phase j ≠ .attaching ∧
      (∀ c, ((w.apply (.call .resetRemoteSpare)).setTenant i n).phase j ≠ .attachingAt c) ∧
      ((w.apply (.call .resetRemoteSpare)).setTenant i n).phase j ≠ .attached) :
    RegionInv ((w.apply (.call .resetRemoteSpare)).setTenant i n) := by
  obtain ⟨nodup, right, known, settled⟩ := inv.once
  refine ⟨?_, ?_, fun j here => absurd here (idle j).1, fun j c here => absurd here ((idle j).2.1 c),
    fun j here => absurd here (idle j).2.2, inv.handled, inv.bounded, nodup, right, known, ?_⟩
  · intro m isPending
    cases isPending
  · intro up
    cases up
  · intro m member
    rcases settled m member with already | ⟨isPending, _⟩
    · exact .inl already
    · simp [none] at isPending

theorem RegionInv.pending_of_victor (inv : RegionInv w) (reign : Reign tenants w)
    (up : w.tracker.remoteSpareReceived = true) (was : w.phase i = .victor) :
    w.ledger.pending ≠ none := by
  intro none
  obtain ⟨j, here⟩ := inv.heard up none
  have same : j = i := reign.alone j i (by rw [here]; rfl) (by rw [was]; rfl)
  simp [same, was] at here

theorem RegionInv.attach (inv : RegionInv w) (reign : Reign tenants w) {k : Nat}
    (was : w.phase i = .attachingAt (some k)) (now : n.pc.phase = .attached) :
    RegionInv ((w.apply (.attach k)).setTenant i n) := by
  obtain ⟨somePending, conn⟩ := inv.attachingAt i _ was
  obtain ⟨m, isPending⟩ := Option.ne_none_iff_exists'.mp somePending
  obtain ⟨up, counted, unattached, k', conn', region⟩ := inv.pending m isPending
  obtain ⟨nodup, right, known, settled⟩ := inv.once
  -- the snapshot still names the connection of the pending message
  have sameConn : k' = k := by
    rw [← conn] at conn'
    exact (Option.some.inj conn').symm
  subst sameConn
  have applied : w.apply (.attach k') = { w with ledger := w.ledger.attach m } := by
    simp only [World.apply, region]
  have alone : ∀ j, j ≠ i → (w.phase j).reigns = true → False := by
    intro j apart reigning
    exact apart (reign.alone j i reigning (by rw [was]; rfl))
  have elsewhere : ∀ j p, ((w.apply (.attach k')).setTenant i n).phase j = p → p ≠ .attached →
      p.reigns = true → False := by
    intro j p here other reigning
    obtain ⟨apart, here⟩ := World.phase_before now other here
    exact alone j apart (by rwa [here])
  have mover := (w.phase_mover (.attach k') i n).trans now
  rw [applied] at mover elsewhere ⊢
  refine ⟨?_, ?_, ?_, ?_, ?_, inv.handled, inv.bounded, ?_, ?_, ?_, ?_⟩
  · intro m' gone
    cases gone
  · intro _ _
    exact ⟨i, mover⟩
  · intro j here
    exact (elsewhere j _ here (by simp) rfl).elim
  · intro j c here
    exact (elsewhere j _ here (by simp) rfl).elim
  · intro j _
    exact ⟨up, rfl⟩
  · exact List.nodup_cons.mpr ⟨unattached, nodup⟩
  · simp only [World.setTenant, Ledger.attach, isPending, if_true]
    exact right
  · intro m' member
    rcases List.mem_cons.mp member with rfl | old
    · exact counted
    · exact known m' old
  · intro m' member
    rcases settled m' member with already | ⟨same, _⟩
    · exact .inl (List.mem_cons_of_mem _ already)
    · rw [isPending] at same
      cases same
      exact .inl List.mem_cons_self

end Events

theorem sameRegions_call (i : Nat) (n : State) (op : TrackerOp)
    (remote : (op.apply w.tracker).remoteSpareReceived = w.tracker.remoteSpareReceived)
    (conn : (op.apply w.tracker).latestConn = w.tracker.latestConn)
    (other : op ≠ .resetRemoteSpare) : SameRegions w ((w.apply (.call op)).setTenant i n) := by
  refine ⟨remote, conn, ?_, ?_, ?_, ?_, rfl, rfl, rfl⟩
  all_goals
    simp only [World.apply, World.setTenant]
    cases op <;> first | rfl | exact absurd rfl other

theorem sameRegions_quiet (i : Nat) (n : State) (e : Event) (quiet : e.Quiet w.tracker) :
    SameRegions w ((w.apply e).setTenant i n) := by
  cases e with
  | none => exact ⟨rfl, rfl, rfl, rfl, rfl, rfl, rfl, rfl, rfl⟩
  | call op =>
    obtain ⟨flags, silent⟩ := quiet
    have same : ((w.apply (.call op)).setTenant i n).ledger = w.ledger := silent w.ledger
    refine ⟨flags.remote, flags.conn, ?_, ?_, ?_, ?_, rfl, rfl, rfl⟩
    all_goals rw [same]
  | attach k => exact quiet.elim

/-- A tenant that enters a phase outside the reception from another one keeps the invariant. -/
theorem RegionInv.pass {w : World} {n : State} {e : Event} {p p' : Phase} (inv : RegionInv w)
    (same : SameRegions w ((w.apply e).setTenant i n)) (was : w.phase i = p) (now : n.pc.phase = p')
    (apart : p' ≠ .attaching ∧ (∀ c, p' ≠ .attachingAt c) ∧ p ≠ .attached ∧ p' ≠ .attached) :
    RegionInv ((w.apply e).setTenant i n) := by
  have here := (w.phase_mover e i n).trans now
  obtain ⟨unattaching, unlooking, unattached, unattached'⟩ := apart
  refine inv.rephase same (w.phase_elsewhere e i n) ?_ ?_ ?_ <;> simp [*]

theorem RegionInv.stays {w w' : World} (inv : RegionInv w) (same : SameRegions w w')
    (phases : w'.phase = w.phase) : RegionInv w' := by
  refine inv.rephase (i := 0) same (fun j _ => congrFun phases j) ?_ ?_ ?_
  all_goals rw [phases]
  · exact .inl
  · exact fun _ => .inl

theorem regionInv_move {w : World} {n' : State} {e : Event} (inv : RegionInv w)
    (reign : Reign tenants w) (moved : Move w.tracker (w.tenant i) n' e)
    (inTurn : match (w.tenant i).pc with
      | .timeoutRemote | .endRemote | .givenReset => w.tracker.remoteSpareReceived = false
      | _ => True) : RegionInv ((w.apply e).setTenant i n') := by
  have elsewhere := w.phase_elsewhere e i n'
  have here := w.phase_mover e i n'
  cases moved with
  | quiet still quiet => exact inv.stays (sameRegions_quiet w i n' e quiet) (w.phase_still e still)
  | givesUp was now | sees avail was now =>
    exact inv.pass (sameRegions_quiet w i n' _ trivial) was now (by simp)
  | locks at_ unlocked now =>
    exact inv.pass (sameRegions_quiet w i n' _ (quiet_call rfl)) (congrArg Pc.phase at_) now
      (by simp [Pc.phase])
  | publishes was now | resigns was now | maps was now | clears was now =>
    exact inv.pass (sameRegions_call w i n' _ rfl rfl (by simp)) was now (by simp)
  | crowned free was now =>
    have flags : SameRegions w ((w.apply (.call .lockMaxScore)).setTenant i n') :=
      sameRegions_call w i n' _ (by simp [TrackerOp.apply]) (by simp [TrackerOp.apply]) (by simp)
    exact inv.pass flags was now (by simp)
  | resets _ still =>
    exact inv.stays (sameRegions_call w i n' _ rfl rfl (by simp)) (w.phase_still _ still)
  | resetsRemote at_ still =>
    have down : w.tracker.remoteSpareReceived = false := by
      rcases at_ with at_ | at_ | at_ <;> rw [at_] at inTurn <;> exact inTurn
    obtain ⟨none, unattaching, unlooking, unattached⟩ := inv.quiet down
    have phases := w.phase_still (.call .resetRemoteSpare) still
    refine inv.clear none fun j => ?_
    rw [phases]
    exact ⟨unattaching j, unlooking j, unattached j⟩
  | hears up was now =>
    refine inv.rephase (sameRegions_quiet w i n' _ trivial) elsewhere ?_ ?_ ?_
    · exact fun _ => .inr (inv.pending_of_victor reign up was)
    · simp [here, now]
    · simp [here, now, show w.phase i = .victor from was]
  | looks was now =>
    refine inv.rephase (sameRegions_quiet w i n' _ trivial) elsewhere ?_ ?_ ?_
    · simp [here, now]
    · intro c at_
      rw [here, now] at at_
      cases at_
      exact .inr ⟨inv.attaching i was, rfl⟩
    · simp [here, now, show w.phase i = .attaching from was]
  | attaches was now => exact inv.attach reign was now
  | finishes was now =>
    have alone : ∀ j, j ≠ i → (w.phase j).reigns = true → False := by
      intro j apart reigning
      exact apart (reign.alone j i reigning (congrArg Phase.reigns was))
    refine inv.clear (inv.attached i was).2 fun j => ?_
    by_cases apart : j = i
    · subst apart
      simp [here, now]
    · rw [elsewhere j apart]
      refine ⟨fun at_ => ?_, fun c at_ => ?_, fun at_ => ?_⟩
      all_goals exact alone j apart (by rw [at_]; rfl)

/-! ### Whole runs -/

theorem regionInv_step (a : Action) (w' : World) (inv : Reign tenants w ∧ RegionInv w)
    (inTurn : RegionInTurn w a) (called : step tenants w a = some w') :
    Reign tenants w' ∧ RegionInv w' := by
  obtain ⟨reign, inv⟩ := inv
  refine ⟨reign_step reign called, ?_⟩
  cases step_move called with
  | tenant runs moved same => subst same; exact regionInv_move inv reign moved inTurn
  | still phases flags ledger regions handlers messages =>
    refine inv.stays ⟨flags.remote, flags.conn, ?_, ?_, ?_, ?_, regions, handlers, messages⟩ phases
    all_goals rw [ledger]
  | copies _ same => subst same; exact inv.copy inTurn _
  | receives busy same => subst same; exact inv.receive inTurn busy

theorem regionInv_initial (memAllocated : Nat) (shares : Int → ℚ) (slabStart : Int) :
    RegionInv (World.initial memAllocated shares slabStart) where
  pending := fun _ isPending => nomatch isPending
  heard := fun up => nomatch up
  attaching := fun _ here => nomatch here
  attachingAt := fun _ _ here => nomatch here
  attached := fun _ here => nomatch here
  handled := fun _ _ _ busy => nomatch busy
  bounded := fun _ member => nomatch member
  once := by simp [AttachedOnce, World.initial, Ledger.initial]

/-- **Every remote region is attached exactly once while the flag is used in turn.** For
any tenants and any order of their steps, of local pages, of messages, timeouts and ends
of requests: if messages are handled, and the flag is cleared other than after an
attachment, only while `remote_spare_received` is down, then in every state reached each
region whose bytes were counted was attached once, from its own message, or is still
announced. -/
theorem attached_once_of_region_in_turn (tenants : List Nat) (memAllocated : Nat) (shares : Int → ℚ)
    (slabStart : Int) (run : List Action)
    (inTurn : Run.Along (step tenants) RegionInTurn
      (World.initial memAllocated shares slabStart) run) :
    Run.Always (step tenants) AttachedOnce (World.initial memAllocated shares slabStart) run :=
  Run.always_mono (fun _ inv => inv.2.once)
    (Run.always_of_invariant regionInv_step
      ⟨reign_initial tenants memAllocated shares slabStart,
        regionInv_initial memAllocated shares slabStart⟩ inTurn)

/-- Tenant 0 has asked for a page, a remote tracker has answered, and tenant 0 listens for
the region: it is back in its waiting routine with `PAGE_TRANSFER_IN_PROGRESS`. -/
def victorListens : List Action :=
  victorAsks ++ steps 0 false 4 ++ [.tracker (.setRdmaServerInfo 2 11212)] ++ steps 0 false 5

/-- The plain course of events: the message arrives and tenant 0 attaches the region. -/
theorem attached_once_when_undisturbed : Run.Always (step [0, 1]) AttachedOnce freshWorld
      (victorListens ++ [.copyMr 7, .receiveMr 7] ++ steps 0 false 15) :=
  attached_once_of_region_in_turn [0, 1] _ _ _ _ (by decide +kernel)

/-- A region is left behind: its message arrives, then tenant 0 gives up because it has no
misses any more, and the end of its request clears the flag. -/
theorem counted_region_left_unattached : ¬ Run.Always (step [0, 1]) AttachedOnce freshWorld
      (victorListens ++ [.copyMr 7, .receiveMr 7, .abort 0] ++ steps 0 false 4) := by
  decide +kernel

end MemExchange.Tenant
