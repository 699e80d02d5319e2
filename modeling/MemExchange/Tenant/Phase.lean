import MemExchange.Tenant.World

/-!
# The phases of a hand-off

For the spare slot and the remote regions it matters only whether a tenant is about to publish a
page, is the victor, is mapping or attaching a page, or none of these. `Move` is the automaton of
these phases; every step of the program is one of its moves.
-/
namespace MemExchange.Tenant

inductive Phase
  | outside
  /-- Has taken `spare_lock` and may still call `set_spare_mem`. -/
  | publishing
  /-- Holds `max_score_lock` and waits. -/
  | victor
  /-- Has seen `spare_mem_avail` and is going to map the page. -/
  | receiving
  /-- Has mapped the page and is going to reset the flags. -/
  | mapped
  /-- Has seen `remote_spare_received` and is going to attach the region. -/
  | attaching
  | attachingAt (conn : Option Nat)
  /-- Has attached the region and is going to reset the flags. -/
  | attached
  deriving DecidableEq

def Pc.phase : Pc → Phase
  | .freeRemote | .freeNeeded | .freeAlloc | .freePublish .. => .publishing
  | .pageRemote .. | .pageNeeded .. | .moving .. | .publish .. => .publishing
  | .waiting | .endBroadcast | .endLocks | .endRemote | .endMax => .victor
  | .timeoutReady | .timeoutLocks | .timeoutRemote | .timeoutSpare => .victor
  | .timeoutMin | .timeoutReset | .dispatch | .tryRemote | .trySpare => .victor
  | .serverAvailable | .startServer | .localAvailable | .received => .victor
  | .localLock | .localClsid | .receiveLocal | .mapTracker | .mapSpare .. => .receiving
  | .mapAccount | .mapUnlock | .mapLocks => .mapped
  | .receiveRemote | .attachTracker => .attaching
  | .attachPage conn => .attachingAt conn
  | .attachAccount | .attachUnlock | .attachLocks | .attachReset => .attached
  | _ => .outside

/-- The phases of a tenant that holds `max_score_lock`. -/
def Phase.reigns : Phase → Bool
  | .outside | .publishing => false
  | _ => true

/-- The tracker fields the phases rest on. -/
structure SameFlags (t t' : Tracker) : Prop where
  avail : t'.spareMemAvail = t.spareMemAvail
  maxLock : t'.maxScoreLock = t.maxScoreLock
  remote : t'.remoteSpareReceived = t.remoteSpareReceived
  conn : t'.latestConn = t.latestConn

/-- An event that neither moves a page nor touches the flags. -/
def Event.Quiet (t : Tracker) : Event → Prop
  | .none => True
  | .call op => SameFlags t (op.apply t) ∧ ∀ l, Ledger.observe op l = l
  | .attach _ => False

/-- The moves of a tenant in state `n` that finds the tracker as `t`. -/
inductive Move (t : Tracker) (n n' : State) : Event → Prop
  | quiet {e} (still : n'.pc.phase = n.pc.phase) (quiet : e.Quiet t) : Move t n n' e
  | givesUp (was : n.pc.phase = .publishing) (now : n'.pc.phase = .outside) : Move t n n' .none
  | locks {r} (here : n.pc = .lock r) (free : t.spareLock = false)
    (now : n'.pc.phase = .publishing) : Move t n n' (.call .lockSpare)
  | publishes {ptr size cls id} (was : n.pc.phase = .publishing) (now : n'.pc.phase = .outside) :
    Move t n n' (.call (.setSpareMem ptr size cls id))
  | crowned (free : t.maxScoreLock = false) (was : n.pc.phase = .outside)
    (now : n'.pc.phase = .victor) : Move t n n' (.call .lockMaxScore)
  | resigns (was : n.pc.phase = .victor) (now : n'.pc.phase = .outside) :
    Move t n n' (.call .unlockMaxScore)
  | resets (here : n.pc = .timeoutLocks ∨ n.pc = .endLocks ∨ n.pc = .attachLocks)
    (still : n'.pc.phase = n.pc.phase) : Move t n n' (.call .resetLocks)
  | resetsRemote (here : n.pc = .timeoutRemote ∨ n.pc = .endRemote ∨ n.pc = .givenReset)
    (still : n'.pc.phase = n.pc.phase) : Move t n n' (.call .resetRemoteSpare)
  | sees (avail : t.spareMemAvail = true) (was : n.pc.phase = .victor)
    (now : n'.pc.phase = .receiving) : Move t n n' .none
  | maps {pagesize si id} (was : n.pc.phase = .receiving) (now : n'.pc.phase = .mapped) :
    Move t n n' (.call (.shmMallocSpare pagesize si id))
  | clears (was : n.pc.phase = .mapped) (now : n'.pc.phase = .victor) :
    Move t n n' (.call .resetLocks)
  | hears (received : t.remoteSpareReceived = true) (was : n.pc.phase = .victor)
    (now : n'.pc.phase = .attaching) : Move t n n' .none
  | looks (was : n.pc.phase = .attaching) (now : n'.pc.phase = .attachingAt t.latestConn) :
    Move t n n' .none
  | attaches {k} (was : n.pc.phase = .attachingAt (some k)) (now : n'.pc.phase = .attached) :
    Move t n n' (.attach k)
  | finishes (was : n.pc.phase = .attached) (now : n'.pc.phase = .victor) :
    Move t n n' (.call .resetRemoteSpare)

/-! ### Quiet calls -/

/-- The calls that leave the slot, the regions and the victor's lock alone. -/
def quietCall : TrackerOp → Bool
  | .setSpareMem .. | .resetLocks | .shmMallocSpare .. | .resetRemoteSpare => false
  | .receiveRemoteMem .. | .lockMaxScore | .unlockMaxScore => false
  | _ => true

theorem SameFlags.refl (t : Tracker) : SameFlags t t := ⟨rfl, rfl, rfl, rfl⟩

theorem sameFlags_of_quietCall (t : Tracker) (op : TrackerOp) (quiet : quietCall op = true) :
    SameFlags t (op.apply t) := by
  cases op <;> simp only [quietCall, Bool.false_eq_true] at quiet
  case setScores =>
    rw [TrackerOp.apply, Tracker.setScores_eq]
    exact ⟨rfl, rfl, rfl, rfl⟩
  all_goals first | exact ⟨rfl, rfl, rfl, rfl⟩ | (constructor <;> simp [TrackerOp.apply])

theorem observe_of_quietCall (op : TrackerOp) (quiet : quietCall op = true) (l : Ledger) :
    l.observe op = l := by
  cases op <;> first | rfl | cases quiet

theorem quiet_call {t : Tracker} {op : TrackerOp} (quiet : quietCall op = true) :
    (Event.call op).Quiet t :=
  ⟨sameFlags_of_quietCall t op quiet, observe_of_quietCall op quiet⟩

/-! ### Every step is a move -/

section Steps

variable {i : Nat} {c : Choice} {t : Tracker} {n n' : State} {e : Event}

theorem asVictim_phase (n : State) (f : Finding) : (asVictim n f).phase = .outside := by
  unfold asVictim
  split <;> rfl

/-- **The program refines the automaton of phases.** -/
theorem next_move (acted : next i c t n = some (e, n')) : Move t n n' e := by
  obtain ⟨pc, rts, pages, aborted⟩ := n
  cases pc with
  | idle => cases acted
  | needed | remoteNeeded =>
    cases acted
    exact .quiet (by dsimp only; split <;> [exact asVictim_phase ..; rfl]) trivial
  | scores | compareMin | compareMax | reqSpare | givenUnlock =>
    cases acted
    exact .quiet (by dsimp only; split <;> rfl) (quiet_call rfl)
  | lock r =>
    cases acted
    by_cases free : t.spareLock = false
    · have takes : t.lockSpare.1 = true := by simp [Tracker.lockSpare, free]
      cases r with
      | nothing => exact .quiet (by simp [takes, Pc.phase]) (quiet_call rfl)
      | freeSpace | page => exact .locks rfl free (by simp [takes, Pc.phase])
    · have fails : t.lockSpare.1 = false := by simp [Tracker.lockSpare, free]
      exact .quiet (by simp [fails, Pc.phase]) (quiet_call rfl)
  | lockMax =>
    cases acted
    by_cases free : t.maxScoreLock = false
    · have takes : t.lockMaxScore.1 = true := by simp [Tracker.lockMaxScore, free]
      rw [if_pos takes]
      exact .crowned free rfl rfl
    · have fails : t.lockMaxScore = (false, t) := by simp [Tracker.lockMaxScore, free]
      rw [fails, if_neg (by simp)]
      refine .quiet rfl ⟨?_, fun _ => rfl⟩
      rw [TrackerOp.apply, fails]
      exact .refl t
  | freeNeeded | pageNeeded | moving =>
    cases acted
    split <;> [exact .quiet rfl trivial; exact .givesUp rfl rfl]
  | freePublish | publish => cases acted; exact .publishes rfl rfl
  | connect =>
    cases acted
    exact .quiet rfl (by split <;> [exact quiet_call rfl; trivial])
  | endMax => cases acted; exact .resigns rfl rfl
  | timeoutLocks | endLocks | attachLocks => cases acted; exact .resets (by simp) rfl
  | timeoutRemote | endRemote | givenReset => cases acted; exact .resetsRemote (by simp) rfl
  | localAvailable =>
    cases acted
    split
    · next avail => exact .sees avail rfl rfl
    · exact .quiet rfl trivial
  | received =>
    cases acted
    split
    · next received => exact .hears received rfl rfl
    · exact .quiet rfl trivial
  | mapSpare => cases acted; exact .maps rfl rfl
  | mapLocks => cases acted; exact .clears rfl rfl
  | attachTracker => cases acted; exact .looks rfl rfl
  | attachPage conn => cases conn <;> cases acted; exact .attaches rfl rfl
  | attachReset => cases acted; exact .finishes rfl rfl
  | _ =>
    cases acted
    first
      | exact .quiet rfl trivial
      | exact .quiet rfl (quiet_call rfl)
      | exact .quiet (by dsimp only; (repeat' split) <;> rfl) trivial

end Steps

/-! ### Steps of the world -/

def World.phase (w : World) (i : Nat) : Phase := (w.tenant i).pc.phase

@[simp] theorem World.apply_tenant (w : World) (e : Event) : (w.apply e).tenant = w.tenant := by
  unfold World.apply
  split <;> [rfl; rfl; (split <;> rfl)]

@[simp] theorem World.phase_move (w : World) (e : Event) (i j : Nat) (n : State) :
    ((w.apply e).setTenant i n).phase j = if j = i then n.pc.phase else w.phase j := by
  unfold World.phase World.setTenant
  by_cases same : j = i
  · subst same; simp
  · simp [same]

theorem World.phase_elsewhere (w : World) (e : Event) (i : Nat) (n : State) (j : Nat)
    (apart : j ≠ i) : ((w.apply e).setTenant i n).phase j = w.phase j := by
  rw [World.phase_move, if_neg apart]

theorem World.phase_mover (w : World) (e : Event) (i : Nat) (n : State) :
    ((w.apply e).setTenant i n).phase i = n.pc.phase := by
  rw [World.phase_move, if_pos rfl]

/-- Who is in another phase than the one that the mover is in now was there before. -/
theorem World.phase_before {w : World} {e : Event} {i j : Nat} {n : State} {p q : Phase}
    (now : n.pc.phase = q) (other : p ≠ q) (here : ((w.apply e).setTenant i n).phase j = p) :
    j ≠ i ∧ w.phase j = p := by
  rw [World.phase_move] at here
  split at here
  · exact absurd (here.symm.trans now) other
  · next apart => exact ⟨apart, here⟩

theorem World.phase_still (w : World) (e : Event) {i : Nat} {n : State}
    (still : n.pc.phase = (w.tenant i).pc.phase) :
    ((w.apply e).setTenant i n).phase = w.phase := by
  funext j
  by_cases same : j = i
  · subst same
    exact (w.phase_mover e j n).trans still
  · exact w.phase_elsewhere e i n j same

/-- What a step can do to phases, flags and ledger. -/
inductive WorldMove (tenants : List Nat) (w w' : World) : Action → Prop
  | tenant {i c e n'} (runs : i ∈ tenants) (moved : Move w.tracker (w.tenant i) n' e)
    (same : w' = (w.apply e).setTenant i n') : WorldMove tenants w w' (.run i c)
  | still {a} (phases : w'.phase = w.phase) (flags : SameFlags w.tracker w'.tracker)
    (ledger : w'.ledger = w.ledger) (regions : w'.peerMr = w.peerMr)
    (handlers : w'.handler = w.handler) (messages : w'.messages = w.messages) :
    WorldMove tenants w w' a
  | copies {k id} (free : w.handler k = none)
    (same : w' = { w with
      peerMr := Function.update w.peerMr k (some (w.messages + 1))
      handler := Function.update w.handler k (some (w.messages + 1, id))
      messages := w.messages + 1 }) : WorldMove tenants w w' (.copyMr k)
  | receives {k m id} (busy : w.handler k = some (m, id))
    (same : w' = { w with
      tracker := w.tracker.receiveRemoteMem k (1024 * 1024) id
      handler := Function.update w.handler k none
      ledger := w.ledger.receive m }) : WorldMove tenants w w' (.receiveMr k)

theorem phase_setTenant_of_eq (w : World) (i : Nat) (n : State)
    (same : n.pc.phase = (w.tenant i).pc.phase) : (w.setTenant i n).phase = w.phase := by
  funext j
  unfold World.phase World.setTenant
  by_cases here : j = i
  · subst here; simpa using same
  · simp [here]

/-- Every step is one of these moves. -/
theorem step_move {tenants : List Nat} {w w' : World} {a : Action}
    (called : step tenants w a = some w') : WorldMove tenants w w' a := by
  cases a with
  | score i f =>
    obtain ⟨idle, ⟨⟩⟩ := Option.ite_none_right_eq_some.mp called
    exact .still (phase_setTenant_of_eq _ _ _ (by rw [idle.2]; rfl)) (.refl _) rfl rfl rfl rfl
  | run i c =>
    obtain ⟨runs, called⟩ := Option.ite_none_right_eq_some.mp called
    obtain ⟨⟨e, n'⟩, acted, rfl⟩ := Option.map_eq_some_iff.mp called
    exact .tenant runs (next_move acted) rfl
  | abort i =>
    obtain ⟨-, ⟨⟩⟩ := Option.ite_none_right_eq_some.mp called
    exact .still (phase_setTenant_of_eq _ _ _ rfl) (.refl _) rfl rfl rfl rfl
  | copyMr k =>
    obtain ⟨free, called⟩ := Option.ite_none_right_eq_some.mp called
    cases called; exact .copies free rfl
  | receiveMr k =>
    obtain ⟨⟨m, id⟩, busy, rfl⟩ := Option.map_eq_some_iff.mp called
    exact .receives busy rfl
  | tracker op =>
    obtain ⟨own, ⟨⟩⟩ := Option.ite_none_right_eq_some.mp called
    have quiet : quietCall op = true := by cases op <;> first | rfl | cases own
    exact .still rfl (sameFlags_of_quietCall _ op quiet) (observe_of_quietCall op quiet _) rfl rfl
      rfl

/-! ### One victor -/

/-- At most one tenant is victor, and it holds `max_score_lock`. -/
structure Reign (tenants : List Nat) (w : World) : Prop where
  lockHeld : ∀ i, (w.phase i).reigns = true → w.tracker.maxScoreLock = true
  alone : ∀ i j, (w.phase i).reigns = true → (w.phase j).reigns = true → i = j
  others : ∀ i, i ∉ tenants → w.phase i = .outside

/-- The victor's lock is taken when the reign begins and released when it ends. -/
theorem Move.reign {t : Tracker} {n n' : State} {e : Event} (moved : Move t n n' e) (w : World)
    (same : w.tracker = t) :
    (n.pc.phase.reigns = n'.pc.phase.reigns ∧
      (w.apply e).tracker.maxScoreLock = t.maxScoreLock) ∨
    (t.maxScoreLock = false ∧ (w.apply e).tracker.maxScoreLock = true) ∨
    (n.pc.phase.reigns = true ∧ n'.pc.phase.reigns = false) := by
  subst same
  cases moved
  case quiet still quiet =>
    refine .inl ⟨by rw [still], ?_⟩
    cases e with
    | none => rfl
    | call op => exact quiet.1.maxLock
    | attach k => exact quiet.elim
  case locks here free now =>
    refine .inl ⟨by rw [here, now]; rfl, ?_⟩
    exact (sameFlags_of_quietCall _ .lockSpare rfl).maxLock
  case crowned free was now =>
    refine .inr (.inl ⟨free, ?_⟩)
    simp [World.apply, TrackerOp.apply, Tracker.lockMaxScore, free]
  case resigns was now => exact .inr (.inr ⟨by rw [was]; rfl, by rw [now]; rfl⟩)
  case resets here still | resetsRemote here still => exact .inl ⟨by rw [still], rfl⟩
  case attaches was now =>
    refine .inl ⟨by rw [was, now]; rfl, ?_⟩
    simp only [World.apply]
    split <;> rfl
  all_goals
    rename_i was now
    exact .inl ⟨by rw [was, now]; rfl, rfl⟩

/-- No step makes a second victor. -/
theorem reign_step {tenants : List Nat} {w w' : World} {a : Action} (inv : Reign tenants w)
    (called : step tenants w a = some w') : Reign tenants w' := by
  cases step_move called with
  | still phases flags =>
    constructor
    · rw [phases, flags.maxLock]; exact inv.lockHeld
    · rw [phases]; exact inv.alone
    · rw [phases]; exact inv.others
  | copies free same | receives busy same => subst same; exact ⟨inv.lockHeld, inv.alone, inv.others⟩
  | @tenant i c e n' runs moved same =>
    subst same
    have others : ∀ j, j ∉ tenants → ((w.apply e).setTenant i n').phase j = .outside := by
      intro j absent
      rw [World.phase_move, if_neg (by rintro rfl; exact absent runs)]
      exact inv.others j absent
    have elsewhere : ∀ j, (((w.apply e).setTenant i n').phase j).reigns = true →
        j = i ∨ (w.phase j).reigns = true := by
      intro j reigning
      rw [World.phase_move] at reigning
      split at reigning
      · exact .inl ‹_›
      · exact .inr reigning
    rcases moved.reign w rfl with ⟨still, lock⟩ | ⟨free, held⟩ | ⟨was, now⟩
    · have before : ∀ j, (((w.apply e).setTenant i n').phase j).reigns = true →
          (w.phase j).reigns = true := by
        intro j reigning
        rw [World.phase_move] at reigning
        split at reigning
        · next here => subst here; rwa [← still] at reigning
        · exact reigning
      refine ⟨fun j reigning => ?_, fun j k hj hk => inv.alone j k (before j hj) (before k hk), others⟩
      exact lock.trans (inv.lockHeld j (before j reigning))
    · -- nobody reigned while the lock was free
      have nobody : ∀ j, (w.phase j).reigns = true → False := by
        intro j reigning
        simp [inv.lockHeld j reigning] at free
      refine ⟨fun _ _ => held, fun j k hj hk => ?_, others⟩
      rw [(elsewhere j hj).resolve_right (nobody j), (elsewhere k hk).resolve_right (nobody k)]
    · have nobody : ∀ j, (((w.apply e).setTenant i n').phase j).reigns = true → False := by
        intro j reigning
        rw [World.phase_move] at reigning
        split at reigning
        · rw [now] at reigning; cases reigning
        · next other => exact other (inv.alone j i reigning was)
      exact ⟨fun j reigning => (nobody j reigning).elim, fun j _ hj => (nobody j hj).elim, others⟩

theorem reign_initial (tenants : List Nat) (memAllocated : Nat) (shares : Int → ℚ)
    (slabStart : Int) : Reign tenants (World.initial memAllocated shares slabStart) where
  lockHeld := fun _ reigning => nomatch reigning
  alone := fun _ _ reigning => nomatch reigning
  others := fun _ _ => rfl

/-- In every order of steps at most one tenant is victor, and `max_score_lock` is held then. -/
theorem one_victor_at_a_time (tenants : List Nat) (memAllocated : Nat) (shares : Int → ℚ)
    (slabStart : Int) (run : List Action) :
    Run.Always (step tenants) (fun w => ∀ i, (w.phase i).reigns = true →
      w.tracker.maxScoreLock = true ∧ ∀ j, (w.phase j).reigns = true → j = i)
      (World.initial memAllocated shares slabStart) run := by
  have always : Run.Always (step tenants) (Reign tenants)
      (World.initial memAllocated shares slabStart) run :=
    Run.always_of_step (fun _ _ _ inv called => reign_step inv called) (reign_initial ..) run
  refine Run.always_mono (fun w inv i reigns => ⟨inv.lockHeld i reigns, fun j also => ?_⟩) always
  exact inv.alone j i also reigns

end MemExchange.Tenant
