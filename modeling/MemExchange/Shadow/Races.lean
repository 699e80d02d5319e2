import MemExchange.Shadow.Places

/-!
# Races on the shadow queue

An item can be found in the hash table before it has a node, and has a node before it is in the
queue. A lookup in between moves an item to the front that is not queued; a store in between evicts
and frees it, and the insertion goes on with freed memory. And a key that is inserted while an older
item has it makes the eviction of the older item delete the entry of the newer one. Without these
three the queue is a list in every schedule.
-/
namespace MemExchange.Shadow

open Function (update_of_ne update_self update_apply update_eq_self update_idem update)

/-! ### Sections move items on -/

section Moves

variable {cfg : Settings} {place : ItemId → Place} {pins₁ pins' : ItemId → Nat} {s s' : State}
  {e : ItemId} {it it' : ShadowItem} {p : Place}

theorem update_queued_iff (same : p = .queued ↔ place e = .queued) (x : ItemId) :
    update place e p x = .queued ↔ place x = .queued := by
  rw [update_apply]
  split
  next equal => rw [equal, same]
  · rfl

section

variable (shared : Shared cfg place pins₁ s)
include shared

theorem Shared.known_update (present : place e ≠ .absent) (x : ItemId) (unknown : s.fresh ≤ x) :
    update place e p x = .absent := by
  have absent := shared.known x unknown
  have other : x ≠ e := by
    rintro rfl
    exact present absent
  rwa [update_of_ne other]

/-- One item is rewritten and moved, and stays in the hash table. -/
theorem Shared.rewrite (here : s.items e = some it) (others : ∀ x, x ≠ e → pins' x = pins₁ x)
    (fits : Fits p (pins' e) it') (key : it'.key = it.key) (alive : p.alive = (place e).alive)
    (items : s'.items = update s.items e (some it')) (assoc : s'.assoc = s.assoc)
    (fresh : s'.fresh = s.fresh) (line : ∃ l, InLine (update place e p) s'.queue s'.size l)
    (rooted : Rooted s'.items s'.tree) : Shared cfg (update place e p) pins' s' := by
  refine ⟨?_, line, ?_, rooted, fun x unknown => ?_⟩
  · rw [items]
    exact shared.stored.set others fits
  · rw [assoc]
    refine shared.indexed.congr (fun x => ?_) fun x _ => ?_
    · by_cases equal : x = e
      · rw [equal, update_self, alive]
      · rw [update_of_ne equal]
    · rw [items]
      by_cases equal : x = e
      · rw [equal, update_self, here, Option.map_some, Option.map_some, key]
      · rw [update_of_ne equal]
  · rw [fresh] at unknown
    exact shared.known_update (shared.stored.fits here).present x unknown

/-- The same for an item whose node and place in the queue do not change. -/
theorem Shared.touch (here : s.items e = some it) (others : ∀ x, x ≠ e → pins' x = pins₁ x)
    (fits : Fits (place e) (pins' e) it') (key : it'.key = it.key)
    (node : it'.treeNode = it.treeNode) :
    Shared cfg place pins' { s with items := update s.items e (some it') } := by
  obtain ⟨l, line⟩ := shared.line
  have still : update place e (place e) = place := update_eq_self e place
  rw [← still]
  refine shared.rewrite here others fits key rfl rfl rfl rfl ⟨l, by rw [still]; exact line⟩ ?_
  refine shared.rooted.replace fun a has => ?_
  rw [here] at has
  rwa [Option.bind_some, node]

theorem Shared.pull {key : Key} (free : shadowAssocFind cfg s key = none) :
    Shared cfg (update place s.fresh .hashed) pins₁
      (shadowAssocInsert cfg (createShadowItem s key).2 ⟨s.fresh, key⟩) := by
  have absent := shared.known s.fresh le_rfl
  have none_ := shared.stored.none_of_absent absent
  have unpinned := (shared.stored.gone _ none_).2
  obtain ⟨l, line⟩ := shared.line
  refine ⟨shared.stored.set (fun _ _ => rfl) ⟨by simp, by simp, rfl, ?_, by simp⟩,
    ⟨l, line.congr (update_queued_iff (by rw [absent]; simp))⟩,
    shared.indexed.insert absent free rfl, ?_, fun x unknown => ?_⟩
  · rw [unpinned]; rfl
  · refine shared.rooted.replace fun a has => ?_
    simp [none_] at has
  · have later : s.fresh < x := unknown
    rw [update_of_ne (Nat.ne_of_gt later)]
    exact shared.known x (Nat.le_of_lt later)

end

theorem Shared.plant {time : Timeval} {t : Tree} (shared : Shared cfg place pins₁ s)
    (here : s.items e = some it) (at_ : place e = .hashed) (planted : Planted s.tree t e) :
    Shared cfg (update place e .treed) pins₁
      { s with
        items := update s.items e
          (some { it with lastSeenTime := time, treeNode := some s.tree.fresh })
        now := time
        tree := t } := by
  have fits := shared.stored.fits here
  rw [at_] at fits
  obtain ⟨l, line⟩ := shared.line
  have after : Fits .treed (pins₁ e)
      { it with lastSeenTime := time, treeNode := some s.tree.fresh } :=
    ⟨by simp, by simpa using fits.dead, rfl, fits.refcnt, by simp⟩
  have bare : it.treeNode = none := by simpa [Place.hasNode] using fits.node
  exact shared.rewrite here (fun _ _ => rfl) after rfl (by rw [at_]; rfl) rfl rfl rfl
    ⟨l, line.congr (update_queued_iff (by rw [at_]; simp))⟩
    (shared.rooted.plant planted (by rw [here, Option.bind_some, bare]) rfl)

section

variable (shared : Shared cfg place pins₁ s)
include shared

theorem Shared.enqueue (at_ : place e = .treed) (room : s.size.toNat + 1 < 2 ^ 32) :
    Shared cfg (update place e .queued) pins₁ (insertShadowqItemLocked s e) := by
  obtain ⟨it, here⟩ := shared.stored.here (e := e) (by rw [at_]; simp)
  have fits := shared.stored.fits here
  rw [at_] at fits
  obtain ⟨l, line⟩ := shared.line
  refine shared.rewrite here (fun _ _ => rfl) ?_ rfl (by rw [at_]; rfl) ?_ rfl rfl
    ⟨e :: l, line.push (by rw [at_]; simp) room⟩ shared.rooted
  · exact ⟨by simp, by simpa using fits.dead, fits.node, fits.refcnt, by simp⟩
  · rw [← here, update_eq_self]
    rfl

theorem Shared.dequeue (at_ : place e = .queued) :
    Shared cfg (update place e .unlinked) pins₁ (removeShadowqItemLocked s e) := by
  obtain ⟨it, here⟩ := shared.stored.here (e := e) (by rw [at_]; simp)
  have fits := shared.stored.fits here
  rw [at_] at fits
  obtain ⟨l, line⟩ := shared.line
  refine shared.rewrite here (fun _ _ => rfl) ?_ rfl (by rw [at_]; rfl) ?_ rfl rfl
    ⟨l.erase e, line.unlink at_ (by simp)⟩ shared.rooted
  · exact ⟨by simp, by simpa using fits.dead, fits.node, fits.refcnt, by simp⟩
  · rw [← here, update_eq_self]
    rfl

theorem Shared.refresh {time : Timeval} {node : NodeId} {t₁ t : Tree} {hits : Nat → UInt32}
    {misses : UInt32} (here : s.items e = some it) (at_ : place e = .queued)
    (has : it.treeNode = some node) (pruned : Pruned s.tree t₁ node) (planted : Planted t₁ t e) :
    Shared cfg place pins₁
      { s with
        items := update s.items e
          (some { it with lastSeenTime := time, treeNode := some t₁.fresh })
        queue := (s.queue.unlink e).push e
        size := s.size - 1 + 1
        tree := t
        now := time
        hits := hits
        misses := misses } := by
  have fits := shared.stored.fits here
  obtain ⟨l, line⟩ := shared.line
  have still : update place e .queued = place := by rw [← at_, update_eq_self]
  have out := line.unlink (p := .unlinked) at_ (by simp)
  have room : (s.size - 1).toNat + 1 < 2 ^ 32 := by
    have counted := line.size
    have shorter := List.length_erase_of_mem ((line.mem e).mpr at_)
    have nonempty := List.length_pos_of_mem ((line.mem e).mpr at_)
    have small := s.size.toNat_lt
    rw [out.size]
    omega
  have back := out.push (e := e) (by rw [update_self]; simp) room
  rw [update_idem] at back
  rw [← still]
  have after : Fits .queued (pins₁ e)
      { it with lastSeenTime := time, treeNode := some t₁.fresh } := by
    rw [← at_]
    exact ⟨fits.present, fits.dead, by rw [at_]; rfl, fits.refcnt, fits.pinned⟩
  refine shared.rewrite here (fun _ _ => rfl) after rfl (by rw [at_]) rfl rfl rfl ⟨_, back⟩ ?_
  · have bare : Rooted (update s.items e (some { it with treeNode := none })) t₁ :=
      shared.rooted.prune pruned (by rw [here, Option.bind_some, has])
    have again : Rooted (update (update s.items e _) e
        (some { it with lastSeenTime := time, treeNode := some t₁.fresh })) t :=
      bare.plant planted (by rw [update_self, Option.bind_some]) rfl
    rwa [update_idem] at again

end

section

variable (shared : Shared cfg place pins₁ s)
include shared

section

variable (here : s.items e = some it)
include here

theorem Shared.prune {node : NodeId} {t : Tree}
    (at_ : place e = .unlinked) (has : it.treeNode = some node)
    (pruned : Pruned s.tree t node) : Shared cfg (update place e .untreed) pins₁
      { s with items := update s.items e (some { it with treeNode := none }), tree := t } := by
  have fits := shared.stored.fits here
  rw [at_] at fits
  obtain ⟨l, line⟩ := shared.line
  have after : Fits .untreed (pins₁ e) { it with treeNode := none } :=
    ⟨by simp, by simpa using fits.dead, rfl, fits.refcnt, by simp⟩
  exact shared.rewrite here (fun _ _ => rfl) after rfl (by rw [at_]; rfl) rfl rfl rfl
    ⟨l, line.congr (update_queued_iff (by rw [at_]; simp))⟩
    (shared.rooted.prune pruned (by rw [here, Option.bind_some, has]))

/-- An item dies: its own entry leaves the table, and it is freed if nobody has pinned it. -/
theorem Shared.kill (at_ : place e = .untreed) :
    Shared cfg (update place e (if it.refcnt = 1 then .absent else .dead)) pins₁
      { s with
        items := update s.items e (if it.refcnt = 1 then none else
          some { it with dead := true, refcnt := it.refcnt - 1 })
        assoc := s.assoc.delete cfg.hash Entry.key it.key } := by
  have fits := shared.stored.fits here
  rw [at_] at fits
  obtain ⟨l, line⟩ := shared.line
  have count : it.refcnt.toNat = 1 + pins₁ e := fits.refcnt
  have bare : it.treeNode = none := by
    have := fits.node
    simpa [Place.hasNode] using this
  -- the place after it and the item there
  have split : ∀ {P : Place → Option ShadowItem → Prop},
      (pins₁ e = 0 → P .absent none) →
      (0 < pins₁ e → P .dead (some { it with dead := true, refcnt := it.refcnt - 1 })) →
      P (if it.refcnt = 1 then .absent else .dead) (if it.refcnt = 1 then none else
        some { it with dead := true, refcnt := it.refcnt - 1 }) := by
    intro P last pinned
    by_cases one : it.refcnt = 1
    · rw [if_pos one, if_pos one]
      rw [one] at count
      exact last (by change 1 = 1 + pins₁ e at count; omega)
    · rw [if_neg one, if_neg one]
      refine pinned (Nat.pos_of_ne_zero fun zero => one ?_)
      rw [zero] at count
      exact UInt32.toNat_inj.mp count
  refine ⟨?_, ⟨l, line.congr (update_queued_iff ?_)⟩, ?_, ?_, fun x unknown => ?_⟩
  · refine split (P := fun p o => Stored (update place e p) pins₁ (update s.items e o))
      (fun last => shared.stored.free (fun _ _ => rfl) last) fun pinned => ?_
    refine shared.stored.set (fun _ _ => rfl) ⟨by simp, by simp, ?_, ?_, fun _ => pinned⟩
    · rw [bare]; rfl
    · have one : (1 : UInt32) ≤ it.refcnt := by
        rw [UInt32.le_iff_toNat_le, count]
        exact Nat.le_add_right 1 _
      rw [UInt32.toNat_sub_of_le _ _ one, count]
      change 1 + pins₁ e - 1 = 0 + pins₁ e
      omega
  · rw [at_]
    refine split (P := fun p _ => p = .queued ↔ Place.untreed = .queued) (fun _ => by simp) fun _ => by simp
  · refine shared.indexed.delete (by rw [at_]; rfl) (by rw [here, Option.map_some]) ?_ fun x other =>
      update_of_ne other _ _
    exact split (P := fun p _ => p.alive = false) (fun _ => rfl) fun _ => rfl
  · refine shared.rooted.replace fun a has => ?_
    simp [here, Option.bind_some, bare] at has
  · exact shared.known_update (by rw [at_]; simp) x unknown

theorem Shared.free
    (at_ : place e = .dead) (others : ∀ x, x ≠ e → pins' x = pins₁ x) (unpinned : pins' e = 0) :
    Shared cfg (update place e .absent) pins'
      { s with items := update s.items e none } := by
  have fits := shared.stored.fits here
  rw [at_] at fits
  obtain ⟨l, line⟩ := shared.line
  refine ⟨shared.stored.free others unpinned,
    ⟨l, line.congr (update_queued_iff (by rw [at_]; simp))⟩, ?_, ?_, fun x unknown => ?_⟩
  · refine shared.indexed.congr (fun x => ?_) fun x alive => ?_
    · by_cases equal : x = e
      · rw [equal, update_self, at_]; rfl
      · rw [update_of_ne equal]
    · have other : x ≠ e := by
        rintro rfl
        rw [at_] at alive
        cases alive
      dsimp only
      rw [update_of_ne other]
  · refine shared.rooted.replace fun a has => ?_
    have bare := fits.node
    rw [here, Option.bind_some] at has
    rw [has] at bare
    cases bare
  · exact shared.known_update (by rw [at_]; simp) x unknown

end

end

theorem Fits.pin {n : Nat} (fits : Fits p n it) (few : n + 2 < 2 ^ 32) :
    Fits p (n + 1) { it with refcnt := it.refcnt + 1 } := by
  refine ⟨fits.present, fits.dead, fits.node, ?_, fun _ => Nat.succ_pos n⟩
  change (it.refcnt + 1).toNat = _
  have bound : it.refcnt.toNat + 1 < 2 ^ 32 := by
    rw [fits.refcnt]
    split <;> omega
  rw [UInt32.toNat_add]
  change (it.refcnt.toNat + 1) % 2 ^ 32 = _
  rw [Nat.mod_eq_of_lt bound, fits.refcnt]
  omega

section

variable (shared : Shared cfg place pins₁ s)
include shared

theorem Shared.release (fewer : pins' e + 1 = pins₁ e)
    (others : ∀ x, x ≠ e → pins' x = pins₁ x) (done : shadowRelease s e = .ok s') :
    (place e = .dead ∧ Shared cfg (update place e .absent) pins' s') ∨
      Shared cfg place pins' s' := by
  obtain ⟨it, here, rfl⟩ := shadowRelease_spec done
  have fits := shared.stored.fits here
  have count := fits.refcnt
  by_cases last : it.refcnt = 1 ∧ it.dead = true
  · simp only [if_pos last]
    have deadPlace := fits.dead.mp last.2
    rw [last.1, deadPlace] at count
    change 1 = 0 + pins₁ e at count
    exact .inl ⟨deadPlace, shared.free here deadPlace others (by omega)⟩
  · simp only [if_neg last]
    have one : (1 : UInt32) ≤ it.refcnt := by
      rw [UInt32.le_iff_toNat_le, count]
      change 1 ≤ _
      omega
    have after : Fits (place e) (pins' e) { it with refcnt := it.refcnt - 1 } := by
      refine ⟨fits.present, fits.dead, fits.node, ?_, fun deadPlace => ?_⟩
      · change (it.refcnt - 1).toNat = _
        rw [UInt32.toNat_sub_of_le _ _ one, count]
        change _ + pins₁ e - 1 = _
        omega
      · refine Nat.pos_of_ne_zero fun zero => last ⟨UInt32.toNat_inj.mp ?_, fits.dead.mpr deadPlace⟩
        rw [count, deadPlace]
        change 0 + pins₁ e = 1
        omega
    exact .inr (shared.touch here others after rfl rfl)

theorem Shared.tail {victim : ItemId}
    (last : s.queue.tail = some victim) : place victim = .queued := by
  obtain ⟨l, line⟩ := shared.line
  rw [line.rep.tail] at last
  exact (line.mem victim).mp (List.mem_of_getLast? last)

theorem Shared.mem_order (queued : place e = .queued) :
    e ∈ s.order := by
  obtain ⟨l, line⟩ := shared.line
  have order : s.order = l := line.toList
  rw [order]
  exact (line.mem e).mpr queued

end

theorem Shared.initial (cfg : Settings) (unpinned : ∀ e, pins₁ e = 0) (buckets : Nat)
    (now : Timeval) : Shared cfg (fun _ => .absent) pins₁ (.initial buckets now) := by
  refine ⟨⟨fun e _ => ⟨rfl, unpinned e⟩, fun found => (by cases found)⟩,
    ⟨[], Dll.rep_empty, rfl, by simp⟩, ?_, ⟨fun has => (by cases has), fun _ _ => rfl⟩, fun _ _ => rfl⟩
  refine ⟨fun k => ?_, fun found => ?_, fun alive => (by cases alive), fun e => ?_⟩
  · have none_ : (State.initial buckets now).assoc.copies cfg.hash Entry.key k = 0 :=
      Chain.find_eq_none_iff.mp (Chain.find_empty buckets k)
    rw [none_]
    exact Nat.zero_le 1
  · cases found.symm.trans (Chain.find_empty buckets _)
  · exact Chain.total_eq_zero_iff.mpr fun bucket inside x member => by
      simp [List.eq_of_mem_replicate inside] at member

/-- A thread goes on with the same pin. -/
theorem Shared.goes {n : Nat} {pcs : Fin n → Pc} {t : Fin n} {pc : Pc}
    (shared : Shared cfg place (pins pcs) s) (same : pc.pin = (pcs t).pin) :
    Shared cfg place (pins (update pcs t pc)) s := by
  rwa [pins_same same]

end Moves

/-! ### Steps -/

/-- What was freed is gone and was freed once. -/
structure Disposed (freed : List ItemId) (s : State) : Prop where
  once : freed.Nodup
  gone : ∀ e ∈ freed, e < s.fresh ∧ s.items e = none

structure Inv (cfg : Pool) (place : ItemId → Place) (w : World cfg) : Prop where
  shared : Shared cfg.toSettings place (pins w.pc) w.state
  staffed : Staffed place w.pc
  bound : w.state.size ≤ cfg.maxItems
  disposed : Disposed w.freed w.state

section Steps

variable {cfg : Pool} {place : ItemId → Place} {w w' : World cfg} {t : Fin cfg.threads} {e : ItemId}
  {s : State} {time : Timeval} {it : ShadowItem}

theorem Disposed.keep {freed : List ItemId} {s' : State} (disposed : Disposed freed s)
    (here : s.items e = some it) (o : Option ShadowItem) (items : s'.items = update s.items e o)
    (fresh : s'.fresh = s.fresh) : Disposed freed s' := by
  refine ⟨disposed.once, fun x member => ?_⟩
  obtain ⟨old, gone⟩ := disposed.gone x member
  have other : x ≠ e := by
    rintro rfl
    simp [here] at gone
  rw [fresh, items, update_of_ne other]
  exact ⟨old, gone⟩

theorem Disposed.drops {s' : State} (disposed : Disposed w.freed s) (here : s.items e = some it)
    (known : e < s.fresh) (o : Option ShadowItem) (items : s'.items = update s.items e o)
    (fresh : s'.fresh = s.fresh) (pc : Pc) : Disposed (w.drops t s' e pc).freed s' := by
  have kept := disposed.keep here o items fresh
  unfold World.drops
  dsimp only
  split
  next freed =>
    have new : e ∉ w.freed := by
      intro member
      simp [(disposed.gone e member).2] at here
    refine ⟨List.nodup_cons.mpr ⟨new, disposed.once⟩, fun x member => ?_⟩
    rcases List.mem_cons.mp member with rfl | old
    · exact ⟨by rw [fresh]; exact known, Option.isNone_iff_eq_none.mp freed⟩
    · exact kept.gone x old
  · exact kept

theorem Inv.known (inv : Inv cfg place w) (here : w.state.items e = some it) :
    e < w.state.fresh := by
  by_contra beyond
  exact (inv.shared.stored.fits here).present (inv.shared.known e (Nat.le_of_not_lt beyond))

theorem unlocked (free : w.queueLocked = false) (t : Fin cfg.threads) :
    (w.pc t).holdsQueue = false := by
  simp only [World.queueLocked, decide_eq_false_iff_not, not_exists, Bool.not_eq_true] at free
  exact free t

theorem Inv.not_evicting (inv : Inv cfg place w) (free : w.queueLocked = false) (e : ItemId) :
    place e ≠ .unlinked ∧ place e ≠ .untreed := by
  constructor <;> intro at_ <;>
    obtain ⟨t, stage⟩ := inv.staffed.owned (e := e) (by rw [at_]; rfl) <;>
    have unheld := unlocked free t <;> rw [at_] at stage <;> cases pc : w.pc t <;>
    rw [pc] at stage unheld <;> cases stage <;> cases unheld

theorem Inv.pull {key : Key} (inv : Inv cfg place w) (idle : w.pc t = .idle)
    (free : shadowAssocFind cfg.toSettings w.state key = none) :
    ∃ place', Inv cfg place' (w.pull t key) := by
  have absent := inv.shared.known w.state.fresh le_rfl
  refine ⟨update place w.state.fresh .hashed,
    (inv.shared.pull free).goes (by rw [idle]; rfl), ?_, inv.bound, inv.disposed.once,
    fun x member => ?_⟩
  · exact inv.staffed.begin (by rw [idle]; rfl) (by rw [absent]; rfl) rfl fun holds => by cases holds
  · obtain ⟨old, gone⟩ := inv.disposed.gone x member
    refine ⟨Nat.lt_succ_of_lt old, ?_⟩
    exact (update_of_ne (Nat.ne_of_lt old) _ _).trans gone

theorem pinFor_spec {key : Key} {next : ItemId → Pc} (called : w.pinFor next t key = some w') :
    w' = w.goes t w.state .idle ∨ ∃ x it, shadowAssocFind cfg.toSettings w.state key = some x ∧
      w.state.items x.id = some it ∧
      w' = w.goes t { w.state with
        items := update w.state.items x.id (some { it with refcnt := it.refcnt + 1 }) }
        (next x.id) := by
  obtain ⟨⟨found, s⟩, done, rfl⟩ := Option.map_eq_some_iff.mp called
  have pinned : shadowFindAndPin cfg.toSettings w.state key = .ok (found, s) :=
    toOption_eq_some done
  rcases shadowFindAndPin_spec pinned with ⟨rfl, rfl⟩ | ⟨x, it, got, here, -, rfl, rfl⟩
  · exact .inl rfl
  · exact .inr ⟨x, it, got, here, rfl⟩

theorem Inv.pinFor {key : Key} {next : ItemId → Pc} (inv : Inv cfg place w) (idle : w.pc t = .idle)
    (pin : ∀ e, (next e).pin = some e) (stage : ∀ e, (next e).stage = none)
    (free : ∀ e, (next e).holdsQueue = false) (called : w.pinFor next t key = some w') :
    ∃ place', Inv cfg place' w' := by
  have resting : (w.pc t).stage = none := by rw [idle]; rfl
  rcases pinFor_spec called with rfl | ⟨x, it, -, here, rfl⟩
  · exact ⟨place, inv.shared.goes (by rw [idle]), inv.staffed.elsewhere resting rfl rfl, inv.bound,
      inv.disposed⟩
  · have without : (w.pc t).pin = none := by rw [idle]; rfl
    obtain ⟨more, others⟩ := pins_take without (pin x.id)
    have few : pins w.pc x.id + 2 < 2 ^ 32 := by
      have := pins_le w.pc x.id
      have := cfg.threads_lt
      omega
    refine ⟨place, inv.shared.touch here others ?_ rfl rfl,
      inv.staffed.elsewhere resting (stage _) (free _), inv.bound, inv.disposed.keep here _ rfl rfl⟩
    change Fits (place x.id) (pins (update w.pc t (next x.id)) x.id) _
    rw [more]
    exact (inv.shared.stored.fits here).pin few

theorem Inv.insertTree (inv : Inv cfg place w) (at_ : w.pc t = .insertTree e)
    (done : insertIntoTree cfg.toSettings w.state e time = .ok s) :
    ∃ place', Inv cfg place' (w.goes t s (.insertQueue e)) := by
  have stage : (w.pc t).stage = some (e, .hashed) := by rw [at_]; rfl
  obtain ⟨it, tree, here, planted, rfl⟩ := insertIntoTree_spec done
  exact ⟨update place e .treed,
    (inv.shared.plant here (inv.staffed.works stage) planted).goes (by rw [at_]; rfl),
    inv.staffed.carry stage rfl fun holds => (by cases holds), inv.bound,
    inv.disposed.keep here _ rfl rfl⟩

theorem Inv.room (inv : Inv cfg place w) : w.state.size.toNat + 1 < 2 ^ 32 := by
  have bound := UInt32.le_iff_toNat_le.mp inv.bound
  have small := cfg.maxItems_lt
  omega

variable {victim : Option ItemId}

section

variable (inv : Inv cfg place w)
include inv

theorem Inv.insertQueue (at_ : w.pc t = .insertQueue e) (free : w.queueLocked = false) :
    insertIntoQueue cfg.toSettings w.state e = .ok (s, victim) →
    ∃ place', Inv cfg place' (w.goes t s
      (match victim with | some v => .evictTree v false | none => .idle)) := by
  intro done
  have stage : (w.pc t).stage = some (e, .treed) := by rw [at_]; rfl
  have shared := inv.shared.enqueue (inv.staffed.works stage) inv.room
  have staffed : Staffed (update place e .queued) (update w.pc t .idle) :=
    inv.staffed.finish stage rfl rfl rfl
  have unpinned : (w.pc t).pin = none := by rw [at_]; rfl
  obtain ⟨it, -, done⟩ := bind_eq_ok done
  dsimp only at done
  split at done
  next long =>
    split at done
    next v last =>
      have queued := shared.tail last
      obtain ⟨it, here, ⟨dead, -⟩ | ⟨-, rfl, rfl⟩⟩ := unlinkVictim_spec done
      · have deadPlace := (shared.stored.fits here).dead.mp dead
        simp [queued] at deadPlace
      · refine ⟨update (update place e .queued) v .unlinked,
          (shared.dequeue queued).goes (by rw [unpinned]; rfl), ?_, ?_,
          inv.disposed.once, inv.disposed.gone⟩
        · have resting : (update w.pc t .idle t).stage = none := by
            rw [update_self]; rfl
          have starts : (Pc.evictTree v false).stage = some (v, .unlinked) := rfl
          have begun := staffed.begin resting (by rw [queued]; rfl) starts fun _ t' other => by
              rw [update_of_ne other]; exact unlocked free t'
          rwa [update_idem] at begun
        · change w.state.size + 1 - 1 ≤ _
          rw [UInt32.add_sub_cancel]
          exact inv.bound
    next empty =>
      -- the item that has just come is in the queue
      obtain ⟨l, line⟩ := shared.line
      have member := (line.mem e).mpr (update_self ..)
      have none_ : l.getLast? = none := line.rep.tail.symm.trans empty
      simp [List.getLast?_eq_none_iff.mp none_] at member
  next within =>
    cases done
    exact ⟨update place e .queued, shared.goes (by rw [unpinned]; rfl), staffed,
      UInt32.not_lt.mp within, inv.disposed.once, inv.disposed.gone⟩

theorem Inv.worker {p : Place} (at_ : place e = p) (moves : p.transient = true) :
    ∃ t, (w.pc t).stage = some (e, p) := by
  subst at_
  exact inv.staffed.owned moves

/-- An item that a lookup finds with a node, while no insertion is about to put it into the
queue, is queued. -/
theorem Inv.queued_of_node (free : w.queueLocked = false) (here : w.state.items e = some it)
    (has : it.treeNode ≠ none) (quiet : ∀ t, w.pc t ≠ .insertQueue e) : place e = .queued := by
  have node := (inv.shared.stored.fits here).node
  rw [Option.isSome_iff_ne_none.mpr has] at node
  obtain ⟨notUnlinked, -⟩ := inv.not_evicting free e
  cases at_ : place e <;> rw [at_] at node
  case absent | hashed | untreed | dead => cases node
  case treed =>
    obtain ⟨t, stage⟩ := inv.worker at_ rfl
    cases pc : w.pc t <;> rw [pc] at stage <;> cases stage
    exact absurd pc (quiet t)
  case unlinked => exact absurd at_ notUnlinked

theorem Inv.queued_of_alive (free : w.queueLocked = false) (here : w.state.items e = some it)
    (alive : it.dead = false) (quiet : ∀ t, w.pc t ≠ .insertTree e ∧ w.pc t ≠ .insertQueue e) :
    place e = .queued := by
  have fits := inv.shared.stored.fits here
  obtain ⟨notUnlinked, notUntreed⟩ := inv.not_evicting free e
  cases at_ : place e
  case absent => exact absurd at_ fits.present
  case hashed =>
    obtain ⟨t, stage⟩ := inv.worker at_ rfl
    cases pc : w.pc t <;> rw [pc] at stage <;> cases stage
    exact absurd pc (quiet t).1
  case treed =>
    obtain ⟨t, stage⟩ := inv.worker at_ rfl
    cases pc : w.pc t <;> rw [pc] at stage <;> cases stage
    exact absurd pc (quiet t).2
  case queued => rfl
  case unlinked => exact absurd at_ notUnlinked
  case untreed => exact absurd at_ notUntreed
  case dead =>
    simp [fits.dead.mpr at_] at alive

theorem Inv.lookupMove {hit : Option (Int × Int)} (at_ : w.pc t = .lookupMove e)
    (free : w.queueLocked = false) (quiet : ∀ t', w.pc t' ≠ .insertQueue e)
    (done : lookupPinned cfg.toSettings w.state e time = .ok (hit, s)) :
    ∃ place', Inv cfg place' (w.goes t s (.lookupRelease e)) := by
  have staffed : Staffed place (update w.pc t (.lookupRelease e)) :=
    inv.staffed.elsewhere (by rw [at_]; rfl) rfl rfl
  have same : (Pc.lookupRelease e).pin = (w.pc t).pin := by rw [at_]; rfl
  obtain ⟨it, here, ⟨-, rfl⟩ | ⟨node, t₁, tree, hits, misses, has, pruned, planted, rfl⟩⟩ :=
    lookupPinned_spec done
  · exact ⟨place, inv.shared.goes same, staffed, inv.bound, inv.disposed⟩
  · have queued := inv.queued_of_node free here (by rw [has]; simp) quiet
    refine ⟨place, (inv.shared.refresh here queued has pruned planted).goes same, staffed, ?_,
      inv.disposed.keep here _ rfl rfl⟩
    change w.state.size - 1 + 1 ≤ _
    rw [UInt32.sub_add_cancel]
    exact inv.bound

end

theorem Inv.release {pc : Pc} (inv : Inv cfg place w) (at_ : w.pc t = pc) (pin : pc.pin = some e)
    (resting : pc.stage = none) (done : shadowRelease w.state e = .ok s) :
    ∃ place', Inv cfg place' (w.drops t s e .idle) := by
  subst at_
  have unpins : Pc.idle.pin = none := rfl
  obtain ⟨fewer, others⟩ := pins_drop pin unpins
  have released := inv.shared.release fewer others done
  obtain ⟨it, here, rfl⟩ := shadowRelease_spec done
  rcases released with ⟨dead, shared⟩ | shared
  · exact ⟨_, shared, inv.staffed.stay resting (by rw [dead]; rfl) rfl rfl rfl, inv.bound,
      inv.disposed.drops here (inv.known here) _ (by rfl) (by rfl) _⟩
  · exact ⟨place, shared, inv.staffed.elsewhere resting rfl rfl, inv.bound,
      inv.disposed.drops here (inv.known here) _ (by rfl) (by rfl) _⟩

section

variable (inv : Inv cfg place w)
include inv

theorem Inv.storeEvict (at_ : w.pc t = .storeEvict e) (free : w.queueLocked = false)
    (quiet : ∀ t', w.pc t' ≠ .insertTree e ∧ w.pc t' ≠ .insertQueue e) :
    unlinkVictim w.state e = .ok (s, victim) →
    ∃ place', Inv cfg place' (w.goes t s
      (match victim with | some v => .evictTree v true | none => .storeRelease e)) := by
  intro done
  have resting : (w.pc t).stage = none := by rw [at_]; rfl
  obtain ⟨it, here, ⟨-, rfl, rfl⟩ | ⟨alive, rfl, rfl⟩⟩ := unlinkVictim_spec done
  · exact ⟨place, inv.shared.goes (by rw [at_]; rfl), inv.staffed.elsewhere resting rfl rfl,
      inv.bound, inv.disposed⟩
  · have queued := inv.queued_of_alive free here alive quiet
    refine ⟨update place e .unlinked,
      (inv.shared.dequeue queued).goes (by rw [at_]; rfl),
      inv.staffed.begin resting (by rw [queued]; rfl) rfl fun _ t' _ => unlocked free t', ?_,
      inv.disposed.once, inv.disposed.gone⟩
    obtain ⟨l, line⟩ := inv.shared.line
    have nonempty := List.length_pos_of_mem ((line.mem e).mpr queued)
    have one : (1 : UInt32) ≤ w.state.size := by
      rwa [UInt32.le_iff_toNat_le, line.size]
    have bound := UInt32.le_iff_toNat_le.mp inv.bound
    change w.state.size - 1 ≤ _
    rw [UInt32.le_iff_toNat_le, UInt32.toNat_sub_of_le _ _ one]
    omega

theorem Inv.evictTree {stored : Bool} (at_ : w.pc t = .evictTree e stored)
    (done : evictFromTree cfg.toSettings w.state e = .ok s) :
    ∃ place', Inv cfg place' (w.goes t s (.evictHash e stored)) := by
  have stage : (w.pc t).stage = some (e, .unlinked) := by rw [at_]; rfl
  have unlinked := inv.staffed.works stage
  obtain ⟨it, here, ⟨bare, rfl⟩ | ⟨node, tree, has, pruned, rfl⟩⟩ := evictFromTree_spec done
  · have node := (inv.shared.stored.fits here).node
    rw [bare, unlinked] at node
    cases node
  · exact ⟨update place e .untreed,
      (inv.shared.prune here unlinked has pruned).goes (by rw [at_]; rfl),
      inv.staffed.carry stage rfl fun _ => (by rw [at_]; rfl), inv.bound,
      inv.disposed.keep here _ rfl rfl⟩

theorem Inv.evictHash {stored : Bool} (at_ : w.pc t = .evictHash e stored)
    (done : evictFromHash cfg.toSettings w.state e = .ok s) :
    ∃ place', Inv cfg place' (w.drops t s e (if stored then .storeRelease e else .idle)) := by
  have stage : (w.pc t).stage = some (e, .untreed) := by rw [at_]; rfl
  obtain ⟨it, here, rfl⟩ := evictFromHash_spec done
  exact ⟨update place e (if it.refcnt = 1 then .absent else .dead),
    (inv.shared.kill here (inv.staffed.works stage)).goes (by rw [at_]; cases stored <;> rfl),
    inv.staffed.finish stage (by cases stored <;> rfl) (by cases stored <;> rfl) (by split <;> rfl),
    inv.bound, inv.disposed.drops here (inv.known here) _ (by rfl) (by rfl) _⟩

end

theorem Inv.next (inv : Inv cfg place w) (quiet : ∀ t', (w.pc t').undisturbed (w.pc t))
    (called : w.next t time = some w') : ∃ place', Inv cfg place' w' := by
  unfold World.next at called
  split at called
  next => cases called
  next e at_ =>
    obtain ⟨s, done, rfl⟩ := Option.map_eq_some_iff.mp called
    exact inv.insertTree at_ (toOption_eq_some done)
  next e at_ =>
    obtain ⟨free, called⟩ := Option.ite_none_left_eq_some.mp called
    obtain ⟨⟨s, victim⟩, done, rfl⟩ := Option.map_eq_some_iff.mp called
    exact inv.insertQueue at_ (Bool.eq_false_of_not_eq_true free) (toOption_eq_some done)
  next e at_ =>
    obtain ⟨free, called⟩ := Option.ite_none_left_eq_some.mp called
    obtain ⟨⟨hit, s⟩, done, rfl⟩ := Option.map_eq_some_iff.mp called
    rw [at_] at quiet
    exact inv.lookupMove at_ (Bool.eq_false_of_not_eq_true free) quiet (toOption_eq_some done)
  iterate 2
    next e at_ =>
      obtain ⟨s, done, rfl⟩ := Option.map_eq_some_iff.mp called
      exact inv.release at_ rfl rfl (toOption_eq_some done)
  next e at_ =>
    obtain ⟨free, called⟩ := Option.ite_none_left_eq_some.mp called
    obtain ⟨⟨s, victim⟩, done, rfl⟩ := Option.map_eq_some_iff.mp called
    rw [at_] at quiet
    exact inv.storeEvict at_ (Bool.eq_false_of_not_eq_true free) quiet (toOption_eq_some done)
  next e stored at_ =>
    obtain ⟨s, done, rfl⟩ := Option.map_eq_some_iff.mp called
    exact inv.evictTree at_ (toOption_eq_some done)
  next e stored at_ =>
    obtain ⟨s, done, rfl⟩ := Option.map_eq_some_iff.mp called
    exact inv.evictHash at_ (toOption_eq_some done)

end Steps

section Runs

variable {cfg : Pool} {place : ItemId → Place} {w w' : World cfg} {e : ItemId}

/-- After an undisturbed step the items have places as the invariant asks. -/
theorem inv_step (w : World cfg) (action : Action cfg.threads) (w' : World cfg)
    (inv : ∃ place, Inv cfg place w) (quiet : Undisturbed cfg w action)
    (called : threadStep cfg w action = some w') : ∃ place, Inv cfg place w' := by
  obtain ⟨place, inv⟩ := inv
  cases action with
  | pull t key =>
    obtain ⟨idle, called⟩ := Option.ite_none_right_eq_some.mp called
    cases called
    exact inv.pull idle quiet
  | lookup t key | store t key =>
    obtain ⟨idle, called⟩ := Option.ite_none_right_eq_some.mp called
    exact inv.pinFor idle (fun _ => rfl) (fun _ => rfl) (fun _ => rfl) called
  | next t time => exact inv.next quiet called

theorem inv_initial (cfg : Pool) (buckets : Nat) (now : Timeval) :
    ∃ place, Inv cfg place (World.initial cfg buckets now) :=
  ⟨fun _ => .absent, .initial cfg.toSettings pins_idle buckets now,
    ⟨fun has => (by cases has), fun moves => (by cases moves), fun has => (by cases has),
      fun holds => (by cases holds)⟩, UInt32.zero_le, List.nodup_nil, fun e member => (by cases member)⟩

/-! ### What the invariant gives -/

theorem Inv.queueIsList (inv : Inv cfg place w) : QueueIsList cfg w := by
  obtain ⟨l, line⟩ := inv.shared.line
  have order : w.state.order = l := line.toList
  rw [QueueIsList, order]
  exact ⟨line.rep, line.size.symm, fun _ => inv.bound⟩

theorem unlinksQueued_of_inv (w : World cfg) (action : Action cfg.threads)
    (inv : ∃ place, Inv cfg place w) (quiet : Undisturbed cfg w action) :
    UnlinksQueued cfg w action := by
  obtain ⟨place, inv⟩ := inv
  cases action with
  | pull t key => trivial
  | lookup t key => trivial
  | store t key => trivial
  | next t time =>
    intro free
    change ∀ t', (w.pc t').undisturbed (w.pc t) at quiet
    cases at_ : w.pc t <;> rw [at_] at quiet <;> try trivial
    case lookupMove e =>
      exact fun it here has => inv.shared.mem_order (inv.queued_of_node free here has quiet)
    case storeEvict e =>
      exact fun it here alive => inv.shared.mem_order (inv.queued_of_alive free here alive quiet)
    case insertQueue e =>
      intro long victim last
      have stage : (w.pc t).stage = some (e, .treed) := by rw [at_]; rfl
      have shared := inv.shared.enqueue (inv.staffed.works stage) inv.room
      exact shared.mem_order (shared.tail last)

variable {pc : Pc} {action : Action cfg.threads}

theorem Pc.pin_or_stage (has : pc.item = some e) :
    pc.pin = some e ∨ ∃ p, pc.stage = some (e, p) ∧ p ≠ .absent := by
  cases pc <;> cases has
  case lookupMove | lookupRelease | storeEvict | storeRelease => exact .inl rfl
  all_goals exact .inr ⟨_, rfl, by simp⟩

theorem Inv.forgotten (inv : Inv cfg place w) (gone : w.state.items e = none) :
    Forgotten cfg w e := by
  obtain ⟨absent, unpinned⟩ := inv.shared.stored.gone e gone
  obtain ⟨l, line⟩ := inv.shared.line
  have notQueued : e ∉ l := fun member => by
    have queued := (line.mem e).mp member
    simp [absent] at queued
  refine ⟨fun t has => ?_, ?_, ⟨fun member => ?_, fun last => ?_⟩, fun a _ n found owner => ?_⟩
  · rcases Pc.pin_or_stage has with pin | ⟨p, stage, present⟩
    · have positive := pins_pos pin
      rw [unpinned] at positive
      exact Nat.lt_irrefl 0 positive
    · exact present ((inv.staffed.works stage).symm.trans absent)
  · have total := inv.shared.indexed.total e
    rw [absent] at total
    have none_ := Chain.total_eq_zero_iff.mp total
    exact fun bucket inside x member => of_decide_eq_false (none_ bucket inside x member)
  · exact notQueued (line.rep.toList_subset _ member)
  · rw [line.rep.tail] at last
    exact notQueued (List.mem_of_getLast? last)
  · have owned : w.state.tree.owner a = some e := by
      rw [Tree.owner, show w.state.tree.mem a = some n from found, Option.map_some, owner]
    have has := inv.shared.rooted.node owned
    simp [gone] at has

theorem findsAllocated_of_inv (inv : Inv cfg place w) : FindsAllocated cfg w action := by
  have found : ∀ key, ∀ x ∈ shadowAssocFind cfg.toSettings w.state key,
      w.state.items x.id ≠ none := by
    intro key x got gone
    have alive := (inv.shared.indexed.found got).1
    rw [(inv.shared.stored.gone _ gone).1] at alive
    cases alive
  cases action with
  | pull t key => trivial
  | lookup t key => exact found key
  | store t key => exact found key
  | next t time => exact fun e has gone => (inv.forgotten gone).1 t has

theorem freed_drops {t : Fin cfg.threads} {s : State} {x : ItemId} {last : Prop} [Decidable last]
    {it : ShadowItem} (now : e ∈ (w.drops t s x pc).freed) (before : e ∉ w.freed)
    (items : s.items = update w.state.items x (if last then none else some it)) :
    e = x ∧ last ∧ s.items x = none := by
  simp only [World.drops] at now
  split at now
  next gone =>
    rcases List.mem_cons.mp now with rfl | old
    · have none_ := Option.isNone_iff_eq_none.mp gone
      rw [items, update_self, ite_eq_left_iff] at none_
      exact ⟨rfl, not_not.mp fun more => (nomatch none_ more), Option.isNone_iff_eq_none.mp gone⟩
    · exact absurd old before
  · exact absurd now before

/-- What is freed had one reference left. -/
theorem freed_step (called : threadStep cfg w action = some w') (now : e ∈ w'.freed)
    (before : e ∉ w.freed) : (∃ it ∈ w.state.items e, it.refcnt = 1) ∧ w'.state.items e = none := by
  cases action with
  | pull t key =>
    obtain ⟨-, ⟨⟩⟩ := Option.ite_none_right_eq_some.mp called
    exact absurd now before
  | lookup t key | store t key =>
    obtain ⟨-, called⟩ := Option.ite_none_right_eq_some.mp called
    rcases pinFor_spec called with rfl | ⟨x, it, -, -, rfl⟩ <;> exact absurd now before
  | next t time =>
    simp only [threadStep, World.next] at called
    split at called
    case h_5 x at_ | h_6 x at_ =>
      obtain ⟨s, done, rfl⟩ := Option.map_eq_some_iff.mp called
      obtain ⟨it, here, rfl⟩ := shadowRelease_spec (toOption_eq_some done)
      obtain ⟨rfl, last, gone⟩ := freed_drops now before rfl
      exact ⟨⟨it, here, last.1⟩, gone⟩
    case h_9 x stored at_ =>
      obtain ⟨s, done, rfl⟩ := Option.map_eq_some_iff.mp called
      obtain ⟨it, here, rfl⟩ := evictFromHash_spec (toOption_eq_some done)
      obtain ⟨rfl, last, gone⟩ := freed_drops now before rfl
      exact ⟨⟨it, here, last⟩, gone⟩
    case h_1 => cases called
    case h_2 | h_8 =>
      obtain ⟨s, done, rfl⟩ := Option.map_eq_some_iff.mp called
      exact absurd now before
    all_goals
      obtain ⟨-, called⟩ := Option.ite_none_left_eq_some.mp called
      obtain ⟨s, done, rfl⟩ := Option.map_eq_some_iff.mp called
      exact absurd now before

theorem freesForgotten_of_inv (w : World cfg) (action : Action cfg.threads)
    (inv : ∃ place, Inv cfg place w) (quiet : Undisturbed cfg w action) :
    FreesForgotten cfg w action := by
  obtain ⟨place, inv⟩ := inv
  refine ⟨findsAllocated_of_inv inv, fun w' called => ?_⟩
  obtain ⟨place', inv'⟩ := inv_step w action w' ⟨place, inv⟩ quiet called
  refine ⟨inv'.disposed.once, fun e now before => ?_⟩
  obtain ⟨last, gone⟩ := freed_step called now before
  exact ⟨last, inv'.forgotten gone⟩

/-- In a schedule without the three races the queue is a list of the counted length, and what
is taken out of it is in it. -/
theorem queue_is_list_of_undisturbed (cfg : Pool) (buckets : Nat) (now : Timeval)
    (run : List (Action cfg.threads))
    (quiet : Run.Along (threadStep cfg) (Undisturbed cfg) (.initial cfg buckets now) run) :
    Run.Always (threadStep cfg) (QueueIsList cfg) (.initial cfg buckets now) run ∧
      Run.Along (threadStep cfg) (UnlinksQueued cfg) (.initial cfg buckets now) run :=
  ⟨Run.always_mono (fun _ ⟨_, inv⟩ => inv.queueIsList)
      (Run.always_of_invariant inv_step (inv_initial cfg buckets now) quiet),
    Run.along_of_invariant inv_step unlinksQueued_of_inv (inv_initial cfg buckets now) quiet⟩

end Runs

/-! ### Three threads and room for one item -/

abbrev smallPool : Pool where
  hash := List.length
  perslab := 1
  maxItems := 1
  fuel := 8
  perslab_pos := Nat.one_pos
  threads := 3
  threads_lt := by decide
  maxItems_lt := by decide

/-- Thread `t` goes on at second `sec`. -/
def goOn (t : Fin smallPool.threads) (sec : Int) : Action smallPool.threads := .next t ⟨sec, 0⟩

/-- The second insertion evicts the first item while a lookup has it pinned, and a store takes
the second item out. -/
def carefulSchedule : List (Action smallPool.threads) :=
  [.pull 0 [1], goOn 0 1, goOn 0 1, .lookup 1 [1], goOn 1 2, .pull 0 [2], goOn 0 3, goOn 0 3, goOn 0 3,
    goOn 0 3, goOn 1 4, .store 2 [2], goOn 2 5, goOn 2 5, goOn 2 5, goOn 2 5]

theorem queue_is_list_when_careful :
    Run.Along (threadStep smallPool) (Undisturbed smallPool) (.initial smallPool 0 ⟨0, 0⟩)
        carefulSchedule ∧
      (Run.exec (threadStep smallPool) (.initial smallPool 0 ⟨0, 0⟩) carefulSchedule).isSome ∧
      Run.Always (threadStep smallPool) (QueueIsList smallPool) (.initial smallPool 0 ⟨0, 0⟩)
        carefulSchedule :=
  ⟨by decide +kernel, by decide +kernel,
    (queue_is_list_of_undisturbed smallPool 0 ⟨0, 0⟩ carefulSchedule (by decide +kernel)).1⟩

/-- A lookup finds the item that thread 0 inserts, between its node and its place in the queue. -/
def lookupBetween : List (Action smallPool.threads) :=
  [.pull 0 [1], goOn 0 1, .lookup 1 [1], goOn 1 2, goOn 1 2, goOn 0 3]

/-- The item is unlinked while it is not queued, and ends up behind itself. -/
theorem lookup_moves_unqueued_item :
    ¬ Run.Along (threadStep smallPool) (UnlinksQueued smallPool) (.initial smallPool 0 ⟨0, 0⟩)
        lookupBetween ∧
      (Run.exec (threadStep smallPool) (.initial smallPool 0 ⟨0, 0⟩) lookupBetween).map
        (fun w => (w.state.size, w.state.queue.next 0, decide (QueueIsList smallPool w)))
        = some (1, some 0, false) := by
  decide +kernel

end MemExchange.Shadow
