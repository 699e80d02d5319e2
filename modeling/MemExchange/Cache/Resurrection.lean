import MemExchange.Cache.Tiers

/-!
# No way back for a key that is gone

A key that was deleted, flushed or has expired must not be read again before it is stored again.
For local items a lookup unlinks what is dead. But a remote item is answered without any test, and
DELETE does not reach it; a second flush that is delayed or dated in the past takes the first one
back; and an asynchronous bump gives a flushed item a new access time.
-/
namespace MemExchange.Cache

variable {cfg : Settings} {c c' : State} {record : Record}

/-- A get that answers an item answers one that is not gone. -/
def NoResurrection (cfg : Settings) (w : World) (op : Op) : Prop :=
  match w.cache.readBy cfg op with
  | none => True
  | some (key, _) => (w.record key).any (fun st => !st.gone) = true

variable {it : Item} {exptime : Nat} {key : Bytes} {change : Item → Item} {op : Op} (w : World)

instance (op : Op) : Decidable (NoResurrection cfg w op) := by
  delta NoResurrection
  rcases w.cache.readBy cfg op with _ | ⟨key, it⟩ <;> infer_instance

/-- No item the remote index answers is expired or flushed. -/
def RemoteAlive (cfg : Settings) (c : State) : Prop :=
  ∀ bucket ∈ c.remoteAssoc.buckets, ∀ r ∈ bucket,
    c.remoteAssocFind cfg r.key = some r → isDead c (c.remoteMem r.slot) = false

instance : Decidable (RemoteAlive cfg c) := by unfold RemoteAlive; infer_instance

/-- A flush that is delayed or dated comes only while none is recorded, and only items that
are not flushed are bumped. -/
def FlushKept (cfg : Settings) (c : State) : Op → Prop
  | .flush exptime => exptime = 0 ∨ c.oldestLive = 0
  | .bump key => (c.assocFind cfg key).all (fun it => !itemIsFlushed c it) = true
  | _ => True

instance (op : Op) : Decidable (FlushKept cfg c op) := by
  rcases op with _ | _ <;> delta FlushKept <;> infer_instance

def StaysGone (cfg : Settings) (w : World) (op : Op) : Prop :=
  InTurn cfg w op ∧ RemoteAlive cfg w.cache ∧ FlushKept cfg w.cache op

instance (op : Op) : Decidable (StaysGone cfg w op) := by
  unfold StaysGone; infer_instance

/-! ### Death is for good -/

theorem itemIsFlushed_iff :
    itemIsFlushed c it = true ↔ c.oldestLive ≠ 0 ∧ c.oldestLive ≤ c.currentTime ∧
      (it.time ≤ c.oldestLive ∨ (c.oldestCas ≠ 0 ∧ it.cas ≠ 0 ∧ it.cas < c.oldestCas)) := by
  unfold itemIsFlushed
  split
  · constructor
    · intro flushed
      cases flushed
    · rintro ⟨set, reached, -⟩
      omega
  · simp only [decide_eq_true_eq]
    constructor
    · intro old
      exact ⟨by omega, by omega, old⟩
    · exact fun h => h.2.2

theorem isExpired_iff : isExpired c exptime = true ↔ exptime ≠ 0 ∧ exptime ≤ c.currentTime := by
  simp [isExpired]

theorem isDead_tick (seconds : Nat) (dead : isDead c it = true) :
    isDead { c with currentTime := c.currentTime + seconds } it = true := by
  rw [isDead, Bool.or_eq_true, itemIsFlushed_iff, isExpired_iff] at dead ⊢
  dsimp only
  rcases dead with ⟨set, reached, old⟩ | ⟨set, reached⟩
  · exact .inl ⟨set, by omega, old⟩
  · exact .inr ⟨set, by omega⟩

/-- The clock runs, and with CAS on every local item has a number given out before. -/
structure Numbered (cfg : Settings) (c : State) : Prop where
  clock : 2 ≤ c.currentTime
  cas : ∀ key it, c.assocFind cfg key = some it → cfg.useCas = true →
    it.cas ≠ 0 ∧ it.cas ≤ c.casId

theorem processBinFlush_now : (processBinFlush cfg c 0).2 =
    if cfg.flushEnabled then
      if cfg.useCas then
        { c with oldestLive := c.currentTime - 1, oldestCas := c.casId + 1, casId := c.casId + 1 }
      else { c with oldestLive := c.currentTime }
    else c := by
  unfold processBinFlush
  by_cases enabled : cfg.flushEnabled = true
  · by_cases numbers : cfg.useCas = true <;> simp [enabled, numbers]
  · simp [enabled]

/-- A flush brings no local item back: one that takes effect now covers all that an earlier
one covered, and without an earlier one there is nothing to bring back. -/
theorem isDead_flush (numbered : Numbered cfg c) (kept : exptime = 0 ∨ c.oldestLive = 0)
    (found : c.assocFind cfg key = some it) (dead : isDead c it = true) :
    isDead (processBinFlush cfg c exptime).2 it = true := by
  have clock := numbered.clock
  rw [isDead, Bool.or_eq_true, isExpired_iff] at dead ⊢
  rcases dead with flushed | expired
  · left
    rw [itemIsFlushed_iff] at flushed
    obtain ⟨set, reached, old⟩ := flushed
    have now : exptime = 0 := kept.resolve_right set
    rw [now, processBinFlush_now, itemIsFlushed_iff]
    split
    · split
      · next numbers =>
        -- the access time may be the current second, but the number is an earlier one
        have cas := numbered.cas key it found numbers
        exact ⟨by dsimp only; omega, Nat.sub_le _ _, .inr ⟨Nat.succ_ne_zero _, cas.1, by
          dsimp only; omega⟩⟩
      · exact ⟨by dsimp only; omega, Nat.le_refl _, old.imp_left fun before => by
          dsimp only; omega⟩
    · exact ⟨set, reached, old⟩
  · right
    obtain ⟨casId, oldestLive, oldestCas, -, left⟩ := processBinFlush_fields cfg c exptime
    rwa [left]

/-! ### Keys that are gone -/

/-- A key that is gone is not in the remote index, and its local item is dead. -/
def Hidden (cfg : Settings) (c : State) (record : Record) : Prop :=
  ∀ key st, record key = some st → st.gone = true →
    c.remoteAssocFind cfg key = none ∧
      ∀ it, c.assocFind cfg key = some it → isDead c it = true

/-- The form of it that holds right after a step, before the next one is known to find the
remote index alive. -/
def Buried (cfg : Settings) (c : State) (record : Record) : Prop :=
  ∀ key st, record key = some st → st.gone = true →
    (∀ r, c.remoteAssocFind cfg key = some r → isDead c (c.remoteMem r.slot) = true) ∧
      ∀ it, c.assocFind cfg key = some it → isDead c it = true

theorem hidden_of_buried (buried : Buried cfg c record) (alive : RemoteAlive cfg c) :
    Hidden cfg c record := by
  intro key st entry gone
  obtain ⟨far, near⟩ := buried key st entry gone
  refine ⟨?_, near⟩
  cases found : c.remoteAssocFind cfg key with
  | none => rfl
  | some r =>
    obtain ⟨bucket, member, inside⟩ := Chain.mem_of_find found
    have itself : c.remoteAssocFind cfg r.key = some r := by
      rwa [Chain.find_key found]
    have living := alive bucket member r inside itself
    simp [far r found] at living

theorem buried_marked (tiers : Tiers cfg c record) (hidden : Hidden cfg c record) :
    Buried cfg c fun key => (record key).map (Stored.mark cfg c key) := by
  intro key st' entry' gone'
  obtain ⟨st, entry, rfl⟩ := Option.map_eq_some_iff.mp entry'
  simp only [Stored.mark, Bool.or_eq_true] at gone'
  constructor
  · intro r found
    obtain ⟨st₂, entry₂, -, expiry, place⟩ := tiers.far key r found
    rw [entry] at entry₂
    cases entry₂
    rcases gone' with (gone | expired) | flushed
    · simp [(hidden key st entry gone).1] at found
    · rw [expiry] at expired
      simp [isDead, expired]
    · simp only [Stored.flushed, place] at flushed
      simp [isDead, flushed]
  · intro it found
    obtain ⟨st₂, entry₂, -, expiry, place⟩ := tiers.near key it found
    rw [entry] at entry₂
    cases entry₂
    rcases gone' with (gone | expired) | flushed
    · exact (hidden key st entry gone).2 it found
    · rw [expiry] at expired
      simp [isDead, expired]
    · simp only [Stored.flushed, place, found, Option.any_some] at flushed
      simp [isDead, flushed]

section

variable (hidden : Hidden cfg c record)
include hidden

theorem Hidden.trimmed (trim : Trimmed cfg c c') : Hidden cfg c' record := by
  intro key st entry gone
  obtain ⟨far, near⟩ := hidden key st entry gone
  refine ⟨?_, fun it' found' => ?_⟩
  · rwa [trim.remoteAssocFind]
  · obtain ⟨it, found, kept⟩ := trim.found key it' found'
    have dead := near it found
    rcases kept with rfl | ⟨alive, -⟩
    · rwa [trim.isDead]
    · simp [dead] at alive

theorem Hidden.stored {st : Stored} (fresh : st.gone = false)
    (remote : ∀ key', key' ≠ key → c'.remoteAssocFind cfg key' = c.remoteAssocFind cfg key')
    (near : ∀ key', key' ≠ key → c'.assocFind cfg key' = c.assocFind cfg key')
    (judged : ∀ it, isDead c' it = isDead c it) :
    Hidden cfg c' (Function.update record key (some st)) := by
  intro key' st' entry gone
  by_cases same : key' = key
  · subst same
    rw [Function.update_self] at entry
    cases entry
    simp [fresh] at gone
  · rw [Function.update_of_ne same] at entry
    obtain ⟨missing, dead⟩ := hidden key' st' entry gone
    refine ⟨(remote key' same).trans missing, fun it found => ?_⟩
    rw [judged]
    exact dead it ((near key' same).symm.trans found)

theorem hidden_store (single : c.Single cfg) {req : Request} {choice : Choice} {answer : Answer}
    (applied : c.apply cfg (.store req choice) = some (answer, c')) :
    Hidden cfg c' (record.note cfg c (.store req choice) answer) := by
  have move := processBinUpdate_move single req choice
  simp only [State.apply] at applied
  generalize processBinUpdate cfg c req choice = got at move applied
  cases move with
  | refused status c₁ failed trim =>
    cases status with
    | none =>
      cases applied
      exact hidden.trimmed trim
    | some status =>
      cases applied
      rw [note_store_failed req choice fun same => failed (by injection same with same; rw [same])]
      exact hidden.trimmed trim
  | near c₁ newIt served trim absent key value expiry taken =>
    cases applied
    refine (hidden.trimmed trim).stored rfl (fun _ _ => rfl) (fun key' other => ?_)
      (isDead_congr rfl rfl rfl)
    rw [assocFind_link, if_neg (by rw [key]; exact Ne.symm other)]
  | far c₁ r it served trim key value expiry taken =>
    cases applied
    refine (hidden.trimmed trim).stored rfl (fun key' other => ?_) (fun _ _ => rfl)
      (isDead_congr rfl rfl rfl)
    rw [remoteAssocFind_store, if_neg (by rw [key]; exact Ne.symm other)]

theorem Hidden.modified (key : Bytes) (keeps : ∀ it, (change it).key = it.key)
    (dead : ∀ it, c.assocFind cfg key = some it → isDead c it = true →
      isDead c (change it) = true) : Hidden cfg (c.modify cfg key change) record := by
  intro key' st entry gone
  obtain ⟨missing, near⟩ := hidden key' st entry gone
  refine ⟨missing, fun it' found' => ?_⟩
  show isDead c it' = true
  rw [assocFind_modify change key key' keeps] at found'
  split at found'
  · next same =>
    obtain ⟨it, found, rfl⟩ := Option.map_eq_some_iff.mp found'
    exact dead it found (near it (same ▸ found))
  · exact near it' found'

theorem hidden_get (single : c.Single cfg) (key : Bytes) (touch : Option Nat)
    (bumped completes : Bool) :
    let (it, c') := processBinGetOrTouch cfg c key touch bumped completes
    Hidden cfg c' (record.note cfg c (.get key touch bumped completes) (.item it)) := by
  have move := processBinGetOrTouch_move single key touch bumped completes
  generalize processBinGetOrTouch cfg c key touch bumped completes = got at move
  cases move with
  | miss c₁ trim missed => cases touch <;> exact hidden.trimmed trim
  | near c₁ it answer trim live value quiet =>
    subst quiet
    exact hidden.trimmed trim
  | touched c₁ it answer exptime trim live indexed value asked =>
    subst asked
    simp only [Record.note, live, Option.isSome_some, if_true]
    -- the key touched is alive, so it is not one of those that are gone
    obtain ⟨found, alive⟩ := lookup_eq_some_iff.mp live
    intro key' st' entry gone
    by_cases same : key' = key
    · subst same
      rw [Function.update_self] at entry
      obtain ⟨st, was, rfl⟩ := Option.map_eq_some_iff.mp entry
      have before : st.gone = true := by
        split at gone <;> exact gone
      simp [(hidden key' st was before).2 it found] at alive
    · rw [Function.update_of_ne same] at entry
      obtain ⟨missing, dead⟩ := hidden.trimmed trim key' st' entry gone
      refine ⟨missing, fun it' found' => ?_⟩
      rw [assocFind_modify (fun it => { it with exptime := realtime cfg c.currentTime exptime })
        key key' fun _ => rfl, if_neg same] at found'
      exact dead it' found'
  | far c₁ r trim missed found =>
    cases touch with
    | none => exact hidden.trimmed trim
    | some exptime =>
      simp only [Record.note, missed, Option.isSome_none, Bool.false_eq_true, if_false]
      exact hidden.trimmed trim

theorem hidden_delete (tiers : Tiers cfg c record) (key : Bytes) (cas : Nat) :
    let (status, c') := processBinDelete cfg c key cas
    Hidden cfg c' (record.note cfg c (.delete key cas) (.status status)) := by
  obtain ⟨trim, deleted⟩ := processBinDelete_move tiers.single key cas
  generalize processBinDelete cfg c key cas = got at trim deleted
  obtain ⟨status, c'⟩ := got
  have kept := hidden.trimmed trim
  cases status with
  | success =>
    obtain ⟨indexed, unlinked⟩ := deleted rfl
    intro key' st' entry gone
    simp only [Record.note] at entry
    by_cases same : key' = key
    · subst same
      refine ⟨?_, fun it found => ?_⟩
      · rw [trim.remoteAssocFind]
        exact (tiers.apart key').resolve_left indexed
      · have unlinked : c'.assocFind cfg key' = none := unlinked
        simp [unlinked] at found
    · rw [Function.update_of_ne same] at entry
      exact kept key' st' entry gone
  | keyEnoent | keyEexists | e2big | notStored | enomem | authError => exact kept

theorem hidden_apply (tiers : Tiers cfg c record) (numbered : Numbered cfg c)
    (kept : FlushKept cfg c op) {answer : Answer} (applied : c.apply cfg op = some (answer, c')) :
    Hidden cfg c' (record.note cfg c op answer) := by
  cases op with
  | store req choice => exact hidden_store hidden tiers.single applied
  | get key touch bumped completes =>
    cases applied
    exact hidden_get hidden tiers.single key touch bumped completes
  | delete key cas =>
    cases applied
    exact hidden_delete hidden tiers key cas
  | flush exptime =>
    cases applied
    obtain ⟨casId, oldestLive, oldestCas, -, left⟩ := processBinFlush_fields cfg c exptime
    intro key st entry gone
    obtain ⟨missing, near⟩ := hidden key st entry gone
    refine ⟨(congrArg (State.remoteAssocFind cfg · key) left).trans missing, fun it found => ?_⟩
    have found := (congrArg (State.assocFind cfg · key) left).symm.trans found
    exact isDead_flush numbered kept found (near it found)
  | tick seconds =>
    cases applied
    intro key st entry gone
    obtain ⟨missing, near⟩ := hidden key st entry gone
    exact ⟨missing, fun it found => isDead_tick seconds (near it found)⟩
  | evict key =>
    cases applied
    exact hidden.trimmed (lruPullTail_trimmed tiers.single none [key])
  | bump key =>
    cases applied
    refine hidden.modified key (fun it => (doItemUpdate_fields cfg c.currentTime it).1)
      fun it found dead => ?_
    -- a bump may lift an item over a flush, but not over its expiry time
    have unflushed : itemIsFlushed c it = false := by simpa [FlushKept, found] using kept
    have expired : isExpired c it.exptime = true := by simpa [isDead, unflushed] using dead
    have same := (doItemUpdate_fields cfg c.currentTime it).2.2.2.1
    rw [isDead, same, expired, Bool.or_true]
  | shuffle key lru active =>
    cases applied
    exact hidden.modified key (fun _ => rfl) fun _ _ dead => dead
  | attach id pageId base =>
    obtain ⟨-, ⟨⟩⟩ := Option.ite_none_right_eq_some.mp applied
    exact hidden

end

/-! ### CAS numbers -/

section

variable (numbered : Numbered cfg c)
include numbered

theorem Numbered.trimmed (trim : Trimmed cfg c c') : Numbered cfg c' where
  clock := by
    rw [trim.clock]
    exact numbered.clock
  cas := fun key it' found' numbers => by
    obtain ⟨it, found, kept⟩ := trim.found key it' found'
    have before := numbered.cas key it found numbers
    rw [trim.casId]
    rcases kept with rfl | ⟨-, -, -, same⟩
    · exact before
    · rwa [same]

theorem Numbered.modified (key : Bytes)
    (keeps : ∀ it, (change it).key = it.key ∧ (change it).cas = it.cas) :
    Numbered cfg (c.modify cfg key change) where
  clock := numbered.clock
  cas := fun key' it' found' numbers => by
    rw [assocFind_modify change key key' fun it => (keeps it).1] at found'
    split at found'
    · obtain ⟨it, found, rfl⟩ := Option.map_eq_some_iff.mp found'
      rw [(keeps it).2]
      exact numbered.cas key it found numbers
    · exact numbered.cas key' it' found' numbers

theorem Numbered.retimed {now casId : Nat} (later : c.currentTime ≤ now) (more : c.casId ≤ casId)
    (oldestLive oldestCas : Nat) :
    Numbered cfg { c with currentTime := now, casId, oldestLive, oldestCas } where
  clock := numbered.clock.trans later
  cas := fun key it found numbers => by
    have before := numbered.cas key it found numbers
    exact ⟨before.1, before.2.trans more⟩

theorem Numbered.linked (it : Item) : Numbered cfg (doItemLink cfg c it) where
  clock := numbered.clock
  cas := fun key it' found numbers => by
    have next : (doItemLink cfg c it).casId = c.casId + 1 := if_pos numbers
    rw [assocFind_link] at found
    rw [next]
    split at found
    · cases found
      simp
    · have before := numbered.cas key it' found numbers
      exact ⟨before.1, before.2.trans (Nat.le_succ _)⟩

theorem numbered_get (single : c.Single cfg) (key : Bytes) (touch : Option Nat)
    (bumped completes : Bool) :
    Numbered cfg (processBinGetOrTouch cfg c key touch bumped completes).2 := by
  have move := processBinGetOrTouch_move single key touch bumped completes
  generalize processBinGetOrTouch cfg c key touch bumped completes = got at move
  cases move with
  | miss c₁ trim missed | near c₁ it answer trim live value quiet | far c₁ r trim missed found =>
    exact numbered.trimmed trim
  | touched c₁ it answer exptime trim live indexed value asked =>
    exact (numbered.trimmed trim).modified key fun _ => ⟨rfl, rfl⟩

theorem numbered_apply (single : c.Single cfg) {answer : Answer}
    (applied : c.apply cfg op = some (answer, c')) : Numbered cfg c' := by
  cases op with
  | store req choice =>
    have move := processBinUpdate_move single req choice
    simp only [State.apply] at applied
    generalize processBinUpdate cfg c req choice = got at move applied
    cases move with
    | refused status c₁ failed trim =>
      cases status <;> (cases applied; exact numbered.trimmed trim)
    | near c₁ newIt served trim absent key value expiry taken =>
      cases applied
      exact (numbered.trimmed trim).linked newIt
    | far c₁ r it served trim key value expiry taken =>
      cases applied
      exact { numbered.trimmed trim with }
  | get key touch bumped completes =>
    cases applied
    exact numbered_get numbered single key touch bumped completes
  | delete key cas =>
    cases applied
    exact numbered.trimmed (processBinDelete_move single key cas).1
  | flush exptime =>
    cases applied
    obtain ⟨casId, oldestLive, oldestCas, more, left⟩ := processBinFlush_fields cfg c exptime
    exact (congrArg (Numbered cfg) left).mpr (numbered.retimed (Nat.le_refl _) more _ _)
  | tick seconds =>
    cases applied
    exact numbered.retimed (Nat.le_add_right _ _) (Nat.le_refl _) _ _
  | evict key =>
    cases applied
    exact numbered.trimmed (lruPullTail_trimmed single none [key])
  | bump key =>
    cases applied
    refine numbered.modified key fun it => ?_
    have same := doItemUpdate_fields cfg c.currentTime it
    exact ⟨same.1, same.2.2.2.2⟩
  | shuffle key lru active =>
    cases applied
    exact numbered.modified key fun _ => ⟨rfl, rfl⟩
  | attach id pageId base =>
    obtain ⟨-, ⟨⟩⟩ := Option.ite_none_right_eq_some.mp applied
    exact { numbered with }

end

/-! ### Along a run -/

structure Laid (cfg : Settings) (w : World) : Prop where
  tiers : Tiers cfg w.cache w.record
  numbered : Numbered cfg w.cache
  buried : Buried cfg w.cache w.record

theorem laid_step {w w' : World} (laid : Laid cfg w) (stays : StaysGone cfg w op)
    (stepped : step cfg w op = some w') : Laid cfg w' := by
  obtain ⟨turn, alive, kept⟩ := stays
  obtain ⟨answer, c', applied, rfl⟩ := step_eq_some stepped
  have hidden := hidden_of_buried laid.buried alive
  have tiers := tiers_apply laid.tiers turn applied
  exact
    { tiers := tiers.marked c'
      numbered := numbered_apply laid.numbered laid.tiers.single applied
      buried := buried_marked tiers (hidden_apply hidden laid.tiers laid.numbered kept applied) }

theorem laid_initial (sizes : List (Nat × Nat)) (buckets remoteBuckets : Nat) :
    Laid cfg (World.initial sizes buckets remoteBuckets) where
  tiers := Tiers.initial sizes buckets remoteBuckets
  numbered := ⟨Nat.le_refl _, fun key it found => by
    rw [show (World.initial sizes buckets remoteBuckets).cache.assocFind cfg key = none from
      Chain.find_empty _ key] at found
    cases found⟩
  buried := fun _ _ entry => by cases entry

theorem noResurrection_of_laid {w : World} (laid : Laid cfg w) (stays : StaysGone cfg w op) :
    NoResurrection cfg w op := by
  have hidden := hidden_of_buried laid.buried stays.2.1
  unfold NoResurrection
  split
  · trivial
  · next key answer read =>
    rcases readBy_cases laid.tiers.single read with ⟨it, live, -⟩ | ⟨r, found, -⟩
    · obtain ⟨found, alive⟩ := lookup_eq_some_iff.mp live
      obtain ⟨st, entry, -⟩ := laid.tiers.near key it found
      cases gone : st.gone with
      | false => simp [entry, gone]
      | true =>
        simp [(hidden key st entry gone).2 it found] at alive
    · obtain ⟨st, entry, -⟩ := laid.tiers.far key r found
      cases gone : st.gone with
      | false => simp [entry, gone]
      | true =>
        simp [(hidden key st entry gone).1] at found

/-- **A key that is gone stays gone** while stores come in turn, nothing in the remote index
is expired or flushed, a flush with a time comes only while no flush is recorded, and only
items that are not flushed are bumped. For any settings, size classes and hash table sizes, in
every run whose steps meet this, no get or touch answers a key that was deleted, flushed or
has expired and was not stored since. -/
theorem no_resurrection_of_stays_gone (cfg : Settings) (sizes : List (Nat × Nat))
    (buckets remoteBuckets : Nat) (run : List Op)
    (stays : Run.Along (step cfg) (StaysGone cfg) (World.initial sizes buckets remoteBuckets) run) :
    Run.Along (step cfg) (NoResurrection cfg) (World.initial sizes buckets remoteBuckets) run :=
  Run.along_of_invariant (fun _ _ _ => laid_step) (fun _ _ => noResurrection_of_laid)
    (laid_initial sizes buckets remoteBuckets) stays

/-- Of two local keys one is deleted and the other expires; a remote one is read to the end. -/
theorem no_resurrection_when_apart :
    Run.Along (step plainSettings) (NoResurrection plainSettings) freshWorld
      [remotePage, setValue 1 10 true 0, setValue 2 20 false 5, setValue 3 30 false 0,
        .delete [1] 0, getValue 1, getValue 2, .tick 6, getValue 2, getValue 3] :=
  no_resurrection_of_stays_gone plainSettings _ _ _ _ (by decide +kernel)

/-- An expired key comes back: it was stored in a remote slot, and nothing looks at the expiry
time of what is read from there. -/
theorem expired_key_read :
    ¬ Run.Along (step plainSettings) (NoResurrection plainSettings) freshWorld
      [remotePage, setValue 1 10 false 5, .tick 6, getValue 1] := by
  decide +kernel

end MemExchange.Cache
