import MemExchange.Cache.Moves

/-!
# One tier per key

A local lookup comes first, and a store into one tier does nothing to the other. While each store
is served by a tier the other one does not compete with, a key is in at most one index, and what
is found there is what was stored last.
-/
namespace MemExchange.Cache

open Function (update_of_ne update_self update)

variable {cfg : Settings} {c c' : State} {record : Record}

/-- A store comes in turn: an item in a local chunk is stored while the remote index does not
hold its key, an item for a remote slot while the local index does not. -/
def InTurn (cfg : Settings) (w : World) : Op → Prop
  | .store req choice =>
    match w.cache.servedBy cfg req choice with
    | none => True
    | some none => w.cache.remoteAssocFind cfg req.key = none
    | some (some _) => w.cache.assocFind cfg req.key = none
  | _ => True

instance (w : World) (op : Op) : Decidable (InTurn cfg w op) := by
  cases op <;> unfold InTurn <;> dsimp only <;> (repeat' split) <;> infer_instance

/-- The record's entry describes an item, at the place it was put. -/
def Stored.Matches (st : Stored) (it : Item) (slot : Option Slot) : Prop :=
  st.value = it.value ∧ st.exptime = it.exptime ∧ st.slot = slot

structure Tiers (cfg : Settings) (c : State) (record : Record) : Prop where
  single : c.Single cfg
  apart : ∀ key, c.assocFind cfg key = none ∨ c.remoteAssocFind cfg key = none
  near : ∀ key it, c.assocFind cfg key = some it →
    ∃ st, record key = some st ∧ st.Matches it none
  far : ∀ key r, c.remoteAssocFind cfg key = some r →
    ∃ st, record key = some st ∧ st.Matches (c.remoteMem r.slot) (some r.slot)
  spare : ∀ l, c.spare l ≤ 1
  taken : ∀ key r, c.remoteAssocFind cfg key = some r → c.spare r.slot = 0

namespace Tiers

variable {record' : Record} {change : Item → Item} {c₁ : State} {it : Item}

section

variable (tiers : Tiers cfg c record)
include tiers

theorem relabel
    (same : ∀ key st, record key = some st → ∃ st', record' key = some st' ∧
      st'.value = st.value ∧ st'.exptime = st.exptime ∧ st'.slot = st.slot) : Tiers cfg c record' :=
  { tiers with
    near := fun key it found => by
      obtain ⟨st, here, value, expiry, place⟩ := tiers.near key it found
      obtain ⟨st', now, value', expiry', place'⟩ := same key st here
      exact ⟨st', now, value'.trans value, expiry'.trans expiry, place'.trans place⟩
    far := fun key r found => by
      obtain ⟨st, here, value, expiry, place⟩ := tiers.far key r found
      obtain ⟨st', now, value', expiry', place'⟩ := same key st here
      exact ⟨st', now, value'.trans value, expiry'.trans expiry, place'.trans place⟩ }

theorem marked (c' : State) : Tiers cfg c fun key => (record key).map (Stored.mark cfg c' key) :=
  tiers.relabel fun key st here => ⟨st.mark cfg c' key, by simp [here], rfl, rfl, rfl⟩

theorem trimmed (trim : Trimmed cfg c c') : Tiers cfg c' record where
  single := trim.single tiers.single
  apart := fun key => by
    rw [trim.remoteAssocFind]
    exact (tiers.apart key).imp trim.missing id
  near := fun key it' found' => by
    obtain ⟨it, found, kept⟩ := trim.found key it' found'
    obtain ⟨st, here, value, expiry, place⟩ := tiers.near key it found
    rcases kept with rfl | ⟨-, value', expiry', -⟩
    · exact ⟨st, here, value, expiry, place⟩
    · exact ⟨st, here, value.trans value'.symm, expiry.trans expiry'.symm, place⟩
  far := fun key r found => by
    rw [trim.remoteAssocFind] at found
    rw [trim.mem]
    exact tiers.far key r found
  spare := fun l => (trim.spare l).trans (tiers.spare l)
  taken := fun key r found => by
    rw [trim.remoteAssocFind] at found
    have unused := tiers.taken key r found
    have fewer := trim.spare r.slot
    omega

theorem retimed (now casId oldestLive oldestCas : Nat) :
    Tiers cfg { c with currentTime := now, casId, oldestLive, oldestCas } record :=
  { tiers with }

theorem modified (key : Bytes) (keeps : ∀ it, (change it).key = it.key ∧ (change it).rIt = it.rIt)
    (others : ∀ key', key' ≠ key → record' key' = record key')
    (still : c.assocFind cfg key = none → record' key = record key)
    (here : ∀ it st, record key = some st → st.Matches it none →
      ∃ st', record' key = some st' ∧ st'.Matches (change it) none) :
    Tiers cfg (c.modify cfg key change) record' where
  single := fun key' => by
    refine Nat.le_trans (Nat.le_of_eq ?_) (tiers.single key')
    exact Chain.copies_update c.assoc key key' fun it => (keeps it).1
  apart := fun key' => by
    rw [assocFind_modify change key key' fun it => (keeps it).1]
    rcases tiers.apart key' with missing | missing
    · left
      split
      · next same => rw [← same, missing]; rfl
      · exact missing
    · exact .inr missing
  near := fun key' it' found' => by
    rw [assocFind_modify change key key' fun it => (keeps it).1] at found'
    split at found'
    · next same =>
      obtain ⟨it, found, rfl⟩ := Option.map_eq_some_iff.mp found'
      obtain ⟨st, entry, fields⟩ := tiers.near key it found
      exact same ▸ here it st entry fields
    · next other =>
      rw [others key' other]
      exact tiers.near key' it' found'
  far := fun key' r found => by
    have entry : record' key' = record key' := by
      by_cases same : key' = key
      · have missing := (tiers.apart key').resolve_right (by
          rw [show c.remoteAssocFind cfg key' = some r from found]
          exact Option.some_ne_none r)
        subst same
        exact still missing
      · exact others key' same
    rw [entry]
    exact tiers.far key' r found
  spare := fun l => (spare_modify c l key fun it => (keeps it).2).le.trans (tiers.spare l)
  taken := fun key' r found => by
    rw [spare_modify c r.slot key fun it => (keeps it).2]
    exact tiers.taken key' r found

theorem remarked (key : Bytes) (keeps : ∀ it, (change it).key = it.key ∧ (change it).rIt = it.rIt ∧
      (change it).value = it.value ∧ (change it).exptime = it.exptime) :
    Tiers cfg (c.modify cfg key change) record := by
  refine tiers.modified key (fun it => ⟨(keeps it).1, (keeps it).2.1⟩) (fun _ _ => rfl)
    (fun _ => rfl) fun it st entry fields => ⟨st, entry, ?_⟩
  obtain ⟨-, -, value, expiry⟩ := keeps it
  exact ⟨fields.1.trans value.symm, fields.2.1.trans expiry.symm, fields.2.2⟩

theorem touched (key : Bytes) (exptime : Nat) (indexed : c.assocFind cfg key ≠ none) :
    Tiers cfg (c.modify cfg key fun it => { it with exptime })
      (update record key ((record key).map fun st =>
        if st.slot = none then { st with exptime } else st)) := by
  refine tiers.modified key (fun _ => ⟨rfl, rfl⟩)
    (fun key' other => update_of_ne other _ _)
    (fun missing => absurd missing indexed) fun it st entry fields => ?_
  refine ⟨{ st with exptime }, ?_, fields.1, rfl, fields.2.2⟩
  simp [entry, fields.2.2]

theorem linked (st : Stored) (trim : Trimmed cfg c c₁) (absent : c₁.assocFind cfg it.key = none)
    (unused : c.remoteAssocFind cfg it.key = none) (matched : st.Matches it none)
    (taken : ∀ l, c₁.spare l + held l it.rIt ≤ c.spare l) :
    Tiers cfg (doItemLink cfg c₁ it) (update record it.key (some st)) := by
  have tiers₁ := tiers.trimmed trim
  have unused₁ : c₁.remoteAssocFind cfg it.key = none := by
    rwa [trim.remoteAssocFind]
  have counted : ∀ l, (doItemLink cfg c₁ it).spare l = c₁.spare l + held l it.rIt :=
    fun l => spare_assocInsert c₁ l _
  refine
    { single := fun key => ?_, apart := fun key => ?_, near := fun key it' found => ?_
      far := fun key r found => ?_, spare := fun l => ?_, taken := fun key r found => ?_ }
  · have before := tiers₁.single key
    have empty := Chain.find_eq_none_iff.mp absent
    rw [copies_link]
    split
    · next same => rw [← same, empty]
    · exact before
  · by_cases same : it.key = key
    · exact .inr (same ▸ unused₁)
    · rw [assocFind_link, if_neg same]
      exact tiers₁.apart key
  · rw [assocFind_link] at found
    split at found
    · next same =>
      cases found
      exact ⟨st, by rw [← same, update_self], matched⟩
    · next other =>
      obtain ⟨st', here, fields⟩ := tiers₁.near key it' found
      exact ⟨st', by rw [update_of_ne (Ne.symm other)]; exact here, fields⟩
  · have found : c₁.remoteAssocFind cfg key = some r := found
    have other : key ≠ it.key := fun same => by
      simp [same, unused₁] at found
    obtain ⟨st', here, fields⟩ := tiers₁.far key r found
    exact ⟨st', by rw [update_of_ne other]; exact here, fields⟩
  · rw [counted]
    exact (taken l).trans (tiers.spare l)
  · have found : c.remoteAssocFind cfg key = some r := by
      rwa [← trim.remoteAssocFind]
    have zero := tiers.taken key r found
    have moved := taken r.slot
    rw [counted]
    omega

theorem written {r : RemoteItem} (st : Stored) (trim : Trimmed cfg c c₁)
    (absent : c.assocFind cfg it.key = none) (matched : st.Matches it (some r.slot))
    (taken : ∀ l, c₁.spare l + held l (some r) ≤ c.spare l) :
    Tiers cfg (storeRemote cfg c₁ r it) (update record it.key (some st)) := by
  have tiers₁ := tiers.trimmed trim
  have absent₁ := trim.missing absent
  have mine : c₁.spare r.slot + 1 ≤ c.spare r.slot := by
    have moved := taken r.slot
    rwa [held, Option.any_some, decide_eq_true rfl, if_pos rfl] at moved
  have used : c₁.spare r.slot = 0 := by
    have bound := tiers.spare r.slot
    omega
  refine
    { single := tiers₁.single, apart := fun key => ?_, near := fun key it' found => ?_
      far := fun key r' found => ?_, spare := tiers₁.spare, taken := fun key r' found => ?_ }
  · rw [remoteAssocFind_store]
    by_cases same : it.key = key
    · exact .inl (same ▸ absent₁)
    · rw [if_neg same]
      exact tiers₁.apart key
  · have found : c₁.assocFind cfg key = some it' := found
    have other : key ≠ it.key := fun same => by
      simp [same, absent₁] at found
    obtain ⟨st', here, fields⟩ := tiers₁.near key it' found
    exact ⟨st', by rw [update_of_ne other]; exact here, fields⟩
  · rw [remoteAssocFind_store] at found
    split at found
    · next same =>
      cases found
      refine ⟨st, by rw [← same, update_self], ?_⟩
      have now : (storeRemote cfg c₁ r it).remoteMem r.slot = it := update_self ..
      rwa [now]
    · next other =>
      -- an indexed slot is on no free list, so it is not the one written to
      have apart : r'.slot ≠ r.slot := fun same => by
        have found : c.remoteAssocFind cfg key = some r' := by
          rwa [← trim.remoteAssocFind]
        have zero := tiers.taken key r' found
        rw [same] at zero
        omega
      obtain ⟨st', here, fields⟩ := tiers₁.far key r' found
      refine ⟨st', by rw [update_of_ne (Ne.symm other)]; exact here, ?_⟩
      have kept : (storeRemote cfg c₁ r it).remoteMem r'.slot = c₁.remoteMem r'.slot :=
        update_of_ne apart ..
      rwa [kept]
  · rw [remoteAssocFind_store] at found
    split at found
    · cases found
      exact used
    · exact tiers₁.taken key r' found

theorem attached {id pageId base : Nat} (fresh : c.canAttach id pageId base) :
    Tiers cfg (splitRemotePage c id pageId base) record := by
  unfold State.canAttach at fresh
  cases here : c.classes[id]? with
  | none => simp [here] at fresh
  | some p =>
    simp only [here] at fresh
    obtain ⟨nodup, unknown⟩ := fresh
    have counted : ∀ l, (splitRemotePage c id pageId base).spare l
        = c.spare l + (p.pageSlots id pageId base).count l := by
      intro l
      have moved := spare_classes c l id p here fun p =>
        { p with
          rslots := ((p.pageSlots id pageId base).map fun slot => { slot }).reverse ++ p.rslots }
      simp only [SlabClass.spare, List.countP_append, List.countP_reverse, List.countP_map]
        at moved
      rw [splitRemotePage, List.count_eq_countP]
      have same : ((fun r : RemoteItem => decide (r.slot = l)) ∘ fun slot => { slot })
          = fun slot : Slot => slot == l := by
        funext slot
        simp [Function.comp, beq_eq_decide]
      rw [same] at moved
      omega
    refine { tiers with spare := fun l => ?_, taken := fun key r found => ?_ }
    · have bound := tiers.spare l
      rw [counted l]
      by_cases brought : l ∈ p.pageSlots id pageId base
      · have zero : c.spare l = 0 := by
          have := unknown l brought
          simp only [State.knows, not_or, not_not] at this
          exact this.1
        have once := List.nodup_iff_count.mp nodup l
        omega
      · rwa [List.count_eq_zero.mpr brought]
    · have found : c.remoteAssocFind cfg key = some r := found
      have known : c.knows r.slot := .inr (Chain.total_ne_zero_of_find found (by simp))
      have other : r.slot ∉ p.pageSlots id pageId base := fun brought => unknown _ brought known
      rw [counted, List.count_eq_zero.mpr other]
      exact tiers.taken key r found

end

theorem initial (sizes : List (Nat × Nat)) (buckets remoteBuckets : Nat) :
    Tiers cfg (State.initial sizes buckets remoteBuckets) fun _ => none := by
  have nothing : ∀ key, (State.initial sizes buckets remoteBuckets).assocFind cfg key = none :=
    fun key => Chain.find_empty _ key
  have nothing' : ∀ key,
      (State.initial sizes buckets remoteBuckets).remoteAssocFind cfg key = none :=
    fun key => Chain.find_empty _ key
  refine
    { single := fun key => ?_, apart := fun key => .inl (nothing key)
      near := fun key it found => ?_, far := fun key r found => ?_
      spare := fun l => ?_, taken := fun key r found => ?_ }
  · have zero := Chain.find_eq_none_iff.mp (nothing key)
    omega
  · simp [nothing key] at found
  · simp [nothing' key] at found
  · have zero : (State.initial sizes buckets remoteBuckets).spare l = 0 := by
      simp [State.spare, State.initial, SlabClass.spare, Chain.total, Chain.empty, Function.comp_def]
    omega
  · simp [nothing' key] at found

end Tiers

/-! ### Along a run -/

theorem note_store_failed (req : Request) (choice : Choice) {answer : Answer}
    (failed : answer ≠ .status .success) :
    record.note cfg c (.store req choice) answer = record := by
  cases answer with
  | status status => cases status <;> first | rfl | exact absurd rfl failed
  | item it => rfl
  | silent => rfl

section

variable (tiers : Tiers cfg c record)
include tiers

theorem tiers_store {req : Request} {choice : Choice}
    (turn : InTurn cfg ⟨c, record⟩ (.store req choice)) {answer : Answer}
    (applied : c.apply cfg (.store req choice) = some (answer, c')) :
    Tiers cfg c' (record.note cfg c (.store req choice) answer) := by
  have move := processBinUpdate_move tiers.single req choice
  unfold InTurn at turn
  simp only [State.apply] at applied
  generalize processBinUpdate cfg c req choice = got at move applied
  cases move with
  | refused status c₁ failed trim =>
    cases status with
    | none =>
      cases applied
      exact tiers.trimmed trim
    | some status =>
      cases applied
      rw [note_store_failed req choice fun same => failed (by injection same with same; rw [same])]
      exact tiers.trimmed trim
  | near c₁ newIt served trim absent key value expiry taken =>
    cases applied
    simp only [served] at turn
    rw [← key] at turn absent
    refine (congrArg (Tiers cfg _) ?_).mp (tiers.linked ⟨newIt.value, newIt.exptime, none, false⟩
      trim absent turn ⟨rfl, rfl, rfl⟩ taken)
    simp only [Record.note, served, key, value, expiry, Option.join_some, Option.map_none]
  | far c₁ r it served trim key value expiry taken =>
    cases applied
    simp only [served] at turn
    have missed := lookup_eq_none_of_assocFind turn
    rw [← key] at turn
    refine (congrArg (Tiers cfg _) ?_).mp (tiers.written
      ⟨it.value, it.exptime, some r.slot, false⟩ trim turn ⟨rfl, rfl, rfl⟩ taken)
    -- with no local item found, a join stores what the request carries
    have left : req.result none = req.value := by
      unfold Request.result
      cases req.cmd <;> simp
    have kept : req.expiry cfg c.currentTime none = (req.header cfg c.currentTime).2 := by
      unfold Request.expiry Request.header
      cases req.cmd <;> rfl
    simp only [Record.note, served, key, value, expiry, missed, Option.map_none, left, kept,
      Option.join_some, Option.map_some]

theorem tiers_get (key : Bytes) (touch : Option Nat) (bumped completes : Bool) :
    let (it, c') := processBinGetOrTouch cfg c key touch bumped completes
    Tiers cfg c' (record.note cfg c (.get key touch bumped completes) (.item it)) := by
  have move := processBinGetOrTouch_move tiers.single key touch bumped completes
  generalize processBinGetOrTouch cfg c key touch bumped completes = got at move
  cases move with
  | miss c₁ trim missed => cases touch <;> exact tiers.trimmed trim
  | near c₁ it answer trim live value quiet =>
    subst quiet
    exact tiers.trimmed trim
  | touched c₁ it answer exptime trim live indexed value asked =>
    subst asked
    simp only [Record.note, live, Option.isSome_some, if_true]
    exact (tiers.trimmed trim).touched key _ indexed
  | far c₁ r trim missed found =>
    cases touch with
    | none => exact tiers.trimmed trim
    | some exptime =>
      simp only [Record.note, missed, Option.isSome_none, Bool.false_eq_true, if_false]
      exact tiers.trimmed trim

theorem tiers_delete (key : Bytes) (cas : Nat) :
    let (status, c') := processBinDelete cfg c key cas
    Tiers cfg c' (record.note cfg c (.delete key cas) (.status status)) := by
  have trim := (processBinDelete_move tiers.single key cas).1
  generalize processBinDelete cfg c key cas = got at trim
  obtain ⟨status, c'⟩ := got
  have kept := tiers.trimmed trim
  cases status with
  | success =>
    refine kept.relabel fun key' st here => ?_
    by_cases same : key' = key
    · subst same
      exact ⟨{ st with gone := true }, by simp [Record.note, here], rfl, rfl, rfl⟩
    · exact ⟨st, by simp [Record.note, update_of_ne same, here], rfl, rfl, rfl⟩
  | keyEnoent | keyEexists | e2big | notStored | enomem | authError => exact kept

end

variable {op : Op}

theorem tiers_apply (tiers : Tiers cfg c record) (turn : InTurn cfg ⟨c, record⟩ op)
    {answer : Answer} (applied : c.apply cfg op = some (answer, c')) :
    Tiers cfg c' (record.note cfg c op answer) := by
  cases op with
  | store req choice => exact tiers_store tiers turn applied
  | get key touch bumped completes =>
    cases applied
    exact tiers_get tiers key touch bumped completes
  | delete key cas =>
    cases applied
    exact tiers_delete tiers key cas
  | flush exptime =>
    cases applied
    obtain ⟨casId, oldestLive, oldestCas, -, left⟩ := processBinFlush_fields cfg c exptime
    exact (congrArg (Tiers cfg · record) left).mpr (tiers.retimed _ _ _ _)
  | tick seconds =>
    cases applied
    exact tiers.retimed _ _ _ _
  | evict key =>
    cases applied
    exact tiers.trimmed (lruPullTail_trimmed tiers.single none [key])
  | bump key =>
    cases applied
    refine tiers.remarked key fun it => ?_
    have same := doItemUpdate_fields cfg c.currentTime it
    exact ⟨same.1, same.2.1, same.2.2.1, same.2.2.2.1⟩
  | shuffle key lru active =>
    cases applied
    exact tiers.remarked key fun _ => ⟨rfl, rfl, rfl, rfl⟩
  | attach id pageId base =>
    obtain ⟨fresh, ⟨⟩⟩ := Option.ite_none_right_eq_some.mp applied
    exact tiers.attached fresh

theorem step_eq_some {w w' : World} (stepped : step cfg w op = some w') :
    ∃ answer c', w.cache.apply cfg op = some (answer, c') ∧
      w' = ⟨c', fun key =>
        (w.record.note cfg w.cache op answer key).map (Stored.mark cfg c' key)⟩ := by
  obtain ⟨⟨answer, c'⟩, applied, rfl⟩ := Option.map_eq_some_iff.mp stepped
  exact ⟨answer, c', applied, rfl⟩

/-- A store in turn puts no key into both tiers. -/
theorem tiers_step {w w' : World} (tiers : Tiers cfg w.cache w.record) (turn : InTurn cfg w op)
    (stepped : step cfg w op = some w') : Tiers cfg w'.cache w'.record := by
  obtain ⟨answer, c', applied, rfl⟩ := step_eq_some stepped
  exact (tiers_apply tiers turn applied).marked c'

end MemExchange.Cache
