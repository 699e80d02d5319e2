import MemExchange.Shadow.Races

/-!
# Accesses to the hash table that overlap

`shadow_locks` is a static array of a header, so every file that includes it has locks of its own.
Insertions into a bucket, which `lru_pull_tail` makes, exclude each other, and so do the other accesses,
but an insertion and an eviction do not. Each of the two is a step that reads the bucket and a step
that writes it.
-/
namespace MemExchange.Shadow

/-- What a thread in the middle of an access has read. -/
inductive Half where
  /-- `shadow_assoc_insert` has set `h_next` to the head of the bucket. -/
  | insert (key : Key) (head : Option Entry)
  /-- `_hashitem_before` has gone through the bucket and found the link to the item. -/
  | delete (key : Key) (read : List Entry)
  deriving DecidableEq

namespace Half

def key : Half → Key
  | .insert key _ | .delete key _ => key

def inserts : Half → Bool
  | .insert _ _ => true
  | .delete _ _ => false

/-- The item that the access has a pointer to. -/
def refers : Half → Option ItemId
  | .insert _ head => head.map Entry.id
  | .delete key read => ((read.takeWhile fun x => x.key ≠ key).getLast?).map Entry.id

end Half

/-- What a pointer to `head` leads to in a bucket. The link of an item that was taken out is null. -/
def reach (head : Option Entry) (l : List Entry) : List Entry :=
  head.elim [] fun h => if h ∈ l then l else [h]

/-- The rest of `shadow_assoc_delete`: the link is the bucket itself, or belongs to an item, before
which others may have come. What it leads to now is taken out. -/
def unlink (key : Key) (read l : List Entry) : List Entry :=
  match read.findIdx? fun x => x.key = key with
  | none => l
  | some 0 => l.tail
  | some n => l.eraseIdx (l.length - read.length + n)

/-- The victim that a thread is to take out of the hash table. -/
def Pc.hashVictim : Pc → Option ItemId
  | .evictHash e _ => some e
  | _ => none

/-- The threads, and the accesses that they are in the middle of. -/
structure Split (cfg : Pool) extends World cfg where
  half : Fin cfg.threads → Option Half := fun _ => none

namespace Split

variable {cfg : Pool} (m : Split cfg) (t : Fin cfg.threads)

def slot (key : Key) : Nat := Chain.slot cfg.hash m.state.assoc key

def chain (key : Key) : List Entry := Chain.chain cfg.hash m.state.assoc key

/-- No thread is in the middle of an access to the bucket of the key. -/
def Clear (key : Key) : Prop := ∀ t, ∀ h ∈ m.half t, m.slot h.key ≠ m.slot key

/-- Thread `t` has done a step. -/
def turns (w : World cfg) (h : Option Half) : Split cfg :=
  { toWorld := w, half := Function.update m.half t h }

/-- What a section does, with the bucket of the key written as the halves of the access write it. -/
def rewrites (w : World cfg) (key : Key) (f : List Entry → List Entry) : World cfg :=
  { w with state := { w.state with assoc := m.state.assoc.alter cfg.hash key f } }

/-- The second step of an access, the first step of an eviction's, or another section. -/
def next (time : Timeval) : Option (Split cfg) :=
  match m.half t with
  | some (.insert key head) =>
    some (m.turns t (m.rewrites (m.pull t key) key fun l =>
      { id := m.state.fresh, key } :: reach head l) none)
  | some (.delete key read) =>
    (m.toWorld.next t time).map fun w => m.turns t (m.rewrites w key (unlink key read)) none
  | none =>
    match (m.pc t).hashVictim with
    | some e => (m.state.items e).map fun it =>
        m.turns t m.toWorld (some (.delete it.key (m.chain it.key)))
    | none => (m.toWorld.next t time).map fun w => m.turns t w none

/-- A thread that is not in the middle of an access begins to look for an item. -/
def begins (action : Action cfg.threads) : Option (Split cfg) :=
  if m.half t = none then (threadStep cfg m.toWorld action).map fun w => m.turns t w none else none

end Split

def splitStep (cfg : Pool) (m : Split cfg) : Action cfg.threads → Option (Split cfg)
  | .pull t key =>
    if m.pc t = .idle ∧ m.half t = none ∧
        ∀ t', ∀ h ∈ m.half t', h.inserts = true → m.slot h.key ≠ m.slot key then
      some (m.turns t m.toWorld (some (.insert key (m.chain key).head?)))
    else none
  | .lookup t key => m.begins t (.lookup t key)
  | .store t key => m.begins t (.store t key)
  | .next t time => m.next t time

def Split.initial (cfg : Pool) (buckets : Nat) (now : Timeval) : Split cfg :=
  { toWorld := .initial cfg buckets now }

/-- A step finds its items in memory, frees no item again, and an item that it frees had one reference
left, is forgotten, and no access that is not complete has a pointer to it. -/
def FreesUnreferred (cfg : Pool) (m : Split cfg) (action : Action cfg.threads) : Prop :=
  FindsAllocated cfg m.toWorld action ∧
  ∀ m' ∈ splitStep cfg m action, m'.freed.Nodup ∧ ∀ e ∈ m'.freed, e ∉ m.freed →
    (∃ it ∈ m.state.items e, it.refcnt = 1) ∧ Forgotten cfg m'.toWorld e ∧
      ∀ t, ∀ h ∈ m'.half t, h.refers ≠ some e

/-- The condition on a step: insertions are not disturbed, and no access to a bucket begins while
another one to that bucket is not complete. -/
def Exclusive (cfg : Pool) (m : Split cfg) : Action cfg.threads → Prop
  | .pull _ key => m.Clear key
  | .next t time =>
    match m.half t with
    | some (.insert key _) => Undisturbed cfg m.toWorld (.pull t key)
    | some (.delete _ _) => True
    | none => Undisturbed cfg m.toWorld (.next t time) ∧
        ∀ e ∈ (m.pc t).hashVictim, ∀ it ∈ m.state.items e, m.Clear it.key
  | _ => True

instance {cfg : Pool} (m : Split cfg) (key : Key) : Decidable (m.Clear key) :=
  inferInstanceAs (Decidable (∀ t, ∀ h ∈ m.half t, _))

instance (cfg : Pool) : DecidableRel (FreesUnreferred cfg) := fun m action => by
  unfold FreesUnreferred; infer_instance

instance (cfg : Pool) (m : Split cfg) : (action : Action cfg.threads) → Decidable (Exclusive cfg m action)
  | .pull _ key => inferInstanceAs (Decidable (m.Clear key))
  | .lookup _ _ | .store _ _ => inferInstanceAs (Decidable True)
  | .next t time => by
    delta Exclusive
    dsimp only
    rcases m.half t with _ | ⟨_, _⟩ | ⟨_, _⟩ <;> infer_instance

/-! ### Halves that are right -/

theorem reach_head (l : List Entry) : reach l.head? l = l := by
  cases l <;> simp [reach]

theorem unlink_self (key : Key) (l : List Entry) :
    unlink key l l = l.eraseP fun x => x.key = key := by
  rw [unlink, List.eraseP_eq_eraseIdx]
  generalize l.findIdx? (fun x => x.key = key) = found
  rcases found with _ | _ | n <;> simp

/-- What the access has read of the bucket `l` is still so. -/
def Half.Current (l : List Entry) (pc : Pc) : Half → Prop
  | .insert _ head => pc = .idle ∧ head = l.head?
  | .delete key read => (∃ e stored, pc = .evictHash e stored ∧
      l.find? (fun x => x.key = key) = some ⟨e, key⟩) ∧ read = l

theorem Half.Current.refers_mem {l : List Entry} {pc : Pc} {h : Half} {e : ItemId}
    (current : h.Current l pc) (refers : h.refers = some e) : ∃ x ∈ l, x.id = e := by
  cases h with
  | insert key head =>
    obtain ⟨x, first, rfl⟩ := Option.map_eq_some_iff.mp (current.2 ▸ refers)
    exact ⟨x, List.mem_of_mem_head? first, rfl⟩
  | delete key read =>
    obtain ⟨x, last, rfl⟩ := Option.map_eq_some_iff.mp (current.2 ▸ refers)
    exact ⟨x, (List.takeWhile_sublist _).subset (List.mem_of_getLast? last), rfl⟩

/-- Every access that is not complete is right about its bucket, and is the only one there. -/
structure Halfway {cfg : Pool} (m : Split cfg) : Prop where
  current : ∀ {t h}, m.half t = some h → h.Current (m.chain h.key) (m.pc t)
  alone : ∀ {t t' h h'}, m.half t = some h → m.half t' = some h' →
    m.slot h.key = m.slot h'.key → t = t'

section Steps

variable {cfg : Pool} {place : ItemId → Place} {m m' : Split cfg} {w w' : World cfg}
  {t : Fin cfg.threads} {key : Key} {time : Timeval}

/-- A step that leaves the buckets of the other accesses as they are. -/
theorem Halfway.turns (halfway : Halfway m) {next : Option Half} (slots : w.state.assoc.buckets.length
      = m.state.assoc.buckets.length) (pcs : ∀ t' ≠ t, w.pc t' = m.pc t')
    (chains : ∀ t' ≠ t, ∀ h ∈ m.half t', Chain.chain cfg.hash w.state.assoc h.key = m.chain h.key)
    (mine : ∀ h ∈ next, h.Current (Chain.chain cfg.hash w.state.assoc h.key) (w.pc t) ∧ m.Clear h.key) :
    Halfway (m.turns t w next) := by
  have slot : ∀ key, (m.turns t w next).slot key = m.slot key := fun key => by
    simp only [Split.slot, Chain.slot, Split.turns, slots]
  have half : ∀ {t' h}, (m.turns t w next).half t' = some h →
      (t' = t ∧ next = some h) ∨ (t' ≠ t ∧ m.half t' = some h) := by
    intro t' h has
    by_cases same : t' = t
    · subst same
      rw [show (m.turns t' w next).half t' = next from Function.update_self ..] at has
      exact .inl ⟨rfl, has⟩
    · rw [show (m.turns t w next).half t' = m.half t' from Function.update_of_ne same ..] at has
      exact .inr ⟨same, has⟩
  refine ⟨fun {t' h} has => ?_, fun {t₁ t₂ h h'} has has' same => ?_⟩
  · rcases half has with ⟨rfl, new⟩ | ⟨other, old⟩
    · exact (mine h new).1
    · change h.Current (Chain.chain cfg.hash w.state.assoc h.key) (w.pc t')
      rw [chains t' other h old, pcs t' other]
      exact halfway.current old
  · rw [slot, slot] at same
    rcases half has with ⟨rfl, new⟩ | ⟨-, old⟩ <;> rcases half has' with ⟨rfl, new'⟩ | ⟨-, old'⟩
    · rfl
    · exact absurd same.symm ((mine h new).2 t₂ h' old')
    · exact absurd same ((mine h' new').2 t₁ h old)
    · exact halfway.alone old old' same

/-- A step that writes the bucket of its own access. -/
theorem Halfway.writes (halfway : Halfway m) {h : Half} (has : m.half t = some h)
    {f : List Entry → List Entry} (assoc : w.state.assoc = m.state.assoc.alter cfg.hash h.key f)
    (pcs : ∀ t' ≠ t, w.pc t' = m.pc t') : Halfway (m.turns t w none) := by
  refine halfway.turns (by simp [assoc, Chain.alter]) pcs (fun t' other g has' => ?_) (by simp)
  have apart : Chain.slot cfg.hash m.state.assoc g.key ≠ Chain.slot cfg.hash m.state.assoc h.key :=
    fun same => other (halfway.alone has' has same)
  rw [assoc, Chain.chain_alter, if_neg apart]
  rfl

theorem next_pc (called : w.next t time = some w') : ∀ t' ≠ t, w'.pc t' = w.pc t' := by
  intro t' other
  unfold World.next at called
  split at called <;> try split at called
  all_goals first
    | cases called
    | obtain ⟨_, _, rfl⟩ := Option.map_eq_some_iff.mp called
      exact Function.update_of_ne other ..

/-- Only the last part of an eviction touches the hash table. -/
theorem next_assoc (called : w.next t time = some w') (other : (w.pc t).hashVictim = none) :
    w'.state.assoc = w.state.assoc := by
  have unlinks : ∀ {s e r}, unlinkVictim s e = .ok r → r.1.assoc = s.assoc := by
    intro s e r done
    obtain ⟨-, -, ⟨-, -, same⟩ | ⟨-, -, same⟩⟩ := unlinkVictim_spec done <;> rw [same]
    rfl
  unfold World.next at called
  split at called
  case h_1 => cases called
  case h_2 =>
    obtain ⟨s, done, rfl⟩ := Option.map_eq_some_iff.mp called
    obtain ⟨_, _, -, -, rfl⟩ := insertIntoTree_spec (toOption_eq_some done)
    rfl
  case h_3 =>
    obtain ⟨-, called⟩ := Option.ite_none_left_eq_some.mp called
    obtain ⟨⟨s, victim⟩, done, rfl⟩ := Option.map_eq_some_iff.mp called
    obtain ⟨-, -, done⟩ := bind_eq_ok (toOption_eq_some done)
    dsimp only at done
    split at done
    · split at done
      · exact unlinks done
      · cases done
        rfl
    · cases done
      rfl
  case h_4 =>
    obtain ⟨-, called⟩ := Option.ite_none_left_eq_some.mp called
    obtain ⟨⟨hit, s⟩, done, rfl⟩ := Option.map_eq_some_iff.mp called
    obtain ⟨-, -, ⟨-, rfl⟩ | ⟨_, _, _, _, _, -, -, -, rfl⟩⟩ :=
      lookupPinned_spec (toOption_eq_some done) <;> rfl
  case h_5 | h_6 =>
    obtain ⟨s, done, rfl⟩ := Option.map_eq_some_iff.mp called
    obtain ⟨_, -, rfl⟩ := shadowRelease_spec (toOption_eq_some done)
    rfl
  case h_7 =>
    obtain ⟨-, called⟩ := Option.ite_none_left_eq_some.mp called
    obtain ⟨r, done, rfl⟩ := Option.map_eq_some_iff.mp called
    exact unlinks (toOption_eq_some done)
  case h_8 =>
    obtain ⟨s, done, rfl⟩ := Option.map_eq_some_iff.mp called
    obtain ⟨_, -, ⟨-, rfl⟩ | ⟨_, _, -, -, rfl⟩⟩ := evictFromTree_spec (toOption_eq_some done) <;> rfl
  case h_9 at_ =>
    rw [at_] at other
    cases other

/-- A step of the threads with split accesses is a step of the threads, or leaves them where they are,
and what is read of the buckets stays right. -/
theorem splitStep_coarse (inv : Inv cfg place m.toWorld) (halfway : Halfway m)
    {action : Action cfg.threads} (exclusive : Exclusive cfg m action)
    (called : splitStep cfg m action = some m') :
    Halfway m' ∧ (m'.toWorld = m.toWorld ∨ ∃ coarse, Undisturbed cfg m.toWorld coarse ∧
      threadStep cfg m.toWorld coarse = some m'.toWorld) := by
  have begins : ∀ t key next {coarse : Action cfg.threads},
      threadStep cfg m.toWorld coarse = (if m.pc t = .idle then m.pinFor next t key else none) →
      m.begins t coarse = some m' → Halfway m' ∧ threadStep cfg m.toWorld coarse = some m'.toWorld := by
    intro t key next coarse step called
    obtain ⟨-, called⟩ := Option.ite_none_right_eq_some.mp called
    obtain ⟨w, stepped, rfl⟩ := Option.map_eq_some_iff.mp called
    refine ⟨?_, stepped⟩
    rw [step] at stepped
    obtain ⟨-, stepped⟩ := Option.ite_none_right_eq_some.mp stepped
    rcases pinFor_spec stepped with rfl | ⟨x, it, -, -, rfl⟩
    all_goals
      exact halfway.turns rfl (fun t' other => Function.update_of_ne other ..) (fun _ _ _ _ => rfl)
        (by simp)
  cases action with
  | lookup t key =>
    obtain ⟨halfway', stepped⟩ := begins t key .lookupMove rfl called
    exact ⟨halfway', .inr ⟨.lookup t key, trivial, stepped⟩⟩
  | store t key =>
    obtain ⟨halfway', stepped⟩ := begins t key .storeEvict rfl called
    exact ⟨halfway', .inr ⟨.store t key, trivial, stepped⟩⟩
  | pull t key =>
    obtain ⟨⟨idle, -⟩, ⟨⟩⟩ := Option.ite_none_right_eq_some.mp called
    refine ⟨halfway.turns rfl (fun _ _ => rfl) (fun _ _ _ _ => rfl) ?_, .inl rfl⟩
    rintro h ⟨⟩
    exact ⟨⟨idle, rfl⟩, exclusive⟩
  | next t time =>
    simp only [splitStep, Split.next] at called
    unfold Exclusive at exclusive
    dsimp only at exclusive
    split at called
    next key head has =>
      cases called
      rw [has] at exclusive
      obtain ⟨idle, right⟩ := halfway.current has
      have same : (m.pull t key).state.assoc = m.state.assoc.alter cfg.hash key fun l =>
          { id := m.state.fresh, key } :: reach head l := by
        refine Chain.alter_congr cfg.hash m.state.assoc key ?_
        rw [right]
        exact congrArg _ (reach_head (m.chain key)).symm
      rw [Split.rewrites, ← same]
      refine ⟨halfway.writes has same fun t' other => Function.update_of_ne other ..,
        .inr ⟨.pull t key, exclusive, if_pos idle⟩⟩
    next key read has =>
      obtain ⟨w, stepped, rfl⟩ := Option.map_eq_some_iff.mp called
      obtain ⟨⟨e, stored, at_, found⟩, right⟩ := halfway.current has
      have pcs := next_pc stepped
      have coarse := stepped
      simp only [World.next, at_] at stepped
      obtain ⟨s, done, rfl⟩ := Option.map_eq_some_iff.mp stepped
      obtain ⟨it, here, rfl⟩ := evictFromHash_spec (toOption_eq_some done)
      have itsKey : it.key = key := by
        have := (inv.shared.indexed.found found).2
        rw [here] at this
        exact Option.some.inj this
      have same : m.state.assoc.delete cfg.hash Entry.key it.key
          = m.state.assoc.alter cfg.hash key (unlink key read) := by
        rw [itsKey, right]
        exact Chain.alter_congr cfg.hash m.state.assoc key (unlink_self key (m.chain key)).symm
      rw [Split.rewrites, ← same]
      refine ⟨halfway.writes has same pcs, .inr ⟨.next t time, ?_, coarse⟩⟩
      simp only [Undisturbed, at_]
      exact fun _ => trivial
    next has =>
      rw [has] at exclusive
      obtain ⟨quiet, clear⟩ := exclusive
      split at called
      next e victim =>
        obtain ⟨it, here, rfl⟩ := Option.map_eq_some_iff.mp called
        refine ⟨halfway.turns rfl (fun _ _ => rfl) (fun _ _ _ _ => rfl) ?_, .inl rfl⟩
        rintro h ⟨⟩
        obtain ⟨stored, at_⟩ : ∃ stored, m.pc t = .evictHash e stored := by
          cases at_ : m.pc t <;> rw [at_] at victim <;> cases victim
          exact ⟨_, rfl⟩
        have alive : place e = .untreed := inv.staffed.works (t := t) (by rw [at_]; rfl)
        refine ⟨⟨⟨e, stored, at_, ?_⟩, rfl⟩, clear e victim it here⟩
        exact inv.shared.indexed.listed (by rw [alive]; rfl) (by rw [here]; rfl)
      next victim =>
        obtain ⟨w, stepped, rfl⟩ := Option.map_eq_some_iff.mp called
        have assoc := next_assoc stepped victim
        refine ⟨halfway.turns (by rw [assoc]) (next_pc stepped)
          (fun _ _ h _ => congrArg (Chain.chain cfg.hash · h.key) assoc) (by simp),
          .inr ⟨.next t time, quiet, stepped⟩⟩

theorem split_step (m : Split cfg) (action : Action cfg.threads) (m' : Split cfg)
    (inv : (∃ place, Inv cfg place m.toWorld) ∧ Halfway m) (exclusive : Exclusive cfg m action)
    (called : splitStep cfg m action = some m') :
    (∃ place, Inv cfg place m'.toWorld) ∧ Halfway m' := by
  obtain ⟨⟨place, inv⟩, halfway⟩ := inv
  obtain ⟨halfway', same | ⟨coarse, quiet, stepped⟩⟩ := splitStep_coarse inv halfway exclusive called
  · exact ⟨same ▸ ⟨place, inv⟩, halfway'⟩
  · exact ⟨inv_step _ coarse _ ⟨place, inv⟩ quiet stepped, halfway'⟩

theorem freesUnreferred_of_inv (m : Split cfg) (action : Action cfg.threads)
    (inv : (∃ place, Inv cfg place m.toWorld) ∧ Halfway m) (exclusive : Exclusive cfg m action) :
    FreesUnreferred cfg m action := by
  obtain ⟨⟨place, inv⟩, halfway⟩ := inv
  refine ⟨findsAllocated_of_inv inv, fun m' called => ?_⟩
  obtain ⟨halfway', same | ⟨coarse, quiet, stepped⟩⟩ := splitStep_coarse inv halfway exclusive called
  · rw [same]
    exact ⟨inv.disposed.once, fun e now before => absurd now before⟩
  · obtain ⟨once, frees⟩ := (freesForgotten_of_inv _ coarse ⟨place, inv⟩ quiet).2 _ stepped
    refine ⟨once, fun e now before => ?_⟩
    obtain ⟨last, forgotten⟩ := frees e now before
    refine ⟨last, forgotten, fun t h has refers => ?_⟩
    obtain ⟨x, member, same⟩ := (halfway'.current has).refers_mem refers
    exact forgotten.2.1 _ (Chain.chain_mem cfg.hash m'.state.assoc h.key) x member same

/-- In a schedule without the three races, and in which no insertion into a bucket overlaps an
eviction from it, every item is freed once, with its last reference, and then no structure and no
thread has it. -/
theorem frees_forgotten_of_exclusive (cfg : Pool) (buckets : Nat) (now : Timeval)
    (run : List (Action cfg.threads))
    (exclusive : Run.Along (splitStep cfg) (Exclusive cfg) (.initial cfg buckets now) run) :
    Run.Along (splitStep cfg) (FreesUnreferred cfg) (.initial cfg buckets now) run := by
  have start : Halfway (Split.initial cfg buckets now) :=
    ⟨fun has => (by cases has), fun has => (by cases has)⟩
  exact Run.along_of_invariant split_step freesUnreferred_of_inv
    ⟨inv_initial cfg buckets now, start⟩ exclusive

end Steps

/-! ### Three threads and one bucket -/

section Accesses

variable (a b c : Fin smallPool.threads)

/-- The second insertion evicts the first item while a lookup has it pinned, and a store takes
the second item out. -/
def carefulAccesses : List (Action smallPool.threads) :=
  [.pull a [1], goOn a 1, goOn a 1, goOn a 1, .lookup b [1], goOn b 2, .pull a [2]] ++
    List.replicate 6 (goOn a 3) ++ [goOn b 4, .store c [2]] ++ List.replicate 5 (goOn c 5)

/-- A lookup finds the item that thread `a` inserts, between its node and its place in the queue, and
a store takes it out. -/
def lookupThenStore : List (Action smallPool.threads) :=
  [.pull a [1], goOn a 1, goOn a 1, .lookup b [1], goOn b 2, goOn b 2, goOn a 3, .store c [1]] ++
    List.replicate 5 (goOn c 4)

/-- Thread `a` inserts an item, and a store takes it out after `a` has read the bucket for the next
one. -/
def storeBetween : List (Action smallPool.threads) :=
  [.pull a [1], goOn a 1, goOn a 1, goOn a 1, .pull a [2], .store c [1]] ++
    List.replicate 5 (goOn c 2)

end Accesses

theorem frees_forgotten_when_careful :
    (Run.exec (splitStep smallPool) (.initial smallPool 0 ⟨0, 0⟩) (carefulAccesses 0 1 2)).map
        (fun m => m.freed) = some [1, 0] ∧
      Run.Along (splitStep smallPool) (FreesUnreferred smallPool) (.initial smallPool 0 ⟨0, 0⟩)
        (carefulAccesses 0 1 2) :=
  ⟨by decide +kernel,
    frees_forgotten_of_exclusive smallPool 0 ⟨0, 0⟩ (carefulAccesses 0 1 2) (by decide +kernel)⟩

/-- The item is freed while the queue begins and ends with it; or while the hash table is going to
lead to it. -/
theorem freed_item_still_queued :
    ¬ Run.Along (splitStep smallPool) (FreesUnreferred smallPool) (.initial smallPool 0 ⟨0, 0⟩)
        (lookupThenStore 0 1 2) ∧
      (Run.exec (splitStep smallPool) (.initial smallPool 0 ⟨0, 0⟩) (lookupThenStore 0 1 2)).map
        (fun m => (m.freed, m.state.items 0, m.state.queue.head, m.state.queue.tail))
        = some ([0], none, some 0, some 0) ∧
      ¬ Run.Along (splitStep smallPool) (FreesUnreferred smallPool) (.initial smallPool 0 ⟨0, 0⟩)
        (storeBetween 0 2) ∧
      (Run.exec (splitStep smallPool) (.initial smallPool 0 ⟨0, 0⟩) (storeBetween 0 2 ++ [goOn 0 3])).map
        (fun m => (m.freed, m.state.items 0, m.state.assoc.buckets))
        = some ([0], none, [[⟨1, [2]⟩, ⟨0, [1]⟩]]) := by
  decide +kernel

end MemExchange.Shadow
