import MemExchange.Shadow.Queue
import MemExchange.Shadow.Shapes

/-!
# Reuse distances

The distance of an item is meant to be the number of items in front of it in the shadow queue. It
is, as long as at most two items are queued. From the third on the rotations of the tree, which move
subtrees but no weights, make the oldest item look farther away than it is.
-/
namespace MemExchange.Shadow

open Function (update update_self update_of_ne update_apply)

/-- The counters after a hit that is `k` pages away. -/
def hitCounted (hits : Nat → UInt32) (k : Nat) : Nat → UInt32 :=
  if k ≤ 3999 then update hits k (hits k + 1) else hits

/-- A lookup of any queued item, at any later time, measures its position in the queue and
counts the hit under the page of that position. -/
def Exact (cfg : Settings) (s : State) : Prop :=
  ∀ e ∈ s.order, ∀ time, s.now.before time = true →
    ∃ s', lookupPinned cfg s e time =
        .ok (some ((s.order.idxOf e : Nat), (s.order.idxOf e / cfg.perslab.toNat : Nat)), s') ∧
      s'.hits = hitCounted s.hits (s.order.idxOf e / cfg.perslab.toNat)

/-! ### The parts of the state -/

/-- The queue holds the items of `l`, and is counted. -/
structure Queued (queue : Dll ItemId) (size : UInt32) (l : List (ItemId × NodeId)) : Prop where
  rep : queue.Rep (l.map Prod.fst)
  size : size = UInt32.ofNat l.length

/-- The items alive are those of `l`, each with its node. -/
structure Owned (items : ItemId → Option ShadowItem) (fresh : ItemId)
    (l : List (ItemId × NodeId)) : Prop where
  node : ∀ p ∈ l, ∃ it, items p.1 = some it ∧ it.treeNode = some p.2 ∧ it.dead = false
  alive : ∀ e it, items e = some it → it.dead = false → ∃ a, (e, a) ∈ l
  known : ∀ e it, items e = some it → e < fresh

/-- The class holds the items of `l`, newest first, at most three. -/
structure Small (s : State) (l : List (ItemId × NodeId)) : Prop where
  queued : Queued s.queue s.size l
  tree : Shaped s.now s.tree l
  owned : Owned s.items s.fresh l

variable {cfg : Settings} {s s' : State} {l : List (ItemId × NodeId)} {e : ItemId} {a b : NodeId}

/-! ### The queue -/

theorem map_fst_erase (nodup : (l.map Prod.fst).Nodup) (member : (e, a) ∈ l) :
    (l.map Prod.fst).erase e = (l.erase (e, a)).map Prod.fst := by
  induction l with
  | nil => simp at member
  | cons q l ih =>
    obtain ⟨once, nodup⟩ := List.nodup_cons.mp nodup
    rcases List.mem_cons.mp member with rfl | member
    · simp
    · have inside : e ∈ l.map Prod.fst := List.mem_map.mpr ⟨(e, a), member, rfl⟩
      have other : q.1 ≠ e := fun same => once (same ▸ inside)
      have other' : q ≠ (e, a) := fun same => other (by rw [same])
      rw [List.map_cons, List.erase_cons_tail (by simpa using other),
        List.erase_cons_tail (by simpa using other'), List.map_cons, ih nodup member]

theorem length_erase_add_one (member : (e, a) ∈ l) : (l.erase (e, a)).length + 1 = l.length := by
  have := List.length_pos_of_mem member
  rw [List.length_erase_of_mem member]
  omega

theorem mem_erase_iff (nodup : (l.map Prod.fst).Nodup) (member : (e, a) ∈ l) {p : ItemId × NodeId} :
    p ∈ l.erase (e, a) ↔ p ∈ l ∧ p.1 ≠ e := by
  rw [nodup.of_map.mem_erase_iff]
  constructor
  · rintro ⟨other, inside⟩
    refine ⟨inside, fun same => other ?_⟩
    exact List.inj_on_of_nodup_map nodup inside member same
  · rintro ⟨inside, other⟩
    exact ⟨fun same => other (by rw [same]), inside⟩

variable {queue : Dll ItemId} {time : Timeval} {i : Nat} {key : Key}

theorem Queued.remove {size : UInt32} (queued : Queued queue size l) (member : (e, a) ∈ l) :
    Queued (queue.unlink e) (size - 1) (l.erase (e, a)) := by
  have inside : e ∈ l.map Prod.fst := List.mem_map.mpr ⟨(e, a), member, rfl⟩
  refine ⟨?_, ?_⟩
  · rw [← map_fst_erase queued.rep.nodup member]
    exact queued.rep.unlink inside
  · rw [queued.size, ← length_erase_add_one member, UInt32.ofNat_add]
    exact UInt32.add_sub_cancel _ _

theorem Queued.insert {size : UInt32} (queued : Queued queue size l) (new : e ∉ l.map Prod.fst)
    (a : NodeId) : Queued (queue.push e) (size + 1) ((e, a) :: l) := by
  refine ⟨queued.rep.push new, ?_⟩
  rw [queued.size, List.length_cons, UInt32.ofNat_add]
  rfl

/-! ### The items -/

section Items

variable {items items' : ItemId → Option ShadowItem} {fresh : ItemId}

theorem Owned.touch (owned : Owned items fresh l) (e : ItemId) {f : ShadowItem → ShadowItem}
    (keep : ∀ it, (f it).treeNode = it.treeNode ∧ (f it).dead = it.dead) :
    Owned (update items e ((items e).map f)) fresh l := by
  -- an item read afterwards is the item before, up to what does not matter
  have back : ∀ x it', update items e ((items e).map f) x = some it' →
      ∃ it, items x = some it ∧ it'.dead = it.dead := by
    intro x it' found
    rw [update_apply] at found
    split at found
    · next here =>
      obtain ⟨it, before, rfl⟩ := Option.map_eq_some_iff.mp found
      exact ⟨it, here ▸ before, (keep it).2⟩
    · exact ⟨it', found, rfl⟩
  refine ⟨fun p inside => ?_, fun x it' found live => ?_, fun x it' found => ?_⟩
  · obtain ⟨it, found, node, live⟩ := owned.node p inside
    by_cases here : p.1 = e
    · refine ⟨f it, ?_, (keep it).1.trans node, (keep it).2.trans live⟩
      rw [here, update_self, ← here, found, Option.map_some]
    · exact ⟨it, (update_of_ne here _ _).trans found, node, live⟩
  · obtain ⟨it, before, same⟩ := back x it' found
    exact owned.alive x it before (same ▸ live)
  · obtain ⟨it, before, -⟩ := back x it' found
    exact owned.known x it before

variable {it' : ShadowItem}

variable (owned : Owned items fresh l)
include owned

theorem Owned.move (nodup : (l.map Prod.fst).Nodup) (member : (e, a) ∈ l)
    (rest : ∀ x, x ≠ e → items' x = items x) (here : items' e = some it')
    (node : it'.treeNode = some b) (live : it'.dead = false) :
    Owned items' fresh ((e, b) :: l.erase (e, a)) := by
  refine ⟨fun p inside => ?_, fun x it found alive => ?_, fun x it found => ?_⟩
  · rcases List.mem_cons.mp inside with rfl | inside
    · exact ⟨it', here, node, live⟩
    · obtain ⟨inside, other⟩ := (mem_erase_iff nodup member).mp inside
      rw [rest _ other]
      exact owned.node p inside
  · by_cases same : x = e
    · exact ⟨b, by simp [same]⟩
    · obtain ⟨c, inside⟩ := owned.alive x it (rest x same ▸ found) alive
      exact ⟨c, List.mem_cons_of_mem _ ((mem_erase_iff nodup member).mpr ⟨inside, same⟩)⟩
  · by_cases same : x = e
    · obtain ⟨it, before, -⟩ := owned.node _ member
      rw [same]
      exact owned.known e it before
    · exact owned.known x it (rest x same ▸ found)

theorem Owned.create (rest : ∀ x, x ≠ fresh → items' x = items x) (here : items' fresh = some it')
    (node : it'.treeNode = some b) (live : it'.dead = false) :
    Owned items' (fresh + 1) ((fresh, b) :: l) := by
  refine ⟨fun p inside => ?_, fun x it found alive => ?_, fun x it found => ?_⟩
  · rcases List.mem_cons.mp inside with rfl | inside
    · exact ⟨it', here, node, live⟩
    · obtain ⟨it, found, remains⟩ := owned.node p inside
      have other : p.1 ≠ fresh := Nat.ne_of_lt (owned.known p.1 it found)
      exact ⟨it, (rest _ other).trans found, remains⟩
  · by_cases same : x = fresh
    · exact ⟨b, by simp [same]⟩
    · obtain ⟨c, inside⟩ := owned.alive x it (rest x same ▸ found) alive
      exact ⟨c, List.mem_cons_of_mem _ inside⟩
  · by_cases same : x = fresh
    · rw [same]
      exact Nat.lt_succ_self fresh
    · exact Nat.lt_succ_of_lt (owned.known x it (rest x same ▸ found))

theorem Owned.kill (nodup : (l.map Prod.fst).Nodup) (member : (e, a) ∈ l)
    (rest : ∀ x, x ≠ e → items' x = items x) (dies : ∀ it, items' e = some it → it.dead = true) :
    Owned items' fresh (l.erase (e, a)) := by
  refine ⟨fun p inside => ?_, fun x it found alive => ?_, fun x it found => ?_⟩
  · obtain ⟨inside, other⟩ := (mem_erase_iff nodup member).mp inside
    rw [rest _ other]
    exact owned.node p inside
  · have other : x ≠ e := by
      rintro rfl
      simp [dies it found] at alive
    obtain ⟨c, inside⟩ := owned.alive x it (rest x other ▸ found) alive
    exact ⟨c, (mem_erase_iff nodup member).mpr ⟨inside, other⟩⟩
  · by_cases same : x = e
    · obtain ⟨it, before, -⟩ := owned.node _ member
      rw [same]
      exact owned.known e it before
    · exact owned.known x it (rest x same ▸ found)

theorem Owned.free {it : ShadowItem} (here : items e = some it) (dead : it.dead = true) :
    Owned (update items e none) fresh l := by
  have others : ∀ {x it'}, update items e none x = some it' → items x = some it' := by
    intro x it' found
    rw [update_apply] at found
    split at found
    · cases found
    · exact found
  refine ⟨fun p inside => ?_, fun x it' found live => ?_, fun x it' found => ?_⟩
  · obtain ⟨it', found, node, live⟩ := owned.node p inside
    have other : p.1 ≠ e := by
      rintro rfl
      rw [here] at found
      cases found
      simp [dead] at live
    exact ⟨it', (update_of_ne other _ _).trans found, node, live⟩
  · exact owned.alive x it' (others found) live
  · exact owned.known x it' (others found)

end Items

/-! ### The tree -/

theorem addTreeNode_ok (enough : 2 ≤ cfg.fuel) (shaped : Shaped s.now s.tree l) (few : l.length ≤ 2)
    (later : s.now.before time = true) (e : ItemId) : ∃ t, addTreeNode cfg s e time = .ok
        { s.setItem e (fun it => { it with lastSeenTime := time, treeNode := some s.tree.fresh })
          with now := time, tree := t } ∧
      Shaped time t ((e, s.tree.fresh) :: l) := by
  obtain ⟨fuel, eq⟩ : ∃ fuel, cfg.fuel = fuel + 2 := ⟨cfg.fuel - 2, by omega⟩
  obtain ⟨t, inserted, shaped⟩ := shaped.insert fuel later few
  refine ⟨t, ?_, shaped⟩
  unfold addTreeNode
  dsimp only [State.setItem]
  rw [eq, inserted]
  rfl

theorem dropTreeNode_ok {t : Tree} (removes : Removes cfg.fuel s.tree a t) (e : ItemId) :
    dropTreeNode cfg s e a =
      .ok { s.setItem e (fun it => { it with treeNode := none }) with tree := t } := by
  obtain ⟨t₁, fixed, deleted⟩ := removes
  rw [dropTreeNode, fixed, ok_bind, deleted]
  rfl

/-- Which items can be taken out: any of two, and the oldest of three. -/
theorem Small.removes (enough : 2 ≤ cfg.fuel) (small : Small s l) (member : (e, a) ∈ l)
    (last : l.length ≤ 2 ∨ l.length = 3 ∧ l.getLast? = some (e, a)) :
    ∃ t, Removes cfg.fuel s.tree a t ∧ Shaped s.now t (l.erase (e, a)) := by
  obtain ⟨fuel, eq⟩ : ∃ fuel, cfg.fuel = fuel + 1 := ⟨cfg.fuel - 1, by omega⟩
  rw [eq]
  rcases last with few | ⟨three, last⟩
  · exact small.tree.remove fuel member few
  · have nodup := small.queued.rep.nodup
    obtain ⟨x, y, z, rfl⟩ := List.length_eq_three.mp three
    obtain rfl : z = (e, a) := by simpa using last
    obtain ⟨t, removes, shaped⟩ := remove_third fuel small.tree
    have otherX : x ≠ (e, a) := by rintro rfl; simp at nodup
    have otherY : y ≠ (e, a) := by rintro rfl; simp at nodup
    rw [List.erase_cons_tail (by simpa using otherX), List.erase_cons_tail (by simpa using otherY),
      List.erase_cons_head]
    exact ⟨t, removes, shaped⟩

/-! ### Lookups -/

theorem bucket_eq (cfg : Settings) (fits : i < 2 ^ 31) :
    bucket cfg i = (i / cfg.perslab.toNat : Nat) := by
  have bound : i / cfg.perslab.toNat < 2 ^ 31 := lt_of_le_of_lt (Nat.div_le_self _ _) fits
  have whole : (Int32.ofInt i).toUInt32.toNat = i := by
    show (BitVec.ofInt 32 i).toNat = i
    rw [BitVec.toNat_ofInt]
    omega
  have unsigned : ((Int32.ofInt i).toUInt32 / cfg.perslab).toNat = i / cfg.perslab.toNat := by
    rw [UInt32.toNat_div, whole]
  unfold bucket
  generalize (Int32.ofInt i).toUInt32 / cfg.perslab = x at unsigned
  show x.toBitVec.toInt = _
  rw [BitVec.toInt_eq_toNat_of_lt, UInt32.toNat_toBitVec, unsigned]
  rw [UInt32.toNat_toBitVec, unsigned]
  omega

theorem countHit_hits (s : State) (k : Nat) : (countHit s k).hits = hitCounted s.hits k := by
  simp [countHit, hitCounted]

theorem lookupPinned_ok (enough : 2 ≤ cfg.fuel) (small : Small s l) (few : l.length ≤ 2)
    (placed : l[i]? = some (e, a)) (later : s.now.before time = true) :
    ∃ s' b, lookupPinned cfg s e time =
        .ok (some ((i : Nat), (i / cfg.perslab.toNat : Nat)), s') ∧
      s'.hits = hitCounted s.hits (i / cfg.perslab.toNat) ∧
      Small s' ((e, b) :: l.erase (e, a)) := by
  have member : (e, a) ∈ l := List.mem_of_getElem? placed
  have nodup := small.queued.rep.nodup
  have below : i < l.length := (List.getElem?_eq_some_iff.mp placed).1
  obtain ⟨it, found, node, live⟩ := small.owned.node _ member
  have distance : calculateReuseDistance cfg.fuel s.tree s.tree.root (some a) = .ok i := by
    obtain ⟨fuel, eq⟩ : ∃ fuel, cfg.fuel = fuel + 1 := ⟨cfg.fuel - 1, by omega⟩
    rw [eq]
    exact small.tree.distance fuel few placed
  obtain ⟨t, removes, shaped⟩ := small.removes enough member (.inl few)
  have dropped := dropTreeNode_ok removes e
  have short : (l.erase (e, a)).length ≤ 2 := by
    have := length_erase_add_one member
    omega
  let s₁ := removeShadowqItemLocked
    { s.setItem e (fun it => { it with treeNode := none }) with tree := t } e
  obtain ⟨t', added, shaped'⟩ := addTreeNode_ok (s := s₁) enough shaped short later e
  let s₂ : State :=
    { s₁.setItem e (fun it => { it with lastSeenTime := time, treeNode := some t.fresh }) with
      now := time, tree := t' }
  refine ⟨countHit (insertShadowqItemLocked s₂ e) (i / cfg.perslab.toNat : Nat), t.fresh, ?_, ?_,
    ?_⟩
  · rw [lookupPinned, State.item, found, ok_bind, node]
    dsimp only
    rw [distance, ok_bind, dropped, ok_bind, added, ok_bind, bucket_eq cfg (by omega)]
    rfl
  · exact countHit_hits _ _
  · have new : e ∉ (l.erase (e, a)).map Prod.fst := by
      intro inside
      obtain ⟨p, left, same⟩ := List.mem_map.mp inside
      exact ((mem_erase_iff nodup member).mp left).2 same
    refine ⟨(small.queued.remove member).insert new t.fresh, shaped', ?_⟩
    refine small.owned.move nodup member (fun x other => ?_)
      (?_ : _ = some { it with lastSeenTime := time, treeNode := some t.fresh }) rfl live
    · simp [s₂, s₁, countHit, insertShadowqItemLocked, removeShadowqItemLocked, State.setItem,
        other]
    · simp [s₂, s₁, countHit, insertShadowqItemLocked, removeShadowqItemLocked, State.setItem,
        found]

/-! ### Evictions and insertions -/

theorem Small.evict (enough : 2 ≤ cfg.fuel) (small : Small s l) (member : (e, a) ∈ l)
    (last : l.length ≤ 2 ∨ l.length = 3 ∧ l.getLast? = some (e, a))
    (evicted : evictShadowqItemLocked cfg s e = .ok s') : Small s' (l.erase (e, a)) := by
  have nodup := small.queued.rep.nodup
  obtain ⟨it, found, node, live⟩ := small.owned.node _ member
  obtain ⟨t, removes, shaped⟩ := small.removes enough member last
  have dropped := dropTreeNode_ok (s := removeShadowqItemLocked s e) removes e
  rw [evictShadowqItemLocked, State.item, found, ok_bind, live] at evicted
  simp only [Bool.false_eq_true, if_false, node] at evicted
  rw [dropped, ok_bind] at evicted
  cases evicted
  have queued := small.queued.remove member
  -- the item stays dead in memory, or is freed
  split
  · refine ⟨queued, shaped, small.owned.kill nodup member (fun x other => ?_) ?_⟩
    · simp [State.freeItem, State.setItem, shadowAssocDelete, removeShadowqItemLocked, other]
    · simp [State.freeItem]
  · refine ⟨queued, shaped, small.owned.kill nodup member (fun x other => ?_) ?_⟩
    · simp [State.setItem, shadowAssocDelete, removeShadowqItemLocked, other]
    · simp [State.setItem, shadowAssocDelete, removeShadowqItemLocked, found]

theorem Small.release (small : Small s l) (released : shadowRelease s e = .ok s') : Small s' l := by
  unfold shadowRelease State.item at released
  split at released
  · next it found =>
    rw [ok_bind] at released
    cases released
    have touched := small.owned.touch e (f := fun it => { it with refcnt := it.refcnt - 1 })
      fun _ => ⟨rfl, rfl⟩
    split
    · next gone =>
      have here : (s.setItem e fun it => { it with refcnt := it.refcnt - 1 }).items e =
          some { it with refcnt := it.refcnt - 1 } := by simp [State.setItem, found]
      have dead : ({ it with refcnt := it.refcnt - 1 } : ShadowItem).dead = true := gone.2
      exact ⟨small.queued, small.tree, touched.free here dead⟩
    · exact ⟨small.queued, small.tree, touched⟩
  · cases released

theorem Small.find {found : Option ItemId} (small : Small s l)
    (pinned : shadowFindAndPin cfg s key = .ok (found, s')) :
    Small s' l ∧ s'.now = s.now ∧ ∀ e, found = some e → ∃ a, (e, a) ∈ l := by
  unfold shadowFindAndPin at pinned
  split at pinned
  · cases pinned
    exact ⟨small, rfl, fun e found => by cases found⟩
  · next entry _ =>
    unfold State.item at pinned
    split at pinned
    · next it here =>
      rw [ok_bind] at pinned
      split at pinned
      · cases pinned
        exact ⟨small, rfl, fun e found => by cases found⟩
      · next live =>
        cases pinned
        refine ⟨⟨small.queued, small.tree, small.owned.touch entry.id fun _ => ⟨rfl, rfl⟩⟩, rfl, ?_⟩
        intro e found
        cases found
        exact small.owned.alive _ it here (by simpa using live)
    · cases pinned

section

variable (enough : 2 ≤ cfg.fuel)
include enough

section

variable (small : Small s l)
include small

theorem Small.overflow (few : l.length ≤ 3)
    (done : (if s.size > cfg.maxItems then
        match s.queue.tail with
        | some victim => evictShadowqItemLocked cfg s victim
        | none => pure s
      else pure s) = .ok s') : ∃ l', Small s' l' ∧ l'.length ≤ 3 := by
  split at done
  · have tail := small.queued.rep.tail
    rw [List.getLast?_map] at tail
    cases last : l.getLast? with
    | none =>
      rw [last, Option.map_none] at tail
      rw [tail] at done
      cases done
      exact ⟨l, small, few⟩
    | some p =>
      obtain ⟨e, a⟩ := p
      have member : (e, a) ∈ l := List.mem_of_getLast? last
      rw [last, Option.map_some] at tail
      rw [tail] at done
      refine ⟨l.erase (e, a), small.evict enough member ?_ done, ?_⟩
      · by_cases three : l.length = 3
        · exact .inr ⟨three, last⟩
        · exact .inl (by omega)
      · have := length_erase_add_one member
        omega
  · cases done
    exact ⟨l, small, few⟩

theorem Small.insert (few : l.length ≤ 2) (later : s.now.before time = true)
    (inserted : s.apply cfg (.insert key time) = .ok s') : ∃ l', Small s' l' ∧ l'.length ≤ 3 := by
  let s₁ := shadowAssocInsert cfg (createShadowItem s key).2 { id := s.fresh, key }
  obtain ⟨t, added, shaped⟩ := addTreeNode_ok (s := s₁) enough small.tree few later s.fresh
  let s₂ : State :=
    { s₁.setItem s.fresh
        (fun it => { it with lastSeenTime := time, treeNode := some s.tree.fresh }) with
      now := time, tree := t }
  have new : s.fresh ∉ l.map Prod.fst := by
    intro inside
    obtain ⟨p, inside, same⟩ := List.mem_map.mp inside
    obtain ⟨it, found, -⟩ := small.owned.node p inside
    exact Nat.ne_of_lt (small.owned.known p.1 it found) same
  have full : Small (insertShadowqItemLocked s₂ s.fresh) ((s.fresh, s.tree.fresh) :: l) := by
    refine ⟨small.queued.insert new s.tree.fresh, shaped, ?_⟩
    refine small.owned.create (fun x other => ?_)
      (?_ : _ = some { key, lastSeenTime := time, treeNode := some s.tree.fresh }) rfl rfl
    · simp [s₂, s₁, insertShadowqItemLocked, shadowAssocInsert, createShadowItem, State.setItem,
        other]
    · simp [s₂, s₁, insertShadowqItemLocked, shadowAssocInsert, createShadowItem, State.setItem]
  have applied : s.apply cfg (.insert key time) = insertShadowqItem cfg s₁ s.fresh time := rfl
  rw [applied, insertShadowqItem, added, ok_bind] at inserted
  exact full.overflow enough (by rw [List.length_cons]; omega) inserted

theorem Small.lookup {found : Option ItemId}
    (few : l.length ≤ 2) (later : s.now.before time = true)
    (looked : slabsShadowqLookup cfg s key time = .ok (found, s')) :
    ∃ l', Small s' l' ∧ l'.length ≤ 3 := by
  obtain ⟨⟨pin, s₁⟩, pinned, rest⟩ := bind_eq_ok looked
  obtain ⟨small₁, now, queued⟩ := small.find pinned
  cases pin with
  | none =>
    cases rest
    exact ⟨l, small₁, by omega⟩
  | some e =>
    obtain ⟨a, member⟩ := queued e rfl
    obtain ⟨i, placed⟩ := List.mem_iff_getElem?.mp member
    obtain ⟨s₂, b, hit, -, small₂⟩ := lookupPinned_ok enough small₁ few placed (now ▸ later)
    obtain ⟨⟨answer, s₃⟩, hit', rest⟩ := bind_eq_ok rest
    rw [hit] at hit'
    cases hit'
    obtain ⟨s₄, released, rest⟩ := bind_eq_ok rest
    cases rest
    refine ⟨_, small₂.release released, ?_⟩
    have := length_erase_add_one member
    rw [List.length_cons]
    omega

theorem Small.evictStored (few : l.length ≤ 2) (evicted : evictStored cfg s key = .ok s') :
    ∃ l', Small s' l' ∧ l'.length ≤ 3 := by
  obtain ⟨⟨pin, s₁⟩, pinned, rest⟩ := bind_eq_ok evicted
  obtain ⟨small₁, -, queued⟩ := small.find pinned
  cases pin with
  | none =>
    cases rest
    exact ⟨l, small₁, by omega⟩
  | some e =>
    obtain ⟨a, member⟩ := queued e rfl
    obtain ⟨s₂, evicted, released⟩ := bind_eq_ok rest
    refine ⟨_, (small₁.evict enough member (.inl few) evicted).release released, ?_⟩
    have := length_erase_add_one member
    omega

end

end

/-! ### Steps and runs -/

theorem small_step {op : Op} (enough : 2 ≤ cfg.fuel) (small : Small s l) (few : l.length ≤ 2)
    (stepped : step cfg s op = some s') : ∃ l', Small s' l' ∧ l'.length ≤ 3 := by
  obtain ⟨inTime, stepped⟩ := Option.ite_none_right_eq_some.mp stepped
  cases applied : s.apply cfg op with
  | error fault => rw [applied] at stepped; cases stepped
  | ok s₁ =>
    rw [applied] at stepped
    cases stepped
    cases op with
    | insert key time => exact small.insert enough few inTime applied
    | lookup key time =>
      cases looked : slabsShadowqLookup cfg s key time with
      | error fault => rw [State.apply, looked] at applied; cases applied
      | ok got =>
        rw [State.apply, looked] at applied
        cases applied
        exact small.lookup enough few inTime looked
    | evict key => exact small.evictStored enough few applied

theorem Small.order (small : Small s l) (few : l.length ≤ 3) : s.order = l.map Prod.fst := by
  have count : s.size.toNat = (l.map Prod.fst).length := by
    rw [small.queued.size, List.length_map, UInt32.toNat_ofNat']
    omega
  rw [State.order, count, small.queued.rep.toList]

theorem Small.position (small : Small s l) (few : l.length ≤ 3) {p : ItemId × NodeId}
    (placed : l[i]? = some p) : s.order.idxOf p.1 = i := by
  obtain ⟨below, here⟩ := List.getElem?_eq_some_iff.mp placed
  have inside : i < (l.map Prod.fst).length := by simpa using below
  have same : p.1 = (l.map Prod.fst)[i] := by rw [List.getElem_map, here]
  rw [small.order few, same]
  exact small.queued.rep.nodup.idxOf_getElem i inside

theorem exact_of_few (enough : 2 ≤ cfg.fuel) (small : Small s l) (few : l.length ≤ 2) :
    Exact cfg s := by
  intro e queued time later
  have order := small.order (by omega)
  rw [order] at queued
  obtain ⟨p, inside, rfl⟩ := List.mem_map.mp queued
  obtain ⟨i, placed⟩ := List.mem_iff_getElem?.mp inside
  have position := small.position (by omega) placed
  obtain ⟨s', b, hit, counted, -⟩ := lookupPinned_ok enough small few placed later
  rw [position]
  exact ⟨s', hit, counted⟩

/-- With three, the lookup of the oldest one is not: it measures four. -/
theorem not_exact_of_three (enough : 2 ≤ cfg.fuel) (small : Small s l) (three : l.length = 3) :
    ¬ Exact cfg s := by
  intro exact'
  obtain ⟨x, y, z, rfl⟩ := List.length_eq_three.mp three
  have order := small.order (by simp)
  have position : s.order.idxOf z.1 = 2 := small.position (by simp) rfl
  have later : s.now.before ⟨s.now.sec + 1, 0⟩ = true := by simp [Timeval.before]
  obtain ⟨s', looked, -⟩ := exact' z.1 (by simp [order]) _ later
  rw [position] at looked
  obtain ⟨it, found, node, -⟩ := small.owned.node z (by simp)
  have distance : calculateReuseDistance cfg.fuel s.tree s.tree.root (some z.2) = .ok 4 := by
    obtain ⟨fuel, eq⟩ : ∃ fuel, cfg.fuel = fuel + 1 := ⟨cfg.fuel - 1, by omega⟩
    rw [eq]
    exact small.tree.distance_third fuel
  rw [lookupPinned, State.item, found, ok_bind, node] at looked
  dsimp only at looked
  rw [distance, ok_bind] at looked
  -- whatever the rest does, the distance answered is four
  obtain ⟨s₁, -, looked⟩ := bind_eq_ok looked
  obtain ⟨s₂, -, looked⟩ := bind_eq_ok looked
  cases looked

theorem Queued.size_le_two_iff (queued : Queued s.queue s.size l) (few : l.length ≤ 3) :
    s.size ≤ 2 ↔ l.length ≤ 2 := by
  rw [queued.size, UInt32.le_iff_toNat_le, UInt32.toNat_ofNat']
  have : l.length % 2 ^ 32 = l.length := by omega
  rw [this]
  rfl

/-- From a class of at most two items on, a run is exact as long as it keeps to two. -/
theorem always_exact_iff (enough : 2 ≤ cfg.fuel) (run : List Op) (small : Small s l)
    (few : l.length ≤ 2) : Run.Always (step cfg) (Exact cfg) s run ↔
      Run.Always (step cfg) (fun s => s.size ≤ 2) s run := by
  have exact' := exact_of_few enough small few
  have size : s.size ≤ 2 := (small.queued.size_le_two_iff (by omega)).mpr few
  induction run generalizing s l with
  | nil => exact ⟨fun _ => size, fun _ => exact'⟩
  | cons op run ih =>
    have onward : ∀ s', step cfg s op = some s' →
        (Run.Always (step cfg) (Exact cfg) s' run ↔
          Run.Always (step cfg) (fun s => s.size ≤ 2) s' run) := by
      intro s' stepped
      obtain ⟨l', small', few'⟩ := small_step enough small few stepped
      by_cases three : l'.length = 3
      · -- both fail in the state reached
        constructor
        · intro always
          exact absurd always.here (not_exact_of_three enough small' three)
        · intro always
          have := (small'.queued.size_le_two_iff few').mp always.here
          omega
      · have few'' : l'.length ≤ 2 := by omega
        exact ih small' few'' (exact_of_few enough small' few'')
          ((small'.queued.size_le_two_iff few').mpr few'')
    constructor
    · rintro ⟨-, later⟩
      exact ⟨size, fun s' stepped => (onward s' stepped).mp (later s' stepped)⟩
    · rintro ⟨-, later⟩
      exact ⟨exact', fun s' stepped => (onward s' stepped).mpr (later s' stepped)⟩

theorem small_initial (buckets : Nat) (now : Timeval) : Small (State.initial buckets now) [] := by
  refine ⟨⟨Dll.rep_empty, rfl⟩, .empty rfl, ?_, ?_, ?_⟩
  · simp
  · simp [State.initial]
  · simp [State.initial]

/-- **Distances are exact while at most two items are queued, and only then.** In a run of
insertions, lookups and evictions from an empty class, every state measures every queued item
exactly if and only if no state holds more than two. Two rounds of fuel are enough for every
loop on the way. -/
theorem reuse_distance_exact_iff (cfg : Settings) (enough : 2 ≤ cfg.fuel) (buckets : Nat)
    (now : Timeval) (run : List Op) :
    Run.Always (step cfg) (Exact cfg) (State.initial buckets now) run ↔
      Run.Always (step cfg) (fun s => s.size ≤ 2) (State.initial buckets now) run :=
  always_exact_iff enough run (small_initial buckets now) (by simp)

/-! ### A class with one chunk to a page -/

def plainSettings : Settings where
  hash := List.length
  perslab := 1
  maxItems := 100
  fuel := 8
  perslab_pos := by decide

def insertAt (key : UInt8) (sec : Int) : Op := .insert [key] ⟨sec, 0⟩

def lookupAt (key : UInt8) (sec : Int) : Op := .lookup [key] ⟨sec, 0⟩

/-- Lookups of both items, a store of one of their keys, and a third key in its place. -/
theorem reuse_distance_exact_with_two : 2 ≤ plainSettings.fuel ∧
      Run.Always (step plainSettings) (Exact plainSettings) (State.initial 0 ⟨0, 0⟩)
        [insertAt 1 1, insertAt 2 2, lookupAt 1 3, lookupAt 1 4, .evict [2], insertAt 3 5,
          lookupAt 1 6] :=
  ⟨by decide, (reuse_distance_exact_iff plainSettings (by decide) 0 ⟨0, 0⟩ _).mpr
    (by decide +kernel)⟩

/-- The first of three items is at position two of the queue. Its lookup measures four, and the
hit is counted two pages too far. -/
theorem third_item_counted_too_far : (Run.exec (step plainSettings) (State.initial 0 ⟨0, 0⟩)
        [insertAt 1 1, insertAt 2 2, insertAt 3 3]).map
      (fun s => (s.order, (lookupPinned plainSettings s 0 ⟨4, 0⟩).toOption.map Prod.fst))
      = some ([2, 1, 0], some (some (4, 4))) ∧
    (Run.exec (step plainSettings) (State.initial 0 ⟨0, 0⟩)
        [insertAt 1 1, insertAt 2 2, insertAt 3 3, lookupAt 1 4]).map
      (fun s => (s.hits 2, s.hits 4)) = some (0, 1) := by
  decide +kernel

end MemExchange.Shadow
