import MemExchange.Shadow.Threads

/-!
# What a critical section does

One lemma for each section that a thread goes through: what it needs, which item it writes,
and which nodes it leaves in the tree. The items that nodes refer to can be followed without knowing
the shape of the tree.
-/
namespace MemExchange.Shadow

open Function (update_of_ne update_self update_idem update)

/-! ### Computations that may fail -/

/-- If the computation succeeds, its result satisfies `Q`. -/
structure Ends {α : Type} (r : Result α) (Q : α → Prop) : Prop where
  result : ∀ x, r = .ok x → Q x

section Ends

variable {α β : Type} {r : Result α} {f : α → Result β} {P : α → Prop} {Q : β → Prop}

theorem toOption_eq_some {x : α} (done : r.toOption = some x) : r = .ok x := by
  cases r with
  | error fault => cases done
  | ok y => cases done; rfl

theorem Ends.bind (first : Ends r P) (rest : ∀ x, P x → Ends (f x) Q) : Ends (r >>= f) Q := by
  refine ⟨fun y done => ?_⟩
  obtain ⟨x, got, done⟩ := bind_eq_ok done
  exact (rest x (first.result x got)).result y done

theorem Ends.read (rest : ∀ x, Ends (f x) Q) : Ends (r >>= f) Q :=
  Ends.bind (P := fun _ => True) ⟨fun _ _ => trivial⟩ fun x _ => rest x

theorem ends_pure {x : β} (here : Q x) : Ends (pure x) Q := by
  refine ⟨fun y done => ?_⟩
  cases done
  exact here

theorem ends_error {fault : Fault} : Ends (.error fault) Q := by
  refine ⟨fun y done => ?_⟩
  cases done

end Ends

/-! ### The items of the nodes -/

def Tree.owner (t : Tree) (a : NodeId) : Option ItemId := (t.mem a).map Node.shadowItem

/-- The nodes are the same and have the same items. -/
structure SameOwners (t t' : Tree) : Prop where
  fresh : t'.fresh = t.fresh
  owner : ∀ a, t'.owner a = t.owner a

section Tree

variable {t t₁ : Tree}

theorem SameOwners.refl (t : Tree) : SameOwners t t := ⟨rfl, fun _ => rfl⟩

/-- A tree operation keeps the items, also after others that did. -/
def Keeps (t : Tree) (r : Result Tree) : Prop := Ends r (SameOwners t)

theorem Keeps.bind {r : Result Tree} {f : Tree → Result Tree} (first : Keeps t r)
    (rest : ∀ t₁, SameOwners t t₁ → Keeps t (f t₁)) : Keeps t (r >>= f) :=
  Ends.bind first rest

theorem Keeps.read {α : Type} {r : Result α} {f : α → Result Tree} (rest : ∀ x, Keeps t (f x)) :
    Keeps t (r >>= f) :=
  Ends.read rest

theorem keeps_write (same : SameOwners t t₁) (p : Ptr) {f : Node → Node}
    (keeps : ∀ n, (f n).shadowItem = n.shadowItem) : Keeps t (t₁.write p f) := by
  refine ⟨fun t₂ done => ?_⟩
  unfold Tree.write at done
  split at done
  · cases done
  split at done
  · cases done
  next a _ n here =>
    cases done
    refine ⟨same.fresh, fun b => ?_⟩
    rw [← same.owner b, Tree.owner, Tree.owner]
    by_cases equal : b = a
    · simp only [equal, here, update_self, Option.map_some, keeps]
    · simp only [update_of_ne equal]

variable (n : Node) (fuel : Nat)

theorem setChild_shadowItem (side : Side) (p : Ptr) :
    (n.setChild side p).shadowItem = n.shadowItem := by
  cases side <;> rfl

section

variable (same : SameOwners t t₁)
include same

theorem keeps_fixHeight (p : Ptr) : Keeps t (t₁.fixHeight p) :=
  .read fun _ => .read fun _ => .read fun _ => keeps_write same p fun _ => rfl

theorem keeps_relink (side : Side) (u parent v : Ptr) : Keeps t (relink side t₁ u parent v) := by
  cases parent with
  | none => exact ends_pure ⟨same.fresh, same.owner⟩
  | some p =>
    refine .read fun n => ?_
    split <;> exact keeps_write same _ fun n => setChild_shadowItem ..

theorem keeps_liftChild (side : Side) (x y : Ptr) : Keeps t (do
    let parent := (← t₁.node x).parent
    let t ← t₁.write y fun n => { n with parent := parent }
    let t ← relink side t x parent y
    let t ← t.write y (·.setChild side x)
    let t ← t.write x fun n => { n with parent := y }
    let t ← t.fixHeight x
    t.fixHeight y) := by
  refine .read fun n => ?_
  dsimp only
  refine Ends.bind (keeps_write same _ fun _ => rfl) fun t₂ same => ?_
  refine (keeps_relink same side ..).bind fun t₃ same => ?_
  refine Ends.bind (keeps_write same _ fun n => setChild_shadowItem ..) fun t₄ same => ?_
  refine Ends.bind (keeps_write same _ fun _ => rfl) fun t₅ same => ?_
  exact (keeps_fixHeight same x).bind fun t₆ same => keeps_fixHeight same _

theorem keeps_rotate (side : Side) (x : Ptr) : Keeps t (rotate side t₁ x) := by
  refine .read fun n => .read fun m => ?_
  refine (keeps_write same x fun n => setChild_shadowItem ..).bind fun t₂ same => ?_
  dsimp only
  split
  · exact Ends.bind (keeps_write same _ fun _ => rfl) fun t₃ same => keeps_liftChild same ..
  · exact Keeps.bind (ends_pure same) fun t₃ same => keeps_liftChild same ..

theorem keeps_rotateCase (x y z : Ptr) : Keeps t (rotateCase t₁ x y z) := by
  refine .read fun n => ?_
  split
  · refine .read fun l => ?_
    split
    · exact keeps_rotate same ..
    split
    · exact (keeps_rotate same ..).bind fun t₂ same => keeps_rotate same ..
    · exact ends_pure same
  split
  · refine .read fun r => ?_
    split
    · exact keeps_rotate same ..
    split
    · exact (keeps_rotate same ..).bind fun t₂ same => keeps_rotate same ..
    · exact ends_pure same
  · exact ends_pure same

theorem ends_descend (y temp : Ptr) :
    Ends (descend n fuel t₁ y temp) fun p => SameOwners t p.1 := by
  induction fuel generalizing t₁ y temp with
  | zero =>
    cases temp with
    | none => exact ends_pure same
    | some a => exact ends_error
  | succ fuel ih =>
    cases temp with
    | none => exact ends_pure same
    | some a =>
      refine .read fun m => ?_
      split
      · exact ih same ..
      · exact Ends.bind (keeps_write same _ fun _ => rfl) fun t₂ same => ih same ..

theorem keeps_rebalance (y z : Ptr) : Keeps t (rebalance fuel t₁ y z) := by
  induction fuel generalizing t₁ y z with
  | zero =>
    cases y with
    | none => exact ends_pure same
    | some a => exact ends_error
  | succ fuel ih =>
    cases y with
    | none => exact ends_pure same
    | some a =>
      refine (keeps_fixHeight same _).bind fun t₂ same => .read fun n => .read fun bf => ?_
      split
      · exact keeps_rotateCase same ..
      · exact .read fun m => ih same ..

end

theorem keeps_insertTreeNode (t : Tree) (a : NodeId) : Keeps t (insertTreeNode fuel t a) := by
  refine .read fun new => Ends.bind (ends_descend new fuel (.refl t) none t.root) fun ⟨t₁, y⟩ same => ?_
  replace same : SameOwners t t₁ := same
  refine Ends.bind (keeps_write same _ fun _ => rfl) fun t₂ same => ?_
  dsimp only
  split
  · exact Ends.bind (ends_pure (Q := SameOwners t) ⟨same.fresh, same.owner⟩) fun t₃ same =>
      keeps_rebalance fuel same ..
  · refine .read fun m => ?_
    split <;>
      exact Ends.bind (keeps_write same _ fun _ => rfl) fun t₃ same => keeps_rebalance fuel same ..

theorem keeps_transplant (same : SameOwners t t₁) (u v : Ptr) : Keeps t (transplant t₁ u v) := by
  refine .read fun n => (keeps_relink same ..).bind fun t₂ same => ?_
  split
  · exact ends_pure same
  · exact keeps_write same _ fun _ => rfl

theorem keeps_deleteFixup (same : SameOwners t t₁) (p : Ptr) : Keeps t (deleteFixup fuel t₁ p) := by
  induction fuel generalizing t₁ p with
  | zero =>
    cases p with
    | none => exact ends_pure same
    | some a => exact ends_error
  | succ fuel ih =>
    cases p with
    | none => exact ends_pure same
    | some a =>
      refine (keeps_fixHeight same _).bind fun t₂ same => .read fun bf => ?_
      dsimp only
      split
      · exact .read fun y => .read fun z => (keeps_rotateCase same ..).bind fun t₃ same =>
          .read fun n => ih same ..
      · exact Keeps.bind (ends_pure same) fun t₃ same => .read fun n => ih same ..

theorem keeps_fixWeights (root : Ptr) (fuel : Nat) (same : SameOwners t t₁) (node : Ptr) :
    Keeps t (fixWeights root fuel t₁ node) := by
  induction fuel generalizing t₁ node with
  | zero =>
    unfold fixWeights
    split
    · exact ends_pure same
    · exact ends_error
  | succ fuel ih =>
    unfold fixWeights
    split
    · exact ends_pure same
    · refine .read fun n => .read fun m => ?_
      dsimp only
      split
      · exact Ends.bind (keeps_write same _ fun _ => rfl) fun t₂ same => ih same ..
      · exact Keeps.bind (ends_pure same) fun t₂ same => ih same ..

structure Pruned (t t' : Tree) (node : NodeId) : Prop where
  fresh : t'.fresh = t.fresh
  owner : ∀ a, t'.owner a = if a = node then none else t.owner a

theorem SameOwners.free (same : SameOwners t t₁) (node : NodeId) :
    Pruned t (t₁.free node) node := by
  refine ⟨same.fresh, fun a => ?_⟩
  rw [← same.owner a, Tree.owner]
  by_cases here : a = node
  · rw [if_pos here, here, Tree.free]
    simp only [update_self, Option.map_none]
  · rw [if_neg here, Tree.owner, free_rest t₁ here]

section

variable (same : SameOwners t t₁)
include same

theorem ends_replaceByChild (z : NodeId) (child : Ptr) : Ends (do
      let t ← transplant t₁ (some z) child
      let t ← deleteFixup fuel t child
      pure (t.free z)) fun t' => Pruned t t' z :=
  Ends.bind (keeps_transplant same ..) fun _ same =>
    Ends.bind (keeps_deleteFixup fuel same _) fun _ same => ends_pure (same.free z)

theorem ends_replaceBySuccessor (z y l : NodeId) : Ends (do
      let t ← transplant t₁ (some z) (some y)
      let t ← t.write (some y) fun m => { m with left := some l }
      let t ← t.write (some l) fun m => { m with parent := some y }
      let t ← deleteFixup fuel t (some y)
      pure (t.free z)) fun t' => Pruned t t' z := by
  refine Ends.bind (keeps_transplant same ..) fun t₂ same => ?_
  refine Ends.bind (keeps_write same _ fun _ => rfl) fun t₃ same => ?_
  refine Ends.bind (keeps_write same _ fun _ => rfl) fun t₄ same => ?_
  exact Ends.bind (keeps_deleteFixup fuel same _) fun t₅ same => ends_pure (same.free z)

theorem ends_deleteTreeNode (z : NodeId) :
    Ends (deleteTreeNode fuel t₁ z) fun t' => Pruned t t' z := by
  refine .read fun n => ?_
  split
  · exact ends_replaceByChild fuel same z _
  · exact ends_replaceByChild fuel same z _
  · refine .read fun y => .read fun m => ?_
    dsimp only
    split
    · refine Ends.bind (keeps_transplant same ..) fun t₂ same => ?_
      refine Ends.bind (keeps_write same _ fun _ => rfl) fun t₃ same => ?_
      exact Ends.bind (keeps_write same _ fun _ => rfl) fun t₄ same =>
        ends_replaceBySuccessor fuel same ..
    · exact Ends.bind (ends_pure same) fun t₂ same => ends_replaceBySuccessor fuel same ..

end

/-- A new node of item `e` is in the tree. -/
structure Planted (t t' : Tree) (e : ItemId) : Prop where
  fresh : t'.fresh = t.fresh + 1
  owner : ∀ a, t'.owner a = if a = t.fresh then some e else t.owner a

theorem planted_of_malloc {e : ItemId} {n : Node} (item : n.shadowItem = e)
    (same : SameOwners (t.malloc n) t₁) : Planted t t₁ e := by
  refine ⟨same.fresh, fun a => ?_⟩
  rw [same.owner, Tree.owner]
  by_cases new : a = t.fresh
  · rw [if_pos new, new, Tree.malloc_here, Option.map_some, item]
  · rw [if_neg new, Tree.owner, Tree.malloc]
    simp only [update_of_ne new]

end Tree

/-! ### Items -/

section Items

variable {cfg : Settings} {s s' : State} {e : ItemId} {it : ShadowItem}

theorem item_eq_ok : s.item e = .ok it ↔ s.items e = some it := by
  unfold State.item
  cases s.items e with
  | none => exact ⟨fun found => (by cases found), fun found => (by cases found)⟩
  | some here => simp

variable {time : Timeval}

theorem addTreeNode_spec (done : addTreeNode cfg s e time = .ok s') : ∃ t, Planted s.tree t e ∧
      s' = { s.setItem e fun it => { it with lastSeenTime := time, treeNode := some s.tree.fresh }
        with now := time, tree := t } := by
  obtain ⟨t, inserted, same⟩ := bind_eq_ok done
  cases same
  exact ⟨t, planted_of_malloc rfl ((keeps_insertTreeNode cfg.fuel _ _).result t inserted), rfl⟩

theorem dropTreeNode_spec {node : NodeId} (done : dropTreeNode cfg s e node = .ok s') :
    ∃ t, Pruned s.tree t node ∧
      s' = { s.setItem e fun it => { it with treeNode := none } with tree := t } := by
  obtain ⟨t₁, fixed, done⟩ := bind_eq_ok done
  obtain ⟨t, deleted, same⟩ := bind_eq_ok done
  cases same
  have kept := (keeps_fixWeights s.tree.root cfg.fuel (.refl s.tree) _).result t₁ fixed
  exact ⟨t, (ends_deleteTreeNode cfg.fuel kept node).result t deleted, rfl⟩

/-! ### Sections -/

theorem insertIntoTree_spec (done : insertIntoTree cfg s e time = .ok s') :
    ∃ it t, s.items e = some it ∧ Planted s.tree t e ∧
      s' = { s with
        items := update s.items e
          (some { it with lastSeenTime := time, treeNode := some s.tree.fresh })
        now := time
        tree := t } := by
  obtain ⟨it, found, done⟩ := bind_eq_ok done
  have here := item_eq_ok.mp found
  obtain ⟨t, planted, rfl⟩ := addTreeNode_spec done
  exact ⟨it, t, here, planted, by simp only [State.setItem, here, Option.map_some]⟩

theorem unlinkVictim_spec {found : Option ItemId} (done : unlinkVictim s e = .ok (s', found)) :
    ∃ it, s.items e = some it ∧
      ((it.dead = true ∧ found = none ∧ s' = s) ∨
        (it.dead = false ∧ found = some e ∧ s' = removeShadowqItemLocked s e)) := by
  obtain ⟨it, got, done⟩ := bind_eq_ok done
  refine ⟨it, item_eq_ok.mp got, ?_⟩
  cases dead : it.dead with
  | true => rw [dead] at done; cases done; exact .inl ⟨rfl, rfl, rfl⟩
  | false => rw [dead] at done; cases done; exact .inr ⟨rfl, rfl, rfl⟩

theorem evictFromTree_spec (done : evictFromTree cfg s e = .ok s') : ∃ it, s.items e = some it ∧
      ((it.treeNode = none ∧ s' = s) ∨ ∃ node t, it.treeNode = some node ∧ Pruned s.tree t node ∧
        s' = { s with items := update s.items e (some { it with treeNode := none }), tree := t }) := by
  obtain ⟨it, got, done⟩ := bind_eq_ok done
  have here := item_eq_ok.mp got
  refine ⟨it, here, ?_⟩
  cases has : it.treeNode with
  | none => rw [has] at done; cases done; exact .inl ⟨rfl, rfl⟩
  | some node =>
    rw [has] at done
    obtain ⟨t, pruned, rfl⟩ := dropTreeNode_spec done
    exact .inr ⟨node, t, rfl, pruned, by simp only [State.setItem, here, Option.map_some]⟩

theorem evictFromHash_spec (done : evictFromHash cfg s e = .ok s') : ∃ it, s.items e = some it ∧
      s' = { s with
        items := update s.items e (if it.refcnt = 1 then none else
          some { it with dead := true, refcnt := it.refcnt - 1 })
        assoc := s.assoc.delete cfg.hash Entry.key it.key } := by
  obtain ⟨it, got, done⟩ := bind_eq_ok done
  have here := item_eq_ok.mp got
  refine ⟨it, here, ?_⟩
  cases done
  split
  · simp only [State.freeItem, State.setItem, shadowAssocDelete, update_idem]
  · simp only [State.setItem, shadowAssocDelete, here, Option.map_some, update_self,
      update_idem]

theorem shadowRelease_spec (done : shadowRelease s e = .ok s') : ∃ it, s.items e = some it ∧
      s' = { s with
        items := update s.items e (if it.refcnt = 1 ∧ it.dead = true then none else
          some { it with refcnt := it.refcnt - 1 }) } := by
  obtain ⟨it, got, done⟩ := bind_eq_ok done
  have here := item_eq_ok.mp got
  refine ⟨it, here, ?_⟩
  cases done
  split
  · simp only [State.freeItem, State.setItem, update_idem]
  · simp only [State.setItem, here, Option.map_some]

theorem shadowFindAndPin_spec {key : Key} {found : Option ItemId}
    (done : shadowFindAndPin cfg s key = .ok (found, s')) :
    (found = none ∧ s' = s) ∨ ∃ x it, shadowAssocFind cfg s key = some x ∧
      s.items x.id = some it ∧ it.dead = false ∧ found = some x.id ∧
      s' = { s with items := update s.items x.id (some { it with refcnt := it.refcnt + 1 }) } := by
  unfold shadowFindAndPin at done
  cases got : shadowAssocFind cfg s key with
  | none => rw [got] at done; cases done; exact .inl ⟨rfl, rfl⟩
  | some x =>
    rw [got] at done
    obtain ⟨it, read, done⟩ := bind_eq_ok done
    have here := item_eq_ok.mp read
    cases dead : it.dead with
    | true => rw [dead] at done; cases done; exact .inl ⟨rfl, rfl⟩
    | false =>
      rw [dead] at done
      cases done
      refine .inr ⟨x, it, rfl, here, dead, rfl, ?_⟩
      simp only [State.setItem, here, Option.map_some]

/-- A lookup finds no node and does nothing, or takes the item out of the queue and the tree
and puts it in again. -/
theorem lookupPinned_spec {hit : Option (Int × Int)}
    (done : lookupPinned cfg s e time = .ok (hit, s')) : ∃ it, s.items e = some it ∧
      ((it.treeNode = none ∧ s' = s) ∨
        ∃ node t₁ t hits misses, it.treeNode = some node ∧ Pruned s.tree t₁ node ∧ Planted t₁ t e ∧
        s' = { s with
          items := update s.items e
            (some { it with lastSeenTime := time, treeNode := some t₁.fresh })
          queue := (s.queue.unlink e).push e
          size := s.size - 1 + 1
          tree := t
          now := time
          hits := hits
          misses := misses }) := by
  obtain ⟨it, got, done⟩ := bind_eq_ok done
  have here := item_eq_ok.mp got
  refine ⟨it, here, ?_⟩
  cases has : it.treeNode with
  | none => rw [has] at done; cases done; exact .inl ⟨rfl, rfl⟩
  | some node =>
    rw [has] at done
    obtain ⟨y, -, done⟩ := bind_eq_ok done
    obtain ⟨s₁, dropped, done⟩ := bind_eq_ok done
    obtain ⟨s₂, added, done⟩ := bind_eq_ok done
    obtain ⟨t₁, pruned, rfl⟩ := dropTreeNode_spec dropped
    obtain ⟨t, planted, rfl⟩ := addTreeNode_spec added
    cases done
    refine .inr ⟨node, t₁, t, (countHit s (bucket cfg y)).hits, s.misses + 1, rfl, pruned, planted, ?_⟩
    simp only [countHit, insertShadowqItemLocked, removeShadowqItemLocked, State.setItem, here,
      Option.map_some, update_self, update_idem]

end Items

end MemExchange.Shadow
