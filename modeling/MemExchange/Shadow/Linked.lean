import MemExchange.Shadow.Index

/-!
# The nodes of a class form a tree

`insert_tree_node` and `delete_tree_node` replace the outline that the pointers stand for, and
`fix_weights` leaves it as it is. So every node in memory hangs below the root at any time between
two operations.
-/
namespace MemExchange.Shadow

open Outline

/-- Memory holds a tree that has every node, and the next node is not one of them. -/
structure Tree.Whole (t : Tree) : Prop where
  tree : ∃ s, Represents t s ∧ s.Nonneg ∧ ∀ a, t.mem a ≠ none → a ∈ s.ids
  fresh : ∀ a, t.fresh ≤ a → t.mem a = none

inductive Tree.Reaches (t : Tree) : NodeId → Prop
  | root {r : NodeId} (here : t.root = some r) : Reaches t r
  | child {a c : NodeId} {n : Node} {s : Side} (above : Reaches t a) (here : t.mem a = some n)
      (edge : n.child s = some c) : Reaches t c

variable {t t' : Tree} {s s' : Outline Cell} {a : NodeId} {n : Node} {op : TreeOp} {fuel : Nat}

theorem Holds.present {p : Ptr} (holds : Holds t p s) (member : a ∈ s.ids) : ∃ n, t.mem a = some n := by
  induction s generalizing p with
  | nil => cases member
  | node l c r ihl ihr =>
    obtain ⟨⟨n, here, -⟩, left, right⟩ := holds
    rcases (mem_ids_join (d := .left)).mp member with rfl | inL | inR
    · exact ⟨n, here⟩
    · exact ihl left inL
    · exact ihr right inR

theorem Holds.reaches {p : Ptr} (holds : Holds t p s) (top : ∀ a, s.ptr = some a → t.Reaches a)
    (member : a ∈ s.ids) : t.Reaches a := by
  induction s generalizing p with
  | nil => cases member
  | node l c r ihl ihr =>
    obtain ⟨⟨n, here, -, isLeft, isRight, -⟩, left, right⟩ := holds
    have above := top c.id rfl
    rcases (mem_ids_join (d := .left)).mp member with rfl | inL | inR
    · exact above
    · exact ihl left (fun b edge => .child above here (isLeft.trans edge)) inL
    · exact ihr right (fun b edge => .child above here (isRight.trans edge)) inR

theorem Tree.Whole.reaches (whole : t.Whole) (here : t.mem a = some n) : t.Reaches a := by
  obtain ⟨s, represents, -, all⟩ := whole.tree
  refine represents.holds.reaches (fun b top => ?_) (all a (by simp [here]))
  exact .root (Eq.trans represents.around top)

theorem Tree.mem_eq_none_iff : t.mem a = none ↔ t.owner a = none := by
  rw [owner, Option.map_eq_none_iff]

theorem Tree.Whole.empty : ({} : Tree).Whole where
  tree := ⟨.nil, ⟨rfl, trivial, List.nodup_nil⟩, fun _ never => (nomatch never),
    fun _ present => absurd rfl present⟩
  fresh := fun _ _ => rfl

theorem Edit.represents (edit : Edit t.fresh s op s') (represents : Represents t s)
    (nonneg : s.Nonneg) (unused : t.fresh ∉ s.ids) (done : t.apply fuel op = .ok t') :
    Represents t' s' := by
  obtain ⟨enough, runs⟩ := edit.runs nonneg unused
  obtain ⟨t₁, same, represents'⟩ := runs (max fuel enough) (le_max_right ..) t represents rfl
  rw [(extends_apply (le_max_left fuel enough) t op).result t' done] at same
  cases same
  exact represents'

theorem addTreeNode_whole {cfg : Settings} {s s' : State} {e : ItemId} {time : Timeval}
    (whole : s.tree.Whole) (done : addTreeNode cfg s e time = .ok s') : s'.tree.Whole := by
  obtain ⟨t, inserted, same⟩ := bind_eq_ok done
  cases same
  have kept := (keeps_insertTreeNode cfg.fuel _ _).result t inserted
  have planted : Planted s.tree t e := planted_of_malloc rfl kept
  obtain ⟨o, represents, nonneg, all⟩ := whole.tree
  have unused : s.tree.fresh ∉ o.ids := by
    intro member
    obtain ⟨n, here⟩ := represents.holds.present member
    simp [whole.fresh _ le_rfl] at here
  have edit : Edit s.tree.fresh o (.insert time e) _ := .insert o time e
  refine ⟨⟨_, edit.represents represents nonneg unused inserted, nonneg_insert _ Int.one_nonneg nonneg, fun a present => ?_⟩,
    fun a beyond => ?_⟩
  · rw [(perm_ids_insert ..).mem_iff, List.mem_cons]
    by_cases new : a = s.tree.fresh
    · exact .inl new
    · refine .inr (all a ?_)
      rw [ne_eq, Tree.mem_eq_none_iff, planted.owner, if_neg new] at present
      rwa [ne_eq, Tree.mem_eq_none_iff]
  · rw [planted.fresh] at beyond
    rw [Tree.mem_eq_none_iff, planted.owner, if_neg (Nat.ne_of_gt beyond), ← Tree.mem_eq_none_iff]
    exact whole.fresh a (Nat.le_of_succ_le beyond)

theorem represents_write {f : Node → Node} (represents : Represents t s) (p : Ptr)
    (like : ∀ n : Node, n.Like (f n)) : Ends (t.write p f) (Represents · s) := by
  refine ⟨fun t' done => ?_⟩
  unfold Tree.write at done
  split at done
  · cases done
  split at done
  · cases done
  next a _ n here =>
    cases done
    refine represents.like rfl fun b m at_ => ?_
    by_cases same : b = a
    · subst same
      cases here.symm.trans at_
      exact ⟨f n, Function.update_self .., like n⟩
    · exact ⟨m, (Function.update_of_ne same ..).trans at_, .refl m⟩

theorem represents_fixWeights (root : Ptr) (fuel : Nat) (represents : Represents t s) (node : Ptr) :
    Ends (fixWeights root fuel t node) (Represents · s) := by
  induction fuel generalizing t node with
  | zero =>
    unfold fixWeights
    split
    · exact ends_pure represents
    · exact ends_error
  | succ fuel ih =>
    unfold fixWeights
    split
    · exact ends_pure represents
    · refine .read fun n => .read fun m => ?_
      dsimp only
      split
      · refine Ends.bind (represents_write represents _ fun n => ?_) fun t₁ same => ih same ..
        exact ⟨rfl, fun side => by cases side <;> rfl, fun _ => rfl⟩
      · exact Ends.bind (ends_pure represents) fun t₁ same => ih same ..

theorem dropTreeNode_whole {cfg : Settings} {s s' : State} {e : ItemId} {node : NodeId}
    (whole : s.tree.Whole) (done : dropTreeNode cfg s e node = .ok s') : s'.tree.Whole := by
  obtain ⟨t₁, fixed, done⟩ := bind_eq_ok done
  obtain ⟨t, deleted, same⟩ := bind_eq_ok done
  cases same
  have kept := (keeps_fixWeights s.tree.root cfg.fuel (.refl s.tree) _).result t₁ fixed
  have pruned := (ends_deleteTreeNode cfg.fuel kept node).result t deleted
  obtain ⟨o, represents, nonneg, all⟩ := whole.tree
  have fixed := (represents_fixWeights _ _ represents _).result t₁ fixed
  have present : s.tree.mem node ≠ none := by
    obtain ⟨n, read, -⟩ := bind_eq_ok deleted
    rw [ne_eq, Tree.mem_eq_none_iff, ← kept.owner, ← Tree.mem_eq_none_iff]
    intro gone
    simp [Tree.node, gone] at read
  obtain ⟨c, member, rfl⟩ := List.mem_map.mp (all node present)
  obtain ⟨L, R, fs, rfl⟩ := exists_plug member
  obtain ⟨r, drops⟩ := exists_drops nonneg
  have edit : Edit t₁.fresh _ (.delete c.id) r := .delete drops
  have unused : t₁.fresh ∉ (plug (.node L c R) fs).ids := by
    intro member
    obtain ⟨n, here⟩ := represents.holds.present member
    simp [kept.fresh, whole.fresh _ le_rfl] at here
  refine ⟨⟨r, edit.represents fixed nonneg unused deleted, drops.nonneg nonneg, fun a present => ?_⟩,
    fun a beyond => ?_⟩
  · rw [ne_eq, Tree.mem_eq_none_iff, pruned.owner] at present
    split at present
    · exact absurd rfl present
    next other =>
      have before := all a (by rwa [ne_eq, Tree.mem_eq_none_iff])
      rw [ids_eq, ((records_delete drops c).1.map Prod.fst).mem_iff, List.map_cons, ← ids_eq] at before
      exact (List.mem_cons.mp before).resolve_left other
  · rw [pruned.fresh] at beyond
    rw [Tree.mem_eq_none_iff, pruned.owner, Tree.mem_eq_none_iff.mp (whole.fresh a beyond)]
    split <;> rfl

end MemExchange.Shadow
