import MemExchange.Lib.Run
import MemExchange.Shadow.Fuel
import MemExchange.Shadow.Edits

/-!
# The tree as an index

A registry has the nodes that were inserted and not deleted; that the tree has these nodes, in the
order of `compare_nodes`, holds after every run. What an operation makes of an outline does not
depend on how much fuel there is, so the fuel a whole run needs can be named before it starts.
-/
namespace MemExchange.Shadow

open Outline

inductive TreeOp where
  /-- A new node is made by `new_tree_node` and given to `insert_tree_node`. -/
  | insert (time : Timeval) (item : ItemId)
  /-- A node is given to `delete_tree_node`. -/
  | delete (node : NodeId)
  deriving DecidableEq, Repr

def Tree.apply (fuel : Nat) (t : Tree) : TreeOp → Result Tree
  | .insert time item => insertTreeNode fuel (t.malloc { time, shadowItem := item }) t.fresh
  | .delete a => deleteTreeNode fuel t a

/-- One operation; `none` if it follows a null pointer, or a loop is out of fuel. -/
def Tree.step (fuel : Nat) (t : Tree) (op : TreeOp) : Option Tree := (t.apply fuel op).toOption

/-- The nodes below a pointer, from left to right. -/
def inorder : Nat → Tree → Ptr → Result (List (NodeId × Node))
  | _, _, none => .ok []
  | 0, _, some _ => .error .fuel
  | fuel + 1, t, some a => do
    let n ← t.node (some a)
    let left ← inorder fuel t n.left
    let right ← inorder fuel t n.right
    pure (left ++ (a, n) :: right)

/-- The nodes that were inserted and not deleted, with their times and items. -/
structure Registry where
  next : NodeId := 0
  live : List Record := []

namespace Registry

/-- A new node differs from the present ones, and only a present one is deleted. -/
def Allows (g : Registry) : TreeOp → Prop
  | .insert time item => ∀ r ∈ g.live,
      compareNodes { time := r.2.1, shadowItem := r.2.2 } { time, shadowItem := item } ≠ 0
  | .delete a => ∃ r ∈ g.live, r.1 = a

instance (g : Registry) : (op : TreeOp) → Decidable (g.Allows op)
  | .insert time item => inferInstanceAs (Decidable (∀ r ∈ g.live,
      compareNodes { time := r.2.1, shadowItem := r.2.2 } { time, shadowItem := item } ≠ 0))
  | .delete a => inferInstanceAs (Decidable (∃ r ∈ g.live, r.1 = a))

def apply (g : Registry) : TreeOp → Registry
  | .insert time item => ⟨g.next + 1, (g.next, time, item) :: g.live⟩
  | .delete a => { g with live := g.live.filter fun r => r.1 ≠ a }

def step (g : Registry) (op : TreeOp) : Option Registry :=
  if g.Allows op then some (g.apply op) else none

end Registry

variable {t t' : Tree} {s s' r L R : Outline Cell} {fs : List (Frame Cell)} {c : Cell} {g g' : Registry}
  {op : TreeOp} {fuel : Nat}

theorem Registry.step_eq_some (called : g.step op = some g') : g.Allows op ∧ g' = g.apply op := by
  unfold Registry.step at called
  split at called
  next allows =>
    cases called
    exact ⟨allows, rfl⟩
  next => cases called

/-! ### Order -/

def Record.stamp (r : Record) : Stamp := stampOf r.2.1 r.2.2

namespace Outline

def Sorted (s : Outline Cell) : Prop := s.toList.Pairwise fun c d => c.stamp < d.stamp

theorem sorted_iff : s.Sorted ↔ s.records.Pairwise fun p q => p.stamp < q.stamp := by
  unfold Sorted records
  rw [List.pairwise_map]
  rfl

theorem sorted_node {l : Outline Cell} : (Outline.node l c r).Sorted ↔ l.Sorted ∧ r.Sorted ∧
    (∀ d ∈ l.toList, d.stamp < c.stamp) ∧ (∀ d ∈ r.toList, c.stamp < d.stamp) ∧
      ∀ d ∈ l.toList, ∀ e ∈ r.toList, d.stamp < e.stamp := by
  unfold Sorted
  rw [toList, List.pairwise_append, List.pairwise_cons]
  constructor
  · rintro ⟨left, ⟨behind, right⟩, across⟩
    exact ⟨left, right, fun d member => across d member c List.mem_cons_self, behind,
      fun d member e member' => across d member e (List.mem_cons_of_mem _ member')⟩
  · rintro ⟨left, right, ahead, behind, across⟩
    refine ⟨left, ⟨behind, right⟩, fun d member e member' => ?_⟩
    rcases List.mem_cons.mp member' with rfl | member'
    · exact ahead d member
    · exact across d member e member'

theorem path_between (k : Stamp) (fs : List (Frame Cell)) (sorted : s.Sorted)
    (below : ∀ d ∈ before fs, d.stamp ≤ k) (above : ∀ d ∈ after fs, k < d.stamp) :
    (∀ d ∈ before (path k s fs), d.stamp ≤ k) ∧ ∀ d ∈ after (path k s fs), k < d.stamp := by
  induction s generalizing fs with
  | nil => exact ⟨below, above⟩
  | node l c r ihl ihr =>
    obtain ⟨left, right, ahead, behind, -⟩ := sorted_node.mp sorted
    rw [path]
    split
    next less =>
      refine ihl _ left below fun d member => ?_
      rcases List.mem_append.mp member with member | member
      · rcases List.mem_cons.mp member with rfl | member
        · exact less
        · exact less.trans (behind d member)
      · exact above d member
    next more =>
      have reached : c.stamp ≤ k := not_lt.mp more
      refine ihr _ right (fun d member => ?_) above
      rcases List.mem_append.mp member with member | member
      · exact below d member
      · rcases List.mem_append.mp member with member | member
        · exact (ahead d member).le.trans reached
        · rwa [List.mem_singleton.mp member]

end Outline

/-! ### Operations on outlines -/

inductive Edit (next : NodeId) : Outline Cell → TreeOp → Outline Cell → Prop
  | insert (s : Outline Cell) (time : Timeval) (item : ItemId) :
      Edit next s (.insert time item)
        (climb (.node .nil ⟨next, time, item, 1⟩ .nil) (path (stampOf time item) s []))
  | delete {L R r : Outline Cell} {c : Cell} {fs : List (Frame Cell)} (drops : Drops fs L R r) :
      Edit next (plug (.node L c R) fs) (.delete c.id) r

structure Indexes (s : Outline Cell) (g : Registry) : Prop where
  nonneg : s.Nonneg
  sorted : s.Sorted
  distinct : s.Distinct
  live : s.records.Perm g.live
  below : ∀ a ∈ s.ids, a < g.next

theorem indexes_empty : Indexes .nil {} where
  nonneg := fun _ never => (nomatch never)
  sorted := List.Pairwise.nil
  distinct := List.nodup_nil
  live := .refl _
  below := fun _ never => (nomatch never)

variable {more : Nat} {ops : List TreeOp} {p : Ptr} (k : Stamp)

theorem records_insert (c : Cell) (s : Outline Cell) :
    (climb (.node .nil c .nil) (path k s [])).records
      = (before (path k s [])).map Cell.record ++ c.record :: (after (path k s [])).map Cell.record ∧
    s.records = (before (path k s [])).map Cell.record ++ (after (path k s [])).map Cell.record := by
  constructor
  · rw [records_climb, records, toList_plug]
    simp [toList]
  · have whole := congrArg records (plug_path k s [])
    rw [records, toList_plug] at whole
    rw [show s.records = (plug s []).records from rfl, ← whole]
    simp [toList]

theorem perm_records_insert (c : Cell) (s : Outline Cell) :
    (climb (.node .nil c .nil) (path k s [])).records.Perm (c.record :: s.records) := by
  obtain ⟨grown, old⟩ := records_insert k c s
  rw [grown, old]
  exact List.perm_middle

theorem perm_ids_insert (c : Cell) (s : Outline Cell) :
    (climb (.node .nil c .nil) (path k s [])).ids.Perm (c.id :: s.ids) := by
  rw [ids_eq, ids_eq]
  exact (perm_records_insert k c s).map Prod.fst

theorem nonneg_insert (height : 0 ≤ c.height) (nonneg : s.Nonneg) :
    (climb (.node .nil c .nil) (path k s [])).Nonneg := by
  refine nonneg_climb (nonneg_plug.mpr ⟨fun d member => ?_, ?_⟩)
  · rwa [List.mem_singleton.mp member]
  · have whole : (plug .nil (path k s [])).Nonneg := (plug_path k s []).symm ▸ nonneg
    exact (nonneg_plug.mp whole).2

theorem Indexes.insert (indexes : Indexes s g) {time : Timeval} {item : ItemId}
    (allows : g.Allows (.insert time item)) :
    Indexes (climb (.node .nil ⟨g.next, time, item, 1⟩ .nil) (path (stampOf time item) s []))
      (g.apply (.insert time item)) := by
  have other : ∀ d ∈ s.toList, d.stamp ≠ stampOf time item := by
    intro d member same
    have present : d.record ∈ g.live := indexes.live.mem_iff.mp (List.mem_map_of_mem member)
    exact allows _ present ((compareNodes_eq_iff _ _).mpr same)
  obtain ⟨grown, old⟩ := records_insert (stampOf time item) ⟨g.next, time, item, 1⟩ s
  have order := perm_records_insert (stampOf time item) ⟨g.next, time, item, 1⟩ s
  have names := perm_ids_insert (stampOf time item) ⟨g.next, time, item, 1⟩ s
  have nonneg := nonneg_insert (stampOf time item) (c := ⟨g.next, time, item, 1⟩) Int.one_nonneg
    indexes.nonneg
  obtain ⟨below, above⟩ := path_between (stampOf time item) [] indexes.sorted
    (fun _ never => (nomatch never)) (fun _ never => (nomatch never))
  have whole : s.toList = before (path (stampOf time item) s []) ++ after (path (stampOf time item) s []) := by
    have := congrArg toList (plug_path (stampOf time item) s [])
    rw [toList_plug] at this
    exact this.symm
  generalize path (stampOf time item) s [] = gs at *
  have outside : g.next ∉ s.ids := fun member => lt_irrefl _ (indexes.below _ member)
  refine ⟨nonneg, ?_, ?_, ?_, ?_⟩
  · rw [sorted_iff, grown, List.pairwise_append, List.pairwise_cons]
    have sorted := sorted_iff.mp indexes.sorted
    rw [old, List.pairwise_append] at sorted
    have ahead : ∀ d ∈ before gs, d.stamp < stampOf time item := fun d member =>
      lt_of_le_of_ne (below d member) (other d (by rw [whole]; exact List.mem_append_left _ member))
    refine ⟨sorted.1, ⟨?_, sorted.2.1⟩, fun p first q second => ?_⟩
    · intro q second
      obtain ⟨d, member, rfl⟩ := List.mem_map.mp second
      exact above d member
    · rcases List.mem_cons.mp second with rfl | second
      · obtain ⟨d, member, rfl⟩ := List.mem_map.mp first
        exact ahead d member
      · exact sorted.2.2 p first q second
  · exact names.nodup_iff.mpr (List.nodup_cons.mpr ⟨outside, indexes.distinct⟩)
  · exact order.trans (indexes.live.cons _)
  · intro a member
    rcases List.mem_cons.mp (names.mem_iff.mp member) with rfl | member
    · exact Nat.lt_succ_self _
    · exact Nat.lt_succ_of_lt (indexes.below a member)

theorem records_delete (drops : Drops fs L R r) (c : Cell) :
    (plug (.node L c R) fs).records.Perm (c.record :: r.records) ∧
      r.records.Sublist (plug (.node L c R) fs).records := by
  obtain ⟨s, rest, same⟩ := drops.rest
  rw [same]
  unfold records
  rw [toList_plug, toList_plug, rest, toList]
  constructor
  · rw [← List.map_cons]
    refine List.Perm.map _ ?_
    simp only [List.append_assoc, List.cons_append]
    rw [← List.append_assoc, ← List.append_assoc (before fs)]
    exact List.perm_middle
  · refine List.Sublist.map _ ?_
    refine (List.Sublist.refl _).append (List.Sublist.append ?_ (List.Sublist.refl _))
    exact (List.Sublist.refl _).append (List.sublist_cons_self _ _)

theorem Indexes.delete (indexes : Indexes (plug (.node L c R) fs) g) (drops : Drops fs L R r) :
    Indexes r (g.apply (.delete c.id)) := by
  obtain ⟨order, fewer⟩ := records_delete drops c
  have distinct := indexes.distinct
  unfold Distinct at distinct
  rw [ids_eq, (order.map Prod.fst).nodup_iff, List.map_cons, ← ids_eq, List.nodup_cons] at distinct
  refine ⟨drops.nonneg indexes.nonneg, ?_, distinct.2, ?_, fun a member => indexes.below a ?_⟩
  · exact sorted_iff.mpr ((sorted_iff.mp indexes.sorted).sublist fewer)
  · have kept := (order.symm.trans indexes.live).filter fun r => decide (r.1 ≠ c.id)
    rw [List.filter_cons_of_neg (by simp [Cell.record]), List.filter_eq_self.mpr] at kept
    · exact kept
    · intro p member
      refine decide_eq_true fun same => distinct.1 ?_
      rw [ids_eq, show c.record.1 = p.1 from same.symm]
      exact List.mem_map_of_mem member
  · rw [ids_eq] at member ⊢
    exact (fewer.map Prod.fst).subset member

theorem Edit.indexes (edit : Edit g.next s op s') (indexes : Indexes s g) (allows : g.Allows op) :
    Indexes s' (g.apply op) := by
  cases edit with
  | insert => exact indexes.insert allows
  | delete drops => exact indexes.delete drops

theorem exists_edit (indexes : Indexes s g) (allows : g.Allows op) : ∃ s', Edit g.next s op s' := by
  cases op with
  | insert time item => exact ⟨_, .insert s time item⟩
  | delete node =>
    obtain ⟨p, present, rfl⟩ := allows
    obtain ⟨c, member, rfl⟩ := List.mem_map.mp (indexes.live.mem_iff.mpr present)
    obtain ⟨L, R, fs, rfl⟩ := exists_plug member
    obtain ⟨r, drops⟩ := exists_drops indexes.nonneg
    exact ⟨r, .delete drops⟩

/-! ### Runs -/

theorem fresh_apply (same : t.fresh = g.next) (done : t.apply fuel op = .ok t') :
    t'.fresh = (g.apply op).next := by
  cases op with
  | insert time item =>
    rw [((keeps_insertTreeNode fuel _ _).result t' done).fresh]
    exact congrArg (· + 1) same
  | delete a => exact ((ends_deleteTreeNode fuel (.refl t) a).result t' done).fresh.trans same

theorem extends_apply (le : fuel ≤ more) (t : Tree) (op : TreeOp) :
    Extends (t.apply fuel op) (t.apply more op) := by
  cases op with
  | insert => exact extends_insertTreeNode le ..
  | delete => exact extends_deleteTreeNode le ..

theorem Tree.step_mono (le : fuel ≤ more) (t : Tree) (op : TreeOp) (t' : Tree)
    (called : t.step fuel op = some t') : t.step more op = some t' := by
  rw [Tree.step, (extends_apply le t op).result t' (toOption_eq_some called)]
  rfl

theorem Edit.runs {next : NodeId} (edit : Edit next s op s') (nonneg : s.Nonneg)
    (unused : next ∉ s.ids) :
    ∃ enough, ∀ fuel, enough ≤ fuel → ∀ t, Represents t s → t.fresh = next →
      ∃ t', t.apply fuel op = .ok t' ∧ Represents t' s' := by
  cases edit with
  | insert _ time item =>
    refine ⟨s.size, fun fuel enough t represents fresh => ?_⟩
    subst fresh
    have kept : Represents (t.malloc { time, shadowItem := item }) s := by
      refine ⟨represents.around, represents.holds.congr fun a member => ?_, represents.distinct⟩
      refine Function.update_of_ne ?_ _ _
      rintro rfl
      exact unused member
    have here : (t.malloc { time, shadowItem := item }).mem t.fresh
        = some { time, shadowItem := item } := Function.update_self ..
    exact insertTreeNode_spec kept here (fun side => by cases side <;> rfl) unused enough
  | delete drops =>
    obtain ⟨steps, deletes⟩ := deleteTreeNode_spec drops nonneg
    exact ⟨steps, fun fuel enough t represents _ => deletes fuel enough t (focus_iff.mpr represents)⟩

/-- A run from a tree that has the nodes of the registry. What each operation keeps of the outline
under a condition, a run keeps if all its operations meet the condition. -/
theorem run_spec {P : Outline Cell → Prop} {C : Tree → TreeOp → Prop}
    (keeps : ∀ t s g op s', Represents t s → t.fresh = g.next → Indexes s g → P s → C t op →
      Edit g.next s op s' → P s') (indexes : Indexes s g)
    (valid : Run.exec Registry.step g ops = some g') :
    ∃ enough, ∀ fuel, enough ≤ fuel → ∀ t, Represents t s → t.fresh = g.next → P s →
      Run.Along (Tree.step fuel) C t ops →
      ∃ t' s', Run.exec (Tree.step fuel) t ops = some t' ∧ Represents t' s' ∧ Indexes s' g' ∧
        P s' := by
  induction ops generalizing s g with
  | nil =>
    cases valid
    exact ⟨0, fun fuel _ t represents _ good _ => ⟨t, s, rfl, represents, indexes, good⟩⟩
  | cons op ops ih =>
    obtain ⟨g₁, called, onward⟩ := Option.bind_eq_some_iff.mp valid
    obtain ⟨allows, rfl⟩ := Registry.step_eq_some called
    obtain ⟨s₁, edit⟩ := exists_edit indexes allows
    obtain ⟨first, runs⟩ := edit.runs indexes.nonneg fun member => lt_irrefl _ (indexes.below _ member)
    obtain ⟨later, rest⟩ := ih (edit.indexes indexes allows) onward
    refine ⟨max first later, fun fuel enough t represents fresh good along => ?_⟩
    obtain ⟨t₁, applied, represents₁⟩ := runs fuel (le_of_max_le_left enough) t represents fresh
    have stepped : t.step fuel op = some t₁ := by rw [Tree.step, applied]; rfl
    rw [Run.exec_cons, stepped, Option.bind_some]
    exact rest fuel (le_of_max_le_right enough) t₁ represents₁ (fresh_apply fresh applied)
      (keeps t s g op s₁ represents fresh indexes good along.1 edit) (along.2 t₁ stepped)

/-! ### The traversal -/

theorem inorder_spec (holds : Holds t p s) (enough : s.size ≤ fuel) :
    ∃ nodes, inorder fuel t s.ptr = .ok nodes ∧ nodes.map (fun q => q.2.cell q.1) = s.toList ∧
      ∀ q ∈ nodes, t.mem q.1 = some q.2 := by
  induction s generalizing p fuel with
  | nil => exact ⟨[], by cases fuel <;> rfl, rfl, fun _ never => (nomatch never)⟩
  | node l c r ihl ihr =>
    rw [size] at enough
    obtain ⟨fuel, rfl⟩ : ∃ k, fuel = k + 1 := ⟨fuel - 1, by omega⟩
    obtain ⟨⟨n, here, -, isLeft, isRight, cell⟩, left, right⟩ := holds
    obtain ⟨ls, doneL, cellsL, readL⟩ := ihl left (show l.size ≤ fuel by omega)
    obtain ⟨rs, doneR, cellsR, readR⟩ := ihr right (show r.size ≤ fuel by omega)
    refine ⟨ls ++ (c.id, n) :: rs, ?_, ?_, fun q member => ?_⟩
    · show inorder (fuel + 1) t (some c.id) = _
      rw [inorder, Tree.node_ok here, ok_bind, show n.left = l.ptr from isLeft, doneL, ok_bind,
        show n.right = r.ptr from isRight, doneR, ok_bind]
      rfl
    · rw [List.map_append, List.map_cons, cellsL, cellsR, cell]
      rfl
    · rcases List.mem_append.mp member with member | member
      · exact readL q member
      · rcases List.mem_cons.mp member with rfl | member
        · exact here
        · exact readR q member

theorem Holds.parent_of_ptr {a : NodeId} (holds : Holds t p s) (top : s.ptr = some a) :
    ∃ n, t.mem a = some n ∧ n.parent = p := by
  cases s with
  | nil => cases top
  | node l c r =>
    cases top
    obtain ⟨⟨n, here, above, -⟩, -⟩ := holds
    exact ⟨n, here, above⟩

theorem Holds.parent_of_child {a b : NodeId} {n : Node} {side : Side} (holds : Holds t p s)
    (member : a ∈ s.ids) (here : t.mem a = some n) (child : n.child side = some b) :
    b ∈ s.ids ∧ ∃ m, t.mem b = some m ∧ m.parent = some a := by
  induction s generalizing p with
  | nil => cases member
  | node l c r ihl ihr =>
    obtain ⟨⟨n', here', -, isLeft, isRight, -⟩, left, right⟩ := holds
    have inside : ∀ d, d ∈ l.ids ∨ d ∈ r.ids → d ∈ (Outline.node l c r).ids := fun d member =>
      (mem_ids_join (d := .left)).mpr (.inr member)
    rcases (mem_ids_join (d := .left)).mp member with rfl | inL | inR
    · rw [here'] at here
      cases here
      cases side with
      | left =>
        have top := isLeft.symm.trans child
        exact ⟨inside b (.inl (mem_ids_of_ptr top)), left.parent_of_ptr top⟩
      | right =>
        have top := isRight.symm.trans child
        exact ⟨inside b (.inr (mem_ids_of_ptr top)), right.parent_of_ptr top⟩
    · obtain ⟨below, above⟩ := ihl left inL
      exact ⟨inside b (.inl below), above⟩
    · obtain ⟨below, above⟩ := ihr right inR
      exact ⟨inside b (.inr below), above⟩

theorem size_eq (s : Outline Cell) : s.size = s.records.length := by
  rw [records, List.length_map]
  induction s with
  | nil => rfl
  | node l c r ihl ihr =>
    rw [size, toList, List.length_append, List.length_cons, ihl, ihr]
    omega

/-- The nodes of a traversal are those that are live, in the order of `compare_nodes`, and the
pointers of children to their parents are right. -/
structure IsIndex (t : Tree) (nodes : List (NodeId × Node)) (live : List Record) : Prop where
  sorted : nodes.Pairwise fun p q => compareNodes p.2 q.2 < 0
  live : (nodes.map fun p => (p.1, p.2.time, p.2.shadowItem)).Perm live
  parent : ∀ p ∈ nodes, ∀ side a, p.2.child side = some a →
    ∃ n, (a, n) ∈ nodes ∧ n.parent = some p.1
  root : ∀ a, t.root = some a → ∃ n, (a, n) ∈ nodes ∧ n.parent = none

theorem Indexes.isIndex (indexes : Indexes s g) (represents : Represents t s)
    (enough : g.live.length ≤ fuel) :
    ∃ nodes, inorder fuel t t.root = .ok nodes ∧ IsIndex t nodes g.live := by
  have size : s.size ≤ fuel := by
    rwa [size_eq, indexes.live.length_eq]
  obtain ⟨nodes, done, cells, read⟩ := inorder_spec represents.holds size
  have records : nodes.map (fun p => (p.1, p.2.time, p.2.shadowItem)) = s.records := by
    rw [Outline.records, ← cells, List.map_map]
    rfl
  have ids : nodes.map Prod.fst = s.ids := by
    rw [Outline.ids, ← cells, List.map_map]
    rfl
  -- a node of the tree is one of the traversal, with what memory has for it
  have visited : ∀ a n, a ∈ s.ids → t.mem a = some n → (a, n) ∈ nodes := by
    intro a n member here
    rw [← ids] at member
    obtain ⟨q, inside, rfl⟩ := List.mem_map.mp member
    rw [read q inside] at here
    cases here
    exact inside
  refine ⟨nodes, by rw [show t.root = s.ptr from represents.around, done], ?_, ?_, ?_, ?_⟩
  · have sorted := indexes.sorted
    rw [Sorted, ← cells, List.pairwise_map] at sorted
    exact sorted.imp fun less => (compareNodes_lt_iff _ _).mpr less
  · rw [records]
    exact indexes.live
  · intro p member side a child
    have inside : p.1 ∈ s.ids := ids ▸ List.mem_map_of_mem member
    obtain ⟨below, m, here, above⟩ := represents.holds.parent_of_child inside (read p member) child
    exact ⟨m, visited a m below here, above⟩
  · intro a top
    rw [show t.root = s.ptr from represents.around] at top
    obtain ⟨n, here, above⟩ := represents.holds.parent_of_ptr top
    exact ⟨n, visited a n (mem_ids_of_ptr top) here, above⟩

theorem represents_empty : Represents {} .nil := ⟨rfl, trivial, List.nodup_nil⟩

theorem run_indexes (valid : Run.exec Registry.step {} ops = some g) :
    ∃ enough, ∀ fuel, enough ≤ fuel →
      ∃ t s, Run.exec (Tree.step fuel) {} ops = some t ∧ Represents t s ∧ Indexes s g := by
  obtain ⟨enough, run⟩ := run_spec (P := fun _ => True) (C := fun _ _ => True)
    (fun _ _ _ _ _ _ _ _ _ _ _ => trivial) indexes_empty valid
  refine ⟨enough, fun fuel large => ?_⟩
  have along : Run.Along (Tree.step fuel) (fun _ _ => True) {} ops :=
    (Run.along_iff ..).mpr fun _ _ _ _ _ _ => trivial
  obtain ⟨t, s, done, represents, indexes, -⟩ :=
    run fuel large {} represents_empty rfl trivial along
  exact ⟨t, s, done, represents, indexes⟩

/-- After every run of insertions of new nodes and deletions of present ones the tree is an index of
the nodes that were inserted and not deleted. No operation of the run follows a null pointer. -/
theorem tree_is_sorted_index (valid : Run.exec Registry.step {} ops = some g) :
    ∃ enough, ∀ fuel, enough ≤ fuel → ∃ t nodes, Run.exec (Tree.step fuel) {} ops = some t ∧
      inorder fuel t t.root = .ok nodes ∧ IsIndex t nodes g.live := by
  obtain ⟨enough, run⟩ := run_indexes valid
  refine ⟨max enough g.live.length, fun fuel large => ?_⟩
  obtain ⟨t, s, done, represents, indexes⟩ := run fuel (le_of_max_le_left large)
  obtain ⟨nodes, walked, index⟩ := indexes.isIndex represents (le_of_max_le_right large)
  exact ⟨t, nodes, done, walked, index⟩

/-- Four nodes with a rotation, and a deletion with a successor. -/
theorem four_nodes_indexed :
    Run.exec Registry.step {} [.insert ⟨5, 0⟩ 0, .insert ⟨3, 0⟩ 1, .insert ⟨1, 0⟩ 2, .insert ⟨4, 0⟩ 3,
      .delete 1] = some ⟨4, [(3, ⟨4, 0⟩, 3), (2, ⟨1, 0⟩, 2), (0, ⟨5, 0⟩, 0)]⟩ ∧
    ∃ enough, ∀ fuel, enough ≤ fuel → ∃ t nodes,
      Run.exec (Tree.step fuel) {} [.insert ⟨5, 0⟩ 0, .insert ⟨3, 0⟩ 1, .insert ⟨1, 0⟩ 2,
        .insert ⟨4, 0⟩ 3, .delete 1] = some t ∧
      inorder fuel t t.root = .ok nodes ∧
      IsIndex t nodes [(3, ⟨4, 0⟩, 3), (2, ⟨1, 0⟩, 2), (0, ⟨5, 0⟩, 0)] :=
  ⟨rfl, tree_is_sorted_index (g := ⟨4, [(3, ⟨4, 0⟩, 3), (2, ⟨1, 0⟩, 2), (0, ⟨5, 0⟩, 0)]⟩) rfl⟩

/-- **The loop of `delete_fixup` ends** from every node of a tree that insertions and deletions have
led to, and wherever the deletion of a node calls it. -/
theorem delete_fixup_ends (valid : Run.exec Registry.step {} ops = some g) :
    ∃ enough, ∀ fuel, enough ≤ fuel → ∃ t, Run.exec (Tree.step fuel) {} ops = some t ∧
      ∀ r ∈ g.live, ∃ rounds, ∀ more, rounds ≤ more →
        (∃ t', deleteFixup more t (some r.1) = .ok t') ∧
        ∃ t', deleteTreeNode more t r.1 = .ok t' := by
  obtain ⟨enough, run⟩ := run_indexes valid
  refine ⟨enough, fun fuel large => ?_⟩
  obtain ⟨t, s, done, represents, indexes⟩ := run fuel large
  refine ⟨t, done, fun r live => ?_⟩
  obtain ⟨c, member, rfl⟩ := List.mem_map.mp (indexes.live.mem_iff.mpr live)
  obtain ⟨L, R, fs, rfl⟩ := exists_plug member
  have focus := focus_iff.mpr represents
  obtain ⟨r, settles⟩ := exists_settles fs (.node L c R) (by simp) indexes.nonneg
  obtain ⟨rounds, fixup⟩ := deleteFixup_spec settles (by simp) indexes.nonneg
  obtain ⟨r', drops⟩ := exists_drops indexes.nonneg
  obtain ⟨steps, deletes⟩ := deleteTreeNode_spec drops indexes.nonneg
  refine ⟨max rounds steps, fun more many => ⟨?_, ?_⟩⟩
  · obtain ⟨t', fixed, -⟩ := fixup more (le_of_max_le_left many) t focus
    exact ⟨t', fixed⟩
  · obtain ⟨t', deleted, -⟩ := deletes more (le_of_max_le_right many) t focus
    exact ⟨t', deleted⟩

/-- A tree in which the deletion of node 1 makes `delete_fixup` turn the root. -/
def sevenNodes : List TreeOp :=
  [.insert ⟨4, 0⟩ 0, .insert ⟨2, 0⟩ 1, .insert ⟨6, 0⟩ 2, .insert ⟨1, 0⟩ 3, .insert ⟨5, 0⟩ 4,
    .insert ⟨7, 0⟩ 5, .insert ⟨8, 0⟩ 6]

theorem delete_fixup_ends_with_rotation : ∃ g, Run.exec Registry.step {} sevenNodes = some g ∧
    (1, ⟨2, 0⟩, 1) ∈ g.live ∧
    (Run.exec (Tree.step 9) {} sevenNodes).map Tree.root = some (some 0) ∧
    (Run.exec (Tree.step 9) {} (sevenNodes ++ [.delete 1])).map Tree.root = some (some 2) ∧
    ∃ enough, ∀ fuel, enough ≤ fuel → ∃ t, Run.exec (Tree.step fuel) {} sevenNodes = some t ∧
      ∀ r ∈ g.live, ∃ rounds, ∀ more, rounds ≤ more →
        (∃ t', deleteFixup more t (some r.1) = .ok t') ∧ ∃ t', deleteTreeNode more t r.1 = .ok t' :=
  ⟨_, rfl, by decide, by decide +kernel, by decide +kernel, delete_fixup_ends rfl⟩

end MemExchange.Shadow
