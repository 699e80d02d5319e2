import MemExchange.Shadow.Sections

/-!
# The tree as a value

What the pointers of a tree stand for: an outline, whose labels are the nodes with the heights that
are recorded in them. An operation replaces a subtree and leaves the frames around it as they are.
-/
namespace MemExchange.Shadow

inductive Outline (α : Type) where
  | nil
  | node (l : Outline α) (a : α) (r : Outline α)
  deriving DecidableEq, Repr

namespace Outline

variable {α : Type}

/-- A node with `near` on the given side. -/
def join : Side → Outline α → α → Outline α → Outline α
  | .left, near, a, far => .node near a far
  | .right, near, a, far => .node far a near

def toList : Outline α → List α
  | .nil => []
  | .node l a r => l.toList ++ a :: r.toList

def size : Outline α → Nat
  | .nil => 0
  | .node l _ r => l.size + r.size + 1

end Outline

/-- A node on the way to a subtree, which hangs on the given side. -/
structure Frame (α : Type) where
  side : Side
  label : α
  sibling : Outline α

def Frame.around {α : Type} (f : Frame α) (s : Outline α) : Outline α :=
  .join f.side s f.label f.sibling

namespace Outline

variable {α : Type}

def plug : Outline α → List (Frame α) → Outline α
  | s, [] => s
  | s, f :: fs => plug (f.around s) fs

def before : List (Frame α) → List α
  | [] => []
  | ⟨.left, _, _⟩ :: fs => before fs
  | ⟨.right, a, s⟩ :: fs => before fs ++ (s.toList ++ [a])

def after : List (Frame α) → List α
  | [] => []
  | ⟨.left, a, s⟩ :: fs => a :: s.toList ++ after fs
  | ⟨.right, _, _⟩ :: fs => after fs

variable {s : Outline α} (side : Side) (near : Outline α) (far : Outline α) (a : α)

theorem join_other : join side.other near a far = join side far a near := by
  cases side <;> rfl

theorem exists_join (some : s ≠ .nil) : ∃ near a far, s = join side near a far := by
  cases s with
  | nil => exact absurd rfl some
  | node l a r =>
    cases side with
    | left => exact ⟨l, a, r, rfl⟩
    | right => exact ⟨r, a, l, rfl⟩

theorem join_ne_nil : join side near a far ≠ .nil := by
  cases side <;> exact fun never => by cases never

theorem toList_plug (s : Outline α) (fs : List (Frame α)) :
    (plug s fs).toList = before fs ++ (s.toList ++ after fs) := by
  induction fs generalizing s with
  | nil => simp [plug, before, after]
  | cons f fs ih =>
    obtain ⟨side, a, sibling⟩ := f
    rw [plug, ih]
    cases side <;> simp [Frame.around, join, toList, before, after]

theorem plug_ne_nil (full : s ≠ .nil) (fs : List (Frame α)) : plug s fs ≠ .nil := by
  induction fs generalizing s with
  | nil => exact full
  | cons f fs ih => exact ih (join_ne_nil _ _ _ _)

theorem plug_append (s : Outline α) (fs gs : List (Frame α)) :
    plug s (fs ++ gs) = plug (plug s fs) gs := by
  induction fs generalizing s with
  | nil => rfl
  | cons f fs ih => exact ih _

theorem exists_plug {a : α} (member : a ∈ s.toList) : ∃ l r fs, s = plug (.node l a r) fs := by
  induction s with
  | nil => cases member
  | node l b r ihl ihr =>
    simp only [toList, List.mem_append, List.mem_cons] at member
    rcases member with inLeft | here | inRight
    · obtain ⟨l', r', fs, same⟩ := ihl inLeft
      refine ⟨l', r', fs ++ [⟨.left, b, r⟩], ?_⟩
      rw [plug_append, ← same]
      rfl
    · exact ⟨l, r, [], by rw [here]; rfl⟩
    · obtain ⟨l', r', fs, same⟩ := ihr inRight
      refine ⟨l', r', fs ++ [⟨.right, b, l⟩], ?_⟩
      rw [plug_append, ← same]
      rfl

end Outline

/-! ### Nodes -/

/-- What is known of a node besides its pointers and its weight. -/
structure Cell where
  id : NodeId
  time : Timeval
  item : ItemId
  height : Int
  deriving DecidableEq, Repr

def Node.cell (a : NodeId) (n : Node) : Cell := ⟨a, n.time, n.shadowItem, n.height⟩

/-- A node that was inserted, with the time and the item it is ordered by. -/
abbrev Record := NodeId × Timeval × ItemId

def Cell.record (c : Cell) : Record := (c.id, c.time, c.item)

namespace Outline

def ptr : Outline Cell → Ptr
  | .nil => none
  | .node _ c _ => some c.id

/-- The height that `height` reads off a subtree. -/
def recorded : Outline Cell → Int
  | .nil => -1
  | .node _ c _ => c.height

def ids (s : Outline Cell) : List NodeId := s.toList.map Cell.id

def records (s : Outline Cell) : List Record := s.toList.map Cell.record

theorem ids_eq (s : Outline Cell) : s.ids = s.records.map Prod.fst := by
  rw [ids, records, List.map_map]
  rfl

def outer (fs : List (Frame Cell)) : List NodeId := (before fs ++ after fs).map Cell.id

def up : List (Frame Cell) → Ptr
  | [] => none
  | f :: _ => some f.label.id

variable {s : Outline Cell} {a : NodeId} {d : Side} {fs : List (Frame Cell)} (side : Side)
  (near : Outline Cell) (far : Outline Cell) (c : Cell)

@[simp] theorem ptr_join : (join side near c far).ptr = some c.id := by
  cases side <;> rfl

@[simp] theorem recorded_join : (join side near c far).recorded = c.height := by
  cases side <;> rfl

theorem ptr_eq_none : s.ptr = none ↔ s = .nil := by
  cases s <;> simp [ptr]

theorem mem_ids_of_ptr (top : s.ptr = some a) : a ∈ s.ids := by
  cases s with
  | nil => cases top
  | node l c r =>
    cases top
    simp [ids, toList]

theorem mem_ids_join {near far : Outline Cell} {c : Cell} :
    a ∈ (join d near c far).ids ↔ a = c.id ∨ a ∈ near.ids ∨ a ∈ far.ids := by
  cases d <;> simp only [ids, join, toList, List.map_append, List.map_cons, List.mem_append,
    List.mem_cons] <;> tauto

theorem mem_outer_cons {f : Frame Cell} :
    a ∈ outer (f :: fs) ↔ a = f.label.id ∨ a ∈ f.sibling.ids ∨ a ∈ outer fs := by
  obtain ⟨side, c, sibling⟩ := f
  cases side <;> simp only [outer, before, after, ids, List.map_append, List.map_cons,
    List.mem_append, List.mem_cons, List.map_nil, List.not_mem_nil, or_false] <;> tauto

def Distinct (s : Outline Cell) : Prop := s.ids.Nodup

theorem distinct_join {near far : Outline Cell} {c : Cell} :
    (join d near c far).Distinct ↔ near.Distinct ∧ far.Distinct ∧ c.id ∉ near.ids ∧
      c.id ∉ far.ids ∧ ∀ a ∈ near.ids, a ∉ far.ids := by
  have middle : ∀ xs ys : List NodeId, (xs ++ c.id :: ys).Nodup ↔
      xs.Nodup ∧ ys.Nodup ∧ c.id ∉ xs ∧ c.id ∉ ys ∧ ∀ a ∈ xs, a ∉ ys := by
    intro xs ys
    rw [List.nodup_middle, List.nodup_cons, List.mem_append, List.nodup_append']
    simp only [List.Disjoint]
    tauto
  unfold Distinct ids
  cases d with
  | left =>
    rw [join, toList, List.map_append, List.map_cons]
    exact middle ..
  | right =>
    rw [join, toList, List.map_append, List.map_cons, middle]
    constructor
    · rintro ⟨one, two, three, four, five⟩
      exact ⟨two, one, four, three, fun a inNear inFar => five a inFar inNear⟩
    · rintro ⟨one, two, three, four, five⟩
      exact ⟨two, one, four, three, fun a inFar inNear => five a inNear inFar⟩

theorem distinct_plug :
    (plug s fs).Distinct ↔ s.Distinct ∧ (outer fs).Nodup ∧ ∀ a ∈ s.ids, a ∉ outer fs := by
  have swap : ∀ xs ys zs : List NodeId, (xs ++ (ys ++ zs)).Nodup ↔
      ys.Nodup ∧ (xs ++ zs).Nodup ∧ ∀ a ∈ ys, a ∉ xs ++ zs := by
    intro xs ys zs
    rw [← List.append_assoc, (List.perm_append_comm.append_right zs).nodup_iff, List.append_assoc,
      List.nodup_append']
    simp only [List.Disjoint]
  unfold Distinct ids outer
  rw [toList_plug, List.map_append, List.map_append, List.map_append]
  exact swap ..

theorem mem_ids_plug : a ∈ (plug s fs).ids ↔ a ∈ s.ids ∨ a ∈ outer fs := by
  unfold ids outer
  rw [toList_plug]
  simp only [List.map_append, List.mem_append]
  tauto

end Outline

open Outline

/-! ### Memory -/

/-- The same node up to its weight. -/
structure Node.Like (n m : Node) : Prop where
  parent : m.parent = n.parent
  child : ∀ s, m.child s = n.child s
  cell : ∀ a, m.cell a = n.cell a

theorem Node.Like.refl (n : Node) : n.Like n := ⟨rfl, fun _ => rfl, fun _ => rfl⟩

/-- Memory has the node `c` with these pointers. -/
def NodeAt (t : Tree) (c : Cell) (parent : Ptr) (side : Side) (near far : Ptr) : Prop :=
  ∃ n, t.mem c.id = some n ∧ n.parent = parent ∧ n.child side = near ∧ n.child side.other = far ∧
    n.cell c.id = c

def Holds (t : Tree) : Ptr → Outline Cell → Prop
  | _, .nil => True
  | parent, .node l c r =>
    NodeAt t c parent .left l.ptr r.ptr ∧ Holds t (some c.id) l ∧ Holds t (some c.id) r

/-- Memory holds what is around a subtree, with a pointer to it. -/
def HoldsAround (t : Tree) (p : Ptr) : List (Frame Cell) → Prop
  | [] => t.root = p
  | f :: fs =>
    NodeAt t f.label (up fs) f.side p f.sibling.ptr ∧ Holds t (some f.label.id) f.sibling ∧
      HoldsAround t (some f.label.id) fs

section Memory

variable {t t' : Tree} {s : Outline Cell} {fs : List (Frame Cell)} {p q parent : Ptr} {side : Side}
  {near far : Outline Cell} {c : Cell}

theorem NodeAt.turn (here : NodeAt t c parent side p q) : NodeAt t c parent side.other q p := by
  obtain ⟨n, at_, above, close, away, cell⟩ := here
  refine ⟨n, at_, above, away, ?_, cell⟩
  cases side <;> exact close

theorem NodeAt.like {q : Ptr} (here : NodeAt t c parent side p q)
    (like : ∀ n, t.mem c.id = some n → ∃ m, t'.mem c.id = some m ∧ n.Like m) :
    NodeAt t' c parent side p q := by
  obtain ⟨n, at_, above, close, away, cell⟩ := here
  obtain ⟨m, at', same⟩ := like n at_
  exact ⟨m, at', by rw [same.parent, above], by rw [same.child, close], by rw [same.child, away],
    by rw [same.cell, cell]⟩

theorem holds_join : Holds t parent (join side near c far) ↔
    NodeAt t c parent side near.ptr far.ptr ∧ Holds t (some c.id) near ∧ Holds t (some c.id) far := by
  cases side with
  | left => exact Iff.rfl
  | right =>
    constructor
    · rintro ⟨here, one, two⟩
      exact ⟨here.turn, two, one⟩
    · rintro ⟨here, one, two⟩
      exact ⟨here.turn, two, one⟩

theorem Holds.like (holds : Holds t parent s)
    (like : ∀ a ∈ s.ids, ∀ n, t.mem a = some n → ∃ m, t'.mem a = some m ∧ n.Like m) :
    Holds t' parent s := by
  induction s generalizing parent with
  | nil => trivial
  | node l c r ihl ihr =>
    obtain ⟨here, left, right⟩ := holds
    have inside : ∀ a, a = c.id ∨ a ∈ l.ids ∨ a ∈ r.ids → a ∈ (Outline.node l c r).ids := fun a =>
      (mem_ids_join (d := .left)).mpr
    exact ⟨here.like (like c.id (inside _ (.inl rfl))),
      ihl left fun a member => like a (inside a (.inr (.inl member))),
      ihr right fun a member => like a (inside a (.inr (.inr member)))⟩

theorem Holds.congr (holds : Holds t parent s) (same : ∀ a ∈ s.ids, t'.mem a = t.mem a) :
    Holds t' parent s :=
  holds.like fun a member n at_ => ⟨n, by rw [same a member, at_], .refl n⟩

theorem Holds.reparent (holds : Holds t parent s) (distinct : s.Distinct) {above : Ptr}
    (top : ∀ a n, s.ptr = some a → t.mem a = some n → t'.mem a = some { n with parent := above })
    (rest : ∀ a ∈ s.ids, s.ptr ≠ some a → t'.mem a = t.mem a) : Holds t' above s := by
  cases s with
  | nil => trivial
  | node l c r =>
    obtain ⟨⟨n, at_, -, close, away, cell⟩, left, right⟩ := holds
    obtain ⟨-, -, outL, outR, -⟩ := (distinct_join (d := .left)).mp distinct
    refine ⟨⟨_, top c.id n rfl at_, rfl, ?_, ?_, cell⟩, left.congr fun a member => ?_,
      right.congr fun a member => ?_⟩
    · exact close
    · exact away
    · refine rest a ((mem_ids_join (d := .left)).mpr (.inr (.inl member))) fun same => ?_
      cases same
      exact outL member
    · refine rest a ((mem_ids_join (d := .left)).mpr (.inr (.inr member))) fun same => ?_
      cases same
      exact outR member

theorem HoldsAround.like (holds : HoldsAround t p fs) (root : t'.root = t.root)
    (like : ∀ a ∈ outer fs, ∀ n, t.mem a = some n → ∃ m, t'.mem a = some m ∧ n.Like m) :
    HoldsAround t' p fs := by
  induction fs generalizing p with
  | nil => exact root.trans holds
  | cons f fs ih =>
    obtain ⟨here, beside, above⟩ := holds
    exact ⟨here.like (like _ (mem_outer_cons.mpr (.inl rfl))),
      beside.like fun a member => like a (mem_outer_cons.mpr (.inr (.inl member))),
      ih above fun a member => like a (mem_outer_cons.mpr (.inr (.inr member)))⟩

theorem HoldsAround.congr (holds : HoldsAround t p fs) (root : t'.root = t.root)
    (same : ∀ a ∈ outer fs, t'.mem a = t.mem a) : HoldsAround t' p fs :=
  holds.like root fun a member n at_ => ⟨n, by rw [same a member, at_], .refl n⟩

theorem holds_plug : t.root = (plug s fs).ptr ∧ Holds t none (plug s fs) ↔
    HoldsAround t s.ptr fs ∧ Holds t (up fs) s := by
  induction fs generalizing s with
  | nil => exact Iff.rfl
  | cons f fs ih =>
    rw [plug, ih]
    unfold Frame.around
    rw [ptr_join, holds_join]
    constructor
    · rintro ⟨above, here, inside, beside⟩
      exact ⟨⟨here, beside, above⟩, inside⟩
    · rintro ⟨⟨here, beside, above⟩, inside⟩
      exact ⟨above, here, inside, beside⟩

theorem Holds.height (holds : Holds t parent s) : t.height s.ptr = .ok s.recorded := by
  cases s with
  | nil => rfl
  | node l c r =>
    obtain ⟨⟨n, at_, -, -, -, cell⟩, -, -⟩ := holds
    show t.height (some c.id) = _
    rw [Tree.height_ok at_]
    exact congrArg (fun c => Except.ok c.height) cell

end Memory

/-- Memory holds a subtree and what is around it, and all nodes are different. -/
structure Focus (t : Tree) (s : Outline Cell) (fs : List (Frame Cell)) : Prop where
  around : HoldsAround t s.ptr fs
  holds : Holds t (up fs) s
  distinct : (plug s fs).Distinct

abbrev Represents (t : Tree) (s : Outline Cell) : Prop := Focus t s []

section Focus

variable {t t' : Tree} {s : Outline Cell} {fs : List (Frame Cell)} {f : Frame Cell} {d : Side}
  {near far : Outline Cell} {c : Cell}

theorem focus_iff : Focus t s fs ↔ Represents t (plug s fs) := by
  constructor
  · rintro ⟨around, holds, distinct⟩
    obtain ⟨root, holds⟩ := holds_plug.mpr ⟨around, holds⟩
    exact ⟨root, holds, distinct⟩
  · rintro ⟨around, holds, distinct⟩
    obtain ⟨around, holds⟩ := holds_plug.mp ⟨around, holds⟩
    exact ⟨around, holds, distinct⟩

theorem focus_cons : Focus t s (f :: fs) ↔ Focus t (f.around s) fs := by
  rw [focus_iff, focus_iff (s := f.around s)]
  rfl

theorem focus_join : Focus t (join d near c far) fs ↔ Focus t near (⟨d, c, far⟩ :: fs) :=
  (focus_cons (f := ⟨d, c, far⟩)).symm

theorem Focus.inner (focus : Focus t s fs) :
    s.Distinct ∧ (outer fs).Nodup ∧ ∀ a ∈ s.ids, a ∉ outer fs :=
  distinct_plug.mp focus.distinct

theorem Focus.like (focus : Focus t s fs) (root : t'.root = t.root)
    (like : ∀ a n, t.mem a = some n → ∃ m, t'.mem a = some m ∧ n.Like m) : Focus t' s fs :=
  ⟨focus.around.like root fun a _ => like a, focus.holds.like fun a _ => like a, focus.distinct⟩

end Focus

end MemExchange.Shadow
