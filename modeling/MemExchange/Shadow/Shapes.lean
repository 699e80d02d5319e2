import MemExchange.Shadow.Tree

/-!
# Trees of up to three nodes

With times that strictly increase a new node goes to the right end of the tree. Up to two
nodes that is a chain. The third node makes the root rotate, and the rotation leaves the weight
of the node that goes down as it was: two, for a node with nothing on its right.
-/
namespace MemExchange.Shadow

/-! ### Times -/

theorem Timeval.before_irrefl (a : Timeval) : a.before a = false := by simp [Timeval.before]

theorem Timeval.before_of_seen {now time old : Timeval} (later : now.before time = true)
    (seen : now.before old = false) : old.before time = true := by
  simp only [Timeval.before] at later seen ⊢
  split at later <;> split at seen <;> simp only [decide_eq_true_eq,
    decide_eq_false_iff_not] at later seen <;> split <;> simp only [decide_eq_true_eq] <;> omega

theorem Timeval.not_before_of_before {a b : Timeval} (before : a.before b = true) :
    b.before a = false := by
  simp only [Timeval.before] at before ⊢
  split at before <;> split <;> simp only [decide_eq_true_eq,
    decide_eq_false_iff_not] at before ⊢ <;> omega

theorem compareNodes_of_before {n m : Node} (older : m.time.before n.time = true) :
    ¬ compareNodes n m < 0 := by
  simp only [Timeval.before] at older
  unfold compareNodes
  split at older <;> simp only [decide_eq_true_eq] at older <;> (repeat' split) <;> omega

/-! ### Reading and writing -/

variable {t t' : Tree} {a b : NodeId} {n : Node}

@[simp] theorem ok_bind {α β : Type} (x : α) (f : α → Result β) :
    ((Except.ok x : Result α) >>= f) = f x := rfl

theorem bind_eq_ok {α β : Type} {r : Result α} {f : α → Result β} {y : β}
    (done : (r >>= f) = .ok y) : ∃ x, r = .ok x ∧ f x = .ok y := by
  cases r with
  | error fault => cases done
  | ok x => exact ⟨x, rfl, done⟩

namespace Tree

theorem node_ok (here : t.mem a = some n) : t.node (some a) = .ok n := by
  simp [node, here]

@[simp] theorem height_none : t.height none = .ok (-1) := rfl

theorem height_ok (here : t.mem a = some n) : t.height (some a) = .ok n.height := by
  rw [height, node_ok here]
  rfl

structure Wrote (t t' : Tree) (a : NodeId) (n : Node) : Prop where
  root : t'.root = t.root
  fresh : t'.fresh = t.fresh
  here : t'.mem a = some n
  rest : ∀ b, b ≠ a → t'.mem b = t.mem b

section

variable (here : t.mem a = some n)
include here

theorem write_ok (f : Node → Node) : ∃ t', t.write (some a) f = .ok t' ∧ Wrote t t' a (f n) := by
  refine ⟨{ t with mem := Function.update t.mem a (some (f n)) }, ?_, rfl, rfl, ?_, ?_⟩
  · simp [write, here]
  · simp
  · intro b other
    simp [other]

theorem fixHeight_ok {l r : Int} (left : t.height n.left = .ok l)
    (right : t.height n.right = .ok r) :
    ∃ t', t.fixHeight (some a) = .ok t' ∧ Wrote t t' a { n with height := 1 + max l r } := by
  obtain ⟨t', eq, wrote⟩ := write_ok here fun n => { n with height := 1 + max l r }
  refine ⟨t', ?_, wrote⟩
  rw [fixHeight, node_ok here, ok_bind, left, ok_bind, right, ok_bind, eq]

theorem balanceFactor_ok {l r : Int} (left : t.height n.left = .ok l)
    (right : t.height n.right = .ok r) : t.balanceFactor (some a) = .ok (l - r) := by
  rw [balanceFactor, node_ok here, ok_bind, left, ok_bind, right, ok_bind]
  rfl

end

theorem malloc_here (n : Node) : (t.malloc n).mem t.fresh = some n := by simp [malloc]

theorem malloc_rest (n : Node) (known : a < t.fresh) : (t.malloc n).mem a = t.mem a := by
  have other : a ≠ t.fresh := Nat.ne_of_lt known
  simp [malloc, other]

end Tree

/-! ### The shapes -/

/-- The tree over a queue of at most three items, newest first. Every node has been seen by
`now`. -/
inductive Shaped (now : Timeval) (t : Tree) : List (ItemId × NodeId) → Prop
  | empty (root : t.root = none) : Shaped now t []
  | one {e : ItemId} {a : NodeId} {time : Timeval} {height : Int} (root : t.root = some a)
      (first : t.mem a = some { time, shadowItem := e, height }) (known : a < t.fresh)
      (seen : now.before time = false) : Shaped now t [(e, a)]
  | two {e f : ItemId} {a b : NodeId} {time time' : Timeval} (root : t.root = some a)
      (first : t.mem a =
        some { right := some b, time, shadowItem := e, weight := 1, height := 2 })
      (second : t.mem b = some { parent := some a, time := time', shadowItem := f })
      (apart : a ≠ b) (known : a < t.fresh) (known' : b < t.fresh)
      (seen : now.before time = false) (seen' : now.before time' = false) :
      Shaped now t [(f, b), (e, a)]
  | three {e f g : ItemId} {a b c : NodeId} {time time' time'' : Timeval}
      (root : t.root = some b)
      (first : t.mem a =
        some { parent := some b, time, shadowItem := e, weight := 2, height := 0 })
      (second : t.mem b = some
        { left := some a, right := some c, time := time', shadowItem := f, weight := 1, height := 2 })
      (third : t.mem c = some { parent := some b, time := time'', shadowItem := g })
      (apart : a ≠ b) (apart' : a ≠ c) (apart'' : b ≠ c) (known' : b < t.fresh)
      (known'' : c < t.fresh) (seen' : now.before time' = false)
      (seen'' : now.before time'' = false) : Shaped now t [(g, c), (f, b), (e, a)]

/-! ### Insertion -/

section Insertion

variable {now time : Timeval} {e f g : ItemId} {m : Node} (fuel : Nat)

theorem insert_empty (time : Timeval) (e : ItemId) (root : t.root = none) :
    ∃ t', insertTreeNode fuel (t.malloc { time, shadowItem := e }) t.fresh = .ok t' ∧
      Shaped time t' [(e, t.fresh)] := by
  have here := Tree.malloc_here (t := t) { time, shadowItem := e }
  have empty : (t.malloc { time, shadowItem := e }).root = none := root
  have above : t.fresh < (t.malloc { time, shadowItem := e }).fresh := Nat.lt_succ_self _
  generalize t.malloc { time, shadowItem := e } = t₁ at here empty above
  obtain ⟨t₂, eq, wrote⟩ := Tree.write_ok here fun m => { m with parent := none }
  refine ⟨{ t₂ with root := some t.fresh }, ?_, .one rfl wrote.here ?_ time.before_irrefl⟩
  · rw [insertTreeNode, Tree.node_ok here, ok_bind, empty, descend, ok_bind]
    dsimp only
    rw [eq, ok_bind, pure_bind, rebalance]
  · rwa [← wrote.fresh] at above

/-- The middle of `insert_tree_node`: the descent has ended at `p`, which is older, and the node
is hung on its right. What is left is the climb from `p`. -/
theorem insertTreeNode_right {fuel : Nat} {t₁ : Tree} {p c : NodeId} {new : Node}
    (here : t.mem c = some new) (descended : descend new fuel t none t.root = .ok (t₁, some p))
    (here₁ : t₁.mem c = some new) (above : t₁.mem p = some m) (apart : p ≠ c)
    (older : m.time.before new.time = true) :
    ∃ t₂, insertTreeNode fuel t c = rebalance fuel t₂ (some p) (some c) ∧
      t₂.root = t₁.root ∧ t₂.fresh = t₁.fresh ∧ t₂.mem p = some { m with right := some c } ∧
      t₂.mem c = some { new with parent := some p } ∧
      ∀ b, b ≠ p → b ≠ c → t₂.mem b = t₁.mem b := by
  obtain ⟨t₂, eq₂, wrote₂⟩ := Tree.write_ok here₁ fun m => { m with parent := some p }
  have above₂ := (wrote₂.rest _ apart).trans above
  obtain ⟨t₃, eq₃, wrote₃⟩ := Tree.write_ok above₂ fun m => { m with right := some c }
  refine ⟨t₃, ?_, wrote₃.root.trans wrote₂.root, wrote₃.fresh.trans wrote₂.fresh, wrote₃.here,
    (wrote₃.rest _ apart.symm).trans wrote₂.here, ?_⟩
  · rw [insertTreeNode, Tree.node_ok here, ok_bind, descended, ok_bind]
    dsimp only
    rw [eq₂, ok_bind, Tree.node_ok above₂, ok_bind, if_neg (compareNodes_of_before older), eq₃,
      ok_bind]
  · intro b notP notC
    rw [wrote₃.rest b notP, wrote₂.rest b notC]

theorem descend_right (y : Ptr) (new : Node) {p : NodeId} (above : t.mem p = some m)
    (older : m.time.before new.time = true) :
    ∃ t₁, descend new (fuel + 1) t y (some p) = descend new fuel t₁ (some p) m.right ∧
      Tree.Wrote t t₁ p { m with weight := m.weight + 1 } := by
  obtain ⟨t₁, eq, wrote⟩ := Tree.write_ok above fun m => { m with weight := m.weight + 1 }
  refine ⟨t₁, ?_, wrote⟩
  rw [descend, Tree.node_ok above, ok_bind, if_neg (compareNodes_of_before older), eq, ok_bind]

theorem insert_one (later : now.before time = true) (shaped : Shaped now t [(e, a)]) :
    ∃ t', insertTreeNode (fuel + 1) (t.malloc { time, shadowItem := f }) t.fresh = .ok t' ∧
      Shaped time t' [(f, t.fresh), (e, a)] := by
  cases shaped with
  | @one _ _ old height root first known seen =>
  have older := Timeval.before_of_seen later seen
  have apart : a ≠ t.fresh := Nat.ne_of_lt known
  have here := Tree.malloc_here (t := t) { time, shadowItem := f }
  have first := (Tree.malloc_rest { time, shadowItem := f } known).trans first
  have root : (t.malloc { time, shadowItem := f }).root = some a := root
  have above : t.fresh < (t.malloc { time, shadowItem := f }).fresh := Nat.lt_succ_self _
  generalize t.malloc { time, shadowItem := f } = t₁ at here first root above
  -- the root gains one in weight, then the node is hung on its right
  obtain ⟨t₂, passed, wrote₂⟩ := descend_right fuel none { time, shadowItem := f } first
    older
  have here₂ := (wrote₂.rest _ apart.symm).trans here
  obtain ⟨t₃, inserted, root₃, fresh₃, first₃, here₃, -⟩ := insertTreeNode_right here
    (by rw [root, passed, descend]) here₂ wrote₂.here apart older
  -- the climb only corrects its height
  obtain ⟨t₄, eq₄, wrote₄⟩ := Tree.fixHeight_ok first₃ Tree.height_none (Tree.height_ok here₃)
  have here₄ := (wrote₄.rest _ apart.symm).trans here₃
  have fresh : t₄.fresh = t₁.fresh := by rw [wrote₄.fresh, fresh₃, wrote₂.fresh]
  refine ⟨t₄, ?_, .two ?_ wrote₄.here here₄ apart ?_ ?_ ?_ time.before_irrefl⟩
  · rw [inserted, rebalance, eq₄, ok_bind, Tree.node_ok wrote₄.here, ok_bind]
    dsimp only [Tree.balanceFactor]
    rw [ok_bind, if_neg (by simp), Tree.node_ok here₄, ok_bind, rebalance]
  · rw [wrote₄.root, root₃, wrote₂.root, root]
  · rw [fresh]
    exact Nat.lt_trans known above
  · rwa [fresh]
  · exact Timeval.not_before_of_before older

theorem leftRotate_root {x y c : NodeId} {k : Node}
    (atX : t.mem x = some { n with parent := none, left := none, right := some y })
    (atY : t.mem y = some { m with left := none, right := some c }) (atC : t.mem c = some k)
    (apart : x ≠ y) (apart' : x ≠ c) (apart'' : y ≠ c) :
    ∃ t', leftRotate t (some x) = .ok t' ∧ t'.root = some y ∧ t'.fresh = t.fresh ∧
      t'.mem x = some { n with parent := some y, left := none, right := none, height := 0 } ∧
      t'.mem y = some { m with
        parent := none, left := some x, right := some c, height := 1 + max 0 k.height } ∧
      ∀ b, b ≠ x → b ≠ y → t'.mem b = t.mem b := by
  obtain ⟨t₁, eq₁, wrote₁⟩ := Tree.write_ok atX (·.setChild .right none)
  have atX₁ : t₁.mem x = some { n with parent := none, left := none, right := none } := wrote₁.here
  have atY₁ := (wrote₁.rest _ apart.symm).trans atY
  obtain ⟨t₂, eq₂, wrote₂⟩ := Tree.write_ok atY₁ fun n => { n with parent := none }
  have atX₂ := (wrote₂.rest _ apart).trans atX₁
  -- the root is replaced
  obtain ⟨t₃, eq₃, wrote₃⟩ := Tree.write_ok (t := { t₂ with root := some y }) wrote₂.here
    (·.setChild .left (some x))
  have atX₃ := (wrote₃.rest _ apart).trans atX₂
  obtain ⟨t₄, eq₄, wrote₄⟩ := Tree.write_ok atX₃ fun n => { n with parent := some y }
  have atY₄ := (wrote₄.rest _ apart.symm).trans wrote₃.here
  obtain ⟨t₅, eq₅, wrote₅⟩ := Tree.fixHeight_ok wrote₄.here Tree.height_none Tree.height_none
  have atY₅ := (wrote₅.rest _ apart.symm).trans atY₄
  have rest₅ : ∀ b, b ≠ x → b ≠ y → t₅.mem b = t.mem b := by
    intro b notX notY
    rw [wrote₅.rest b notX, wrote₄.rest b notX, wrote₃.rest b notY, wrote₂.rest b notY,
      wrote₁.rest b notX]
  have atC₅ := (rest₅ c apart'.symm apart''.symm).trans atC
  obtain ⟨t₆, eq₆, wrote₆⟩ := Tree.fixHeight_ok atY₅ (Tree.height_ok wrote₅.here)
    (Tree.height_ok atC₅)
  refine ⟨t₆, ?_, ?_, ?_, (wrote₆.rest _ apart).trans wrote₅.here, wrote₆.here, ?_⟩
  · rw [leftRotate, rotate, Tree.node_ok atX, ok_bind]
    dsimp only [Node.child, Side.other]
    rw [Tree.node_ok atY, ok_bind]
    dsimp only
    rw [eq₁, ok_bind, pure_bind, Tree.node_ok atX₁, ok_bind]
    dsimp only
    rw [eq₂, ok_bind, relink, pure_bind, eq₃, ok_bind, eq₄, ok_bind, eq₅, ok_bind, eq₆]
  · rw [wrote₆.root, wrote₅.root, wrote₄.root, wrote₃.root]
  · rw [wrote₆.fresh, wrote₅.fresh, wrote₄.fresh, wrote₃.fresh, wrote₂.fresh, wrote₁.fresh]
  · intro b notX notY
    rw [wrote₆.rest b notY, rest₅ b notX notY]

theorem insert_two (later : now.before time = true) (shaped : Shaped now t [(f, b), (e, a)]) :
    ∃ t', insertTreeNode (fuel + 2) (t.malloc { time, shadowItem := g }) t.fresh = .ok t' ∧
      Shaped time t' [(g, t.fresh), (f, b), (e, a)] := by
  cases shaped with
  | @two _ _ _ _ old old' root first second apart known known' seen seen' =>
  have older := Timeval.before_of_seen later seen
  have older' := Timeval.before_of_seen later seen'
  have notA : a ≠ t.fresh := Nat.ne_of_lt known
  have notB : b ≠ t.fresh := Nat.ne_of_lt known'
  have here := Tree.malloc_here (t := t) { time, shadowItem := g }
  have first := (Tree.malloc_rest { time, shadowItem := g } known).trans first
  have second := (Tree.malloc_rest { time, shadowItem := g } known').trans second
  have root : (t.malloc { time, shadowItem := g }).root = some a := root
  have above : t.fresh < (t.malloc { time, shadowItem := g }).fresh := Nat.lt_succ_self _
  generalize t.malloc { time, shadowItem := g } = t₁ at here first second root above
  -- both nodes gain one in weight, then the node is hung on the right of the second
  obtain ⟨t₂, passed₂, wrote₂⟩ := descend_right (fuel + 1) none { time, shadowItem := g }
    first older
  have second₂ := (wrote₂.rest _ apart.symm).trans second
  obtain ⟨t₃, passed₃, wrote₃⟩ := descend_right fuel (some a) { time, shadowItem := g }
    second₂ older'
  have first₃ := (wrote₃.rest _ apart).trans wrote₂.here
  have here₃ := (wrote₃.rest _ notB.symm).trans ((wrote₂.rest _ notA.symm).trans here)
  obtain ⟨t₄, inserted, -, fresh₄, second₄, here₄, rest₄⟩ := insertTreeNode_right here
    (by rw [root, passed₂, passed₃, descend]) here₃ wrote₃.here notB older'
  have first₄ := (rest₄ a apart notA).trans first₃
  obtain ⟨t₅, eq₅, wrote₅⟩ := Tree.fixHeight_ok second₄ Tree.height_none (Tree.height_ok here₄)
  have here₅ := (wrote₅.rest _ notB.symm).trans here₄
  have first₅ : t₅.mem a =
      some { right := some b, time := old, shadowItem := e, weight := 2, height := 2 } :=
    (wrote₅.rest a apart).trans first₄
  have second₅ : t₅.mem b = some
      { parent := some a, right := some t.fresh, time := old', shadowItem := f, weight := 1,
        height := 2 } := wrote₅.here
  -- the root is now out of balance by three, and rotates
  have factor := Tree.balanceFactor_ok first₅ Tree.height_none (Tree.height_ok second₅)
  obtain ⟨t₆, eq₆, root₆, fresh₆, first₆, second₆, rest₆⟩ :=
    leftRotate_root (n := { time := old, shadowItem := e, weight := 2, height := 2 })
      (m := { parent := some a, time := old', shadowItem := f, weight := 1, height := 2 })
      first₅ second₅ here₅ apart notA notB
  have fresh : t₆.fresh = t₁.fresh := by
    rw [fresh₆, wrote₅.fresh, fresh₄, wrote₃.fresh, wrote₂.fresh]
  have third₆ := (rest₆ _ notA.symm notB.symm).trans here₅
  refine ⟨t₆, ?_, .three root₆ first₆ second₆ third₆ apart notA notB ?_ ?_ ?_
    time.before_irrefl⟩
  · rw [inserted, rebalance, eq₅, ok_bind, Tree.node_ok second₅, ok_bind]
    dsimp only
    rw [factor, ok_bind, if_pos (by simp), rotateCase, Tree.node_ok first₅, ok_bind]
    dsimp only
    rw [if_neg (by simp), if_pos rfl, Tree.node_ok second₅, ok_bind, if_pos rfl, eq₆]
  · rw [fresh]
    exact Nat.lt_trans known' above
  · rwa [fresh]
  · exact Timeval.not_before_of_before older'

theorem Shaped.insert {l : List (ItemId × NodeId)} (later : now.before time = true)
    (shaped : Shaped now t l) (few : l.length ≤ 2) :
    ∃ t', insertTreeNode (fuel + 2) (t.malloc { time, shadowItem := e }) t.fresh = .ok t' ∧
      Shaped time t' ((e, t.fresh) :: l) := by
  match l, shaped with
  | [], .empty root => exact insert_empty (fuel + 2) time e root
  | [_], shaped => exact insert_one (fuel + 1) later shaped
  | [_, _], shaped => exact insert_two fuel later shaped
  | _ :: _ :: _ :: _, _ => simp only [List.length_cons] at few; omega

end Insertion

/-! ### Deletion -/

/-- A node leaves the tree: first the weights above it, then the links. -/
def Removes (fuel : Nat) (t : Tree) (a : NodeId) (t' : Tree) : Prop :=
  ∃ t₁, fixWeights t.root fuel t (some a) = .ok t₁ ∧ deleteTreeNode fuel t₁ a = .ok t'

section Deletion

variable {now : Timeval} {e f g : ItemId} {c : NodeId} (fuel : Nat)

theorem fixWeights_root (t : Tree) (p : Ptr) : fixWeights p fuel t p = .ok t := by
  cases fuel <;> simp [fixWeights]

@[simp] theorem deleteFixup_none (t : Tree) : deleteFixup fuel t none = .ok t := by
  cases fuel <;> rfl

theorem free_rest (t : Tree) (other : b ≠ a) : (t.free a).mem b = t.mem b := by
  simp [Tree.free, other]

theorem deleteTreeNode_leaf (side : Side) {p : NodeId} {m : Node} (here : t.mem a = some n)
    (left : n.left = none) (right : n.right = none) (parent : n.parent = some p)
    (above : t.mem p = some m) (apart : p ≠ a) (hooked : m.child side = some a)
    (once : m.child side.other ≠ some a) :
    ∃ t', deleteTreeNode fuel t a = .ok t' ∧ t'.root = t.root ∧ t'.fresh = t.fresh ∧
      t'.mem p = some (m.setChild side none) ∧
      ∀ b, b ≠ a → b ≠ p → t'.mem b = t.mem b := by
  obtain ⟨t₁, eq, wrote⟩ := Tree.write_ok above (·.setChild side none)
  refine ⟨t₁.free a, ?_, wrote.root, wrote.fresh, (free_rest t₁ apart).trans wrote.here, ?_⟩
  · have linked : relink .left t (some a) (some p) none = .ok t₁ := by
      rw [relink, Tree.node_ok above, ok_bind]
      cases side with
      | left => rw [if_pos hooked.symm, eq]
      | right =>
        have notLeft : some a ≠ m.child .left := Ne.symm once
        rwa [if_neg notLeft]
    rw [deleteTreeNode, Tree.node_ok here, ok_bind, left, right]
    dsimp only
    rw [transplant, Tree.node_ok here, ok_bind, parent]
    dsimp only
    rw [linked, ok_bind, pure_bind, deleteFixup_none, ok_bind]
    rfl
  · intro b notA notP
    rw [free_rest t₁ notA, wrote.rest b notP]

theorem remove_one (shaped : Shaped now t [(e, a)]) :
    ∃ t', Removes fuel t a t' ∧ Shaped now t' [] := by
  cases shaped with
  | one root first known seen =>
  refine ⟨({ t with root := none } : Tree).free a, ⟨t, ?_, ?_⟩, .empty rfl⟩
  · rw [root, fixWeights_root]
  · rw [deleteTreeNode, Tree.node_ok first, ok_bind]
    dsimp only
    rw [transplant, Tree.node_ok first, ok_bind]
    dsimp only
    rw [relink, pure_bind, pure_bind, deleteFixup_none, ok_bind]
    rfl

theorem remove_first (shaped : Shaped now t [(f, b), (e, a)]) :
    ∃ t', Removes (fuel + 1) t a t' ∧ Shaped now t' [(f, b)] := by
  cases shaped with
  | two root first second apart known known' seen seen' =>
  obtain ⟨t₁, eq₁, wrote₁⟩ := Tree.write_ok (t := { t with root := some b }) second
    fun n => { n with parent := none }
  obtain ⟨t₂, eq₂, wrote₂⟩ := Tree.fixHeight_ok wrote₁.here Tree.height_none Tree.height_none
  have factor := Tree.balanceFactor_ok wrote₂.here Tree.height_none Tree.height_none
  refine ⟨t₂.free a, ⟨t, ?_, ?_⟩, .one ?_ ((free_rest t₂ apart.symm).trans wrote₂.here) ?_ seen'⟩
  · rw [root, fixWeights_root]
  · rw [deleteTreeNode, Tree.node_ok first, ok_bind]
    dsimp only
    rw [transplant, Tree.node_ok first, ok_bind]
    dsimp only
    rw [relink, pure_bind, eq₁, ok_bind, deleteFixup, eq₂, ok_bind, factor, ok_bind,
      if_neg (by simp), pure_bind]
    dsimp only
    rw [Tree.node_ok wrote₂.here, ok_bind, deleteFixup_none, ok_bind]
    rfl
  · exact wrote₂.root.trans wrote₁.root
  · exact lt_of_lt_of_eq known' (wrote₂.fresh.trans wrote₁.fresh).symm

theorem remove_second (shaped : Shaped now t [(f, b), (e, a)]) :
    ∃ t', Removes (fuel + 1) t b t' ∧ Shaped now t' [(e, a)] := by
  cases shaped with
  | @two _ _ _ _ old old' root first second apart known known' seen seen' =>
  obtain ⟨t₁, eq₁, wrote₁⟩ := Tree.write_ok first fun m => { m with weight := m.weight - 1 }
  have first₁ : t₁.mem a = some { right := some b, time := old, shadowItem := e, height := 2 } := by
    simpa using wrote₁.here
  have second₁ := (wrote₁.rest _ apart.symm).trans second
  obtain ⟨t₂, eq₂, root₂, fresh₂, first₂, -⟩ := deleteTreeNode_leaf (fuel + 1) .right
    second₁ rfl rfl rfl first₁ apart rfl (by simp [Side.other, Node.child])
  refine ⟨t₂, ⟨t₁, ?_, eq₂⟩, .one ?_ first₂ ?_ seen⟩
  · rw [root, fixWeights, if_neg (by simpa using apart.symm)]
    dsimp only
    rw [Tree.node_ok second, ok_bind]
    dsimp only
    rw [Tree.node_ok first, ok_bind, if_pos rfl, eq₁, ok_bind, fixWeights_root]
  · rw [root₂, wrote₁.root, root]
  · exact lt_of_lt_of_eq known (fresh₂.trans wrote₁.fresh).symm

theorem remove_third (shaped : Shaped now t [(g, c), (f, b), (e, a)]) :
    ∃ t', Removes (fuel + 1) t a t' ∧ Shaped now t' [(g, c), (f, b)] := by
  cases shaped with
  | three root first second third apart apart' apart'' known' known'' seen' seen'' =>
  obtain ⟨t₁, eq₁, root₁, fresh₁, second₁, rest₁⟩ := deleteTreeNode_leaf (fuel + 1) .left
    first rfl rfl rfl second apart.symm rfl (by simpa [Side.other, Node.child] using apart'.symm)
  refine ⟨t₁, ⟨t, ?_, eq₁⟩, .two (root₁.trans root) second₁
    ((rest₁ _ apart'.symm apart''.symm).trans third) apart'' ?_ ?_ seen' seen''⟩
  · rw [root, fixWeights, if_neg (by simpa using apart)]
    dsimp only
    rw [Tree.node_ok first, ok_bind]
    dsimp only
    rw [Tree.node_ok second, ok_bind, if_neg (by simpa using apart'), pure_bind, fixWeights_root]
  · exact lt_of_lt_of_eq known' fresh₁.symm
  · exact lt_of_lt_of_eq known'' fresh₁.symm

theorem Shaped.remove {l : List (ItemId × NodeId)} {p : ItemId × NodeId} (shaped : Shaped now t l)
    (member : p ∈ l) (few : l.length ≤ 2) :
    ∃ t', Removes (fuel + 1) t p.2 t' ∧ Shaped now t' (l.erase p) := by
  match l, shaped with
  | [], _ => simp at member
  | [(e, a)], shaped =>
    obtain rfl : p = (e, a) := by simpa using member
    simpa using remove_one (fuel + 1) shaped
  | [(f, b), (e, a)], shaped =>
    have apart : a ≠ b := by
      cases shaped with
      | two _ _ _ apart => exact apart
    rcases List.mem_cons.mp member with rfl | member
    · simpa using remove_second fuel shaped
    · obtain rfl : p = (e, a) := by simpa using member
      have other : (f, b) ≠ (e, a) := fun same => apart (Prod.ext_iff.mp same).2.symm
      rw [List.erase_cons_tail (by simpa using other), List.erase_cons_head]
      exact remove_first fuel shaped
  | _ :: _ :: _ :: _, _ => simp only [List.length_cons] at few; omega

end Deletion

/-! ### Distances -/

section Distances

variable {now : Timeval} {e f g : ItemId} {c : NodeId} {l : List (ItemId × NodeId)} (fuel : Nat)

theorem addWeights_root (t : Tree) (x : UInt32) (p : Ptr) : addWeights t p fuel x p = .ok x := by
  cases fuel <;> simp [addWeights]

theorem Shaped.distance (shaped : Shaped now t l) (few : l.length ≤ 2) {i : Nat}
    {p : ItemId × NodeId} (placed : l[i]? = some p) :
    calculateReuseDistance (fuel + 1) t t.root (some p.2) = .ok i := by
  cases shaped with
  | empty root => simp at placed
  | one root first known seen =>
    match i, placed with
    | 0, placed =>
      obtain rfl : _ = p := by simpa using placed
      rw [calculateReuseDistance, Tree.node_ok first, ok_bind, root, addWeights_root]
      rfl
    | i + 1, placed => simp at placed
  | two root first second apart known known' seen seen' =>
    match i, placed with
    | 0, placed =>
      obtain rfl : _ = p := by simpa using placed
      rw [calculateReuseDistance, Tree.node_ok second, ok_bind, root, addWeights,
        if_neg (by simpa using apart.symm)]
      dsimp only
      rw [Tree.node_ok second, ok_bind]
      dsimp only
      rw [Tree.node_ok first, ok_bind, if_neg (by simp), addWeights_root]
      rfl
    | 1, placed =>
      obtain rfl : _ = p := by simpa using placed
      rw [calculateReuseDistance, Tree.node_ok first, ok_bind, root, addWeights_root]
      rfl
    | i + 2, placed => simp at placed
  | three => simp at few

/-- The oldest of three items is two items away from the front, and four by its weights. -/
theorem Shaped.distance_third (shaped : Shaped now t [(g, c), (f, b), (e, a)]) :
    calculateReuseDistance (fuel + 1) t t.root (some a) = .ok 4 := by
  cases shaped with
  | three root first second third apart =>
  rw [calculateReuseDistance, Tree.node_ok first, ok_bind, root, addWeights,
    if_neg (by simpa using apart)]
  dsimp only
  rw [Tree.node_ok first, ok_bind]
  dsimp only
  rw [Tree.node_ok second, ok_bind, if_pos rfl, addWeights_root]
  rfl

end Distances

end MemExchange.Shadow
