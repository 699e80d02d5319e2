import Mathlib

/-!
# The tree of last accesses

Every slab class keeps the items of its shadow queue in a search tree, ordered by the time they were
last seen. A node's `weight` is meant to be the size of its right subtree. A null or freed pointer
that is followed is a fault, and a loop is followed for as many rounds as there is fuel.
-/
namespace MemExchange.Shadow

abbrev NodeId := Nat

abbrev ItemId := Nat

/-- A pointer to a node; `none` is NULL. -/
abbrev Ptr := Option NodeId

inductive Fault where
  | null
  | fuel
  deriving DecidableEq, Repr

abbrev Result := Except Fault

structure Timeval where
  sec : Int
  usec : Int
  deriving DecidableEq, Repr

/-- The order of `compare_nodes` on times. -/
def Timeval.before (a b : Timeval) : Bool :=
  if a.sec ≠ b.sec then a.sec < b.sec else a.usec < b.usec

/-- `node_t`. The height fits an `int`, the weight wraps. -/
structure Node where
  parent : Ptr := none
  left : Ptr := none
  right : Ptr := none
  time : Timeval
  shadowItem : ItemId
  weight : UInt32 := 0
  height : Int := 1
  deriving DecidableEq, Repr

/-- `tree_t`, with the memory its nodes live in. Identities are not used again. -/
structure Tree where
  root : Ptr := none
  mem : NodeId → Option Node := fun _ => none
  fresh : NodeId := 0

inductive Side where
  | left
  | right
  deriving DecidableEq, Repr

def Side.other : Side → Side
  | .left => .right
  | .right => .left

variable (n : Node) (side : Side) (t : Tree) (x : Ptr) (fuel : Nat)

def Node.child : Side → Ptr
  | .left => n.left
  | .right => n.right

def Node.setChild (p : Ptr) : Node :=
  match side with
  | .left => { n with left := p }
  | .right => { n with right := p }

namespace Tree

variable (p : Ptr)

def node : Result Node :=
  match p.bind t.mem with
  | some n => .ok n
  | none => .error .null

def write (f : Node → Node) : Result Tree :=
  match p with
  | none => .error .null
  | some a =>
    match t.mem a with
    | none => .error .null
    | some n => .ok { t with mem := Function.update t.mem a (some (f n)) }

def malloc (n : Node) : Tree :=
  { t with mem := Function.update t.mem t.fresh (some n), fresh := t.fresh + 1 }

def free (a : NodeId) : Tree := { t with mem := Function.update t.mem a none }

/-- `height`: a missing child has height minus one. -/
def height (t : Tree) (p : Ptr) : Result Int :=
  match p with
  | none => .ok (-1)
  | some a => (t.node (some a)).map Node.height

/-- `n->height = 1 + max(height(n->left), height(n->right))`. -/
def fixHeight : Result Tree := do
  let n ← t.node p
  let l ← t.height n.left
  let r ← t.height n.right
  t.write p fun n => { n with height := 1 + max l r }

def balanceFactor : Result Int :=
  match p with
  | none => .ok 0
  | some a => do
    let n ← t.node (some a)
    let l ← t.height n.left
    let r ← t.height n.right
    pure (l - r)

end Tree

/-- `compare_nodes`: by time, then by the address of the item. -/
def compareNodes (a b : Node) : Int :=
  if a.time.sec ≠ b.time.sec then if a.time.sec < b.time.sec then -1 else 1
  else if a.time.usec ≠ b.time.usec then if a.time.usec < b.time.usec then -1 else 1
  else if a.shadowItem < b.shadowItem then -1
  else if b.shadowItem < a.shadowItem then 1
  else 0

/-- The link that leads to `u` is made to lead to `v`. A rotation to one side tests that
side first. -/
def relink (u parent v : Ptr) : Result Tree :=
  match parent with
  | none => pure { t with root := v }
  | some p => do
    let n ← t.node (some p)
    if u = n.child side then t.write (some p) (·.setChild side v)
    else t.write (some p) (·.setChild side.other v)

/-- A rotation to a side; the child on the other side comes up. -/
def rotate : Result Tree := do
  let y := (← t.node x).child side.other
  let inner := (← t.node y).child side
  let t ← t.write x (·.setChild side.other inner)
  let t ← match inner with
    | some i => t.write (some i) fun n => { n with parent := x }
    | none => pure t
  let parent := (← t.node x).parent
  let t ← t.write y fun n => { n with parent := parent }
  let t ← relink side t x parent y
  let t ← t.write y (·.setChild side x)
  let t ← t.write x fun n => { n with parent := y }
  let t ← t.fixHeight x
  t.fixHeight y

def leftRotate : Tree → Ptr → Result Tree := rotate .left

def rightRotate : Tree → Ptr → Result Tree := rotate .right

/-- The four cases of rebalancing `x`, for its child `y` and grandchild `z`. -/
def rotateCase (y z : Ptr) : Result Tree := do
  let n ← t.node x
  if y = n.left then
    let l ← t.node n.left
    if z = l.left then rightRotate t x
    else if z = l.right then do
      let t ← leftRotate t y
      rightRotate t x
    else pure t
  else if y = n.right then
    let r ← t.node n.right
    if z = r.right then leftRotate t x
    else if z = r.left then do
      let t ← rightRotate t y
      leftRotate t x
    else pure t
  else pure t

/-! ### Insertion -/

/-- The descent of `insert_tree_node`. Every node that is passed on its right side gains one
in weight. -/
def descend (n : Node) : Nat → Tree → Ptr → Ptr → Result (Tree × Ptr)
  | _, t, y, none => .ok (t, y)
  | 0, _, _, some _ => .error .fuel
  | fuel + 1, t, _, some temp => do
    let m ← t.node (some temp)
    if compareNodes n m < 0 then descend n fuel t (some temp) m.left
    else
      let t ← t.write (some temp) fun m => { m with weight := m.weight + 1 }
      descend n fuel t (some temp) m.right

/-- The climb of `insert_tree_node`: correct the height of `y`, and rotate its parent once if
that is now unbalanced. -/
def rebalance : Nat → Tree → Ptr → Ptr → Result Tree
  | _, t, none, _ => .ok t
  | 0, _, some _, _ => .error .fuel
  | fuel + 1, t, some y, z => do
    let t ← t.fixHeight (some y)
    let x := (← t.node (some y)).parent
    let bf ← t.balanceFactor x
    if x ≠ none ∧ (bf ≤ -2 ∨ 2 ≤ bf) then rotateCase t x (some y) z
    else
      let up := (← t.node z).parent
      rebalance fuel t x up

def insertTreeNode (t : Tree) (n : NodeId) : Result Tree := do
  let new ← t.node (some n)
  let (t, y) ← descend new fuel t none t.root
  let t ← t.write (some n) fun m => { m with parent := y }
  let t ← match y with
    | none => pure { t with root := some n }
    | some p => do
      let m ← t.node (some p)
      if compareNodes new m < 0 then t.write (some p) fun m => { m with left := some n }
      else t.write (some p) fun m => { m with right := some n }
  rebalance fuel t y (some n)

/-! ### Deletion -/

/-- `transplant`: put `v` in the place of `u`. -/
def transplant (u v : Ptr) : Result Tree := do
  let parent := (← t.node u).parent
  let t ← relink .left t u parent v
  match v with
  | none => pure t
  | some _ => t.write v fun n => { n with parent := parent }

/-- The taller child of `x`, as `delete_fixup` chooses it. -/
def tallerChild : Result Ptr := do
  let n ← t.node x
  match n.left, n.right with
  | some l, some r => do
    let ln ← t.node (some l)
    let rn ← t.node (some r)
    pure (if ln.height > rn.height then some l else some r)
  | none, right => pure right
  | left, none => pure left

/-- The taller child of `y`; between equals the one on the side of `y`. -/
def tallerGrandchild (y : Ptr) : Result Ptr := do
  let n ← t.node y
  match n.left, n.right with
  | some l, some r => do
    let ln ← t.node (some l)
    let rn ← t.node (some r)
    if ln.height > rn.height then pure (some l)
    else if ln.height < rn.height then pure (some r)
    else
      let m ← t.node x
      pure (if y = m.left then some l else some r)
  | none, right => pure right
  | left, none => pure left

/-- `delete_fixup`. After a rotation it goes on from the node that came up. -/
def deleteFixup : Nat → Tree → Ptr → Result Tree
  | _, t, none => .ok t
  | 0, _, some _ => .error .fuel
  | fuel + 1, t, some p => do
    let t ← t.fixHeight (some p)
    let bf ← t.balanceFactor (some p)
    let t ← if bf ≤ -2 ∨ 2 ≤ bf then do
        let y ← tallerChild t (some p)
        let z ← tallerGrandchild t (some p) y
        rotateCase t (some p) y z
      else pure t
    let up := (← t.node (some p)).parent
    deleteFixup fuel t up

def minimum : Nat → Tree → NodeId → Result NodeId
  | fuel, t, x => do
    match (← t.node (some x)).left, fuel with
    | none, _ => pure x
    | some _, 0 => .error .fuel
    | some l, fuel + 1 => minimum fuel t l

theorem minimum_eq (t : Tree) (x : NodeId) : minimum fuel t x =
    t.node (some x) >>= fun n =>
      match n.left with
      | none => pure x
      | some l =>
        match fuel with
        | 0 => .error .fuel
        | fuel + 1 => minimum fuel t l := by
  delta minimum
  cases fuel with
  | zero | succ fuel =>
    refine bind_congr fun n => ?_
    cases n.left <;> rfl

def deleteTreeNode (t : Tree) (z : NodeId) : Result Tree := do
  let n ← t.node (some z)
  match n.left, n.right with
  | none, right => do
    let t ← transplant t (some z) right
    let t ← deleteFixup fuel t right
    pure (t.free z)
  | left, none => do
    let t ← transplant t (some z) left
    let t ← deleteFixup fuel t left
    pure (t.free z)
  | some l, some r => do
    let y ← minimum fuel t r
    let yn ← t.node (some y)
    let t ← if yn.parent ≠ some z then do
        let t ← transplant t (some y) yn.right
        let t ← t.write (some y) fun m => { m with right := some r }
        t.write (some r) fun m => { m with parent := some y }
      else pure t
    let t ← transplant t (some z) (some y)
    let t ← t.write (some y) fun m => { m with left := some l }
    let t ← t.write (some l) fun m => { m with parent := some y }
    let t ← deleteFixup fuel t (some y)
    pure (t.free z)

/-! ### Weights -/

/-- `fix_weights`: a node about to be deleted is taken off the weights above it. -/
def fixWeights (root : Ptr) : Nat → Tree → Ptr → Result Tree
  | fuel, t, node =>
    if node = root then .ok t
    else
      match fuel with
      | 0 => .error .fuel
      | fuel + 1 => do
        let parent := (← t.node node).parent
        let m ← t.node parent
        let t ← if node = m.right then t.write parent fun m => { m with weight := m.weight - 1 }
          else pure t
        fixWeights root fuel t parent

/-- The climb of `calculate_reuse_distance`. -/
def addWeights (t : Tree) (root : Ptr) : Nat → UInt32 → Ptr → Result UInt32
  | fuel, x, node =>
    if node = root then .ok x
    else
      match fuel with
      | 0 => .error .fuel
      | fuel + 1 => do
        match (← t.node node).parent with
        | none => .ok x
        | some p => do
          let m ← t.node (some p)
          addWeights t root fuel (if node = m.left then x + (m.weight + 1) else x) (some p)

/-- `calculate_reuse_distance`. The sum is formed modulo `2 ^ 32` and read as an `int`. -/
def calculateReuseDistance (t : Tree) (root node : Ptr) : Result Int := do
  let n ← t.node node
  let x ← addWeights t root fuel n.weight node
  pure x.toInt32.toInt

end MemExchange.Shadow
