import MemExchange.Shadow.Index

/-!
# When the tree stays balanced

A new leaf has height one, a leaf whose height was computed has height zero, and a deletion corrects
heights only from the node that took the place of the deleted one upward. So recorded heights are
not the true ones. The tree stays balanced if every inserted node is later than those in the tree
and nodes are deleted only from groups of three: a node and its two childless children. Then only
heights on the right edge are wrong, by one at most.
-/
namespace MemExchange.Shadow

open Outline

namespace Outline

section Shape

variable {α : Type} {s : Outline α}

def levels : Outline α → Nat
  | .nil => 0
  | .node l _ r => max l.levels r.levels + 1

@[simp] theorem levels_join (side : Side) (near far : Outline α) (a : α) :
    (join side near a far).levels = max near.levels far.levels + 1 := by
  cases side with
  | left => rfl
  | right => rw [max_comm]; rfl

/-- The levels of two siblings differ by one at most. -/
def Balanced : Outline α → Prop
  | .nil => True
  | .node l _ r => l.Balanced ∧ r.Balanced ∧ l.levels ≤ r.levels + 1 ∧ r.levels ≤ l.levels + 1

theorem Balanced.le_size (balanced : s.Balanced) : 2 ^ ((s.levels + 1) / 2) ≤ s.size + 1 := by
  induction s with
  | nil => simp [levels, size]
  | node l a r ihl ihr =>
    obtain ⟨left, right, near, far⟩ := balanced
    -- both subtrees have all but two of the levels
    have half : (max l.levels r.levels + 1 + 1) / 2 = (max l.levels r.levels) / 2 + 1 := by omega
    have lower : ∀ n, max l.levels r.levels ≤ n + 1 →
        2 ^ (max l.levels r.levels / 2) ≤ 2 ^ ((n + 1) / 2) := fun n most =>
      Nat.pow_le_pow_right (by omega) (Nat.div_le_div_right most)
    have sizeL := (lower l.levels (by omega)).trans (ihl left)
    have sizeR := (lower r.levels (by omega)).trans (ihr right)
    rw [levels, size, half, Nat.pow_succ]
    omega

theorem Balanced.levels_le (balanced : s.Balanced) : s.levels ≤ 2 * (s.size + 1).log2 := by
  have := (Nat.le_log2 (n := s.size + 1) (Nat.succ_ne_zero _)).mpr balanced.le_size
  omega

end Shape

/-! ### True and false heights -/

/-- Balanced, and every recorded height is the true one. -/
def Accurate : Outline Cell → Prop
  | .nil => True
  | .node l c r => l.Accurate ∧ r.Accurate ∧ l.levels ≤ r.levels + 1 ∧ r.levels ≤ l.levels + 1 ∧
      c.height = max (l.levels : Int) r.levels

/-- The right edge down from a node. A leaf at its end was inserted there. -/
inductive Spine : Outline Cell → Prop
  | leaf {c : Cell} (height : c.height = 1) : Spine (.node .nil c .nil)
  | lone {c d : Cell} (low : d.height = 0) (height : c.height = 1 ∨ c.height = 2) :
      Spine (.node (.node .nil d .nil) c .nil)
  | node {l r : Outline Cell} {c : Cell} (accurate : l.Accurate) (rest : Spine r)
      (near : l.levels ≤ r.levels + 1) (far : r.levels ≤ l.levels + 1)
      (height : c.height = 1 + max l.recorded r.recorded)
      (even : ¬ Tilted l.recorded r.recorded ∨ l = .nil ∧ r.levels = 1) : Spine (.node l c r)

variable {o s r L R B C : Outline Cell} {fs : List (Frame Cell)} {f g : Frame Cell} {c x y : Cell}
  {side : Side}

theorem accurate_join {near far : Outline Cell} : (join side near c far).Accurate ↔
    near.Accurate ∧ far.Accurate ∧ near.levels ≤ far.levels + 1 ∧ far.levels ≤ near.levels + 1 ∧
      c.height = max (near.levels : Int) far.levels := by
  cases side with
  | left => rfl
  | right =>
    rw [join, Accurate, max_comm]
    tauto

theorem Accurate.recorded (accurate : s.Accurate) : s.recorded = s.levels - 1 := by
  cases s with
  | nil => rfl
  | node l c r =>
    obtain ⟨-, -, -, -, height⟩ := accurate
    show c.height = ((max l.levels r.levels + 1 : Nat) : Int) - 1
    omega

theorem Accurate.balanced (accurate : s.Accurate) : s.Balanced := by
  induction s with
  | nil => trivial
  | node l c r ihl ihr =>
    obtain ⟨left, right, near, far, -⟩ := accurate
    exact ⟨ihl left, ihr right, near, far⟩

theorem Spine.full (spine : Spine s) : s ≠ .nil := by
  cases spine <;> simp

/-- On the right edge a height is at most one too large. -/
theorem Spine.recorded (spine : Spine s) :
    s.levels - 1 ≤ s.recorded ∧ s.recorded ≤ s.levels := by
  induction spine with
  | @leaf c height =>
    show ((1 : Nat) : Int) - 1 ≤ c.height ∧ c.height ≤ ((1 : Nat) : Int)
    omega
  | @lone c d _ height =>
    show ((2 : Nat) : Int) - 1 ≤ c.height ∧ c.height ≤ ((2 : Nat) : Int)
    omega
  | @node l r c accurate _ _ _ height _ ih =>
    have left := accurate.recorded
    show ((max l.levels r.levels + 1 : Nat) : Int) - 1 ≤ c.height ∧
      c.height ≤ ((max l.levels r.levels + 1 : Nat) : Int)
    omega

theorem Spine.balanced (spine : Spine s) : s.Balanced := by
  induction spine with
  | leaf => simp [Balanced, levels]
  | lone => simp [Balanced, levels]
  | node accurate _ near far _ _ ih => exact ⟨accurate.balanced, ih, near, far⟩

theorem Spine.inner (spine : Spine (.node L c R)) (deep : 2 ≤ L.levels ∨ 2 ≤ R.levels) :
    L.Accurate ∧ Spine R ∧ L.levels ≤ R.levels + 1 ∧ R.levels ≤ L.levels + 1 ∧
      c.height = 1 + max L.recorded R.recorded ∧ ¬ Tilted L.recorded R.recorded := by
  cases spine with
  | leaf => simp [levels] at deep
  | lone => simp [levels] at deep
  | node accurate rest near far height even =>
    refine ⟨accurate, rest, near, far, height, even.resolve_right ?_⟩
    rintro ⟨rfl, one⟩
    simp [levels, one] at deep

/-! ### Deletions -/

/-- A subtree of a tree that is kept. -/
def Good (s : Outline Cell) : Prop := s.Accurate ∨ Spine s

theorem Good.inner (good : Good (join side o x C)) (deep : 2 ≤ o.levels) : Good o := by
  rcases good with accurate | spine
  · exact .inl (accurate_join.mp accurate).1
  · cases side with
    | left => exact .inl (spine.inner (.inl deep)).1
    | right => exact .inr (spine.inner (.inr deep)).2.1

theorem deep_join (deep : 2 ≤ o.levels) : 2 ≤ (join side o x C).levels := by
  rw [levels_join]
  omega

theorem Good.of_plug (good : Good (plug o fs)) (deep : 2 ≤ o.levels) : Good o := by
  induction fs generalizing o with
  | nil => exact good
  | cons f fs ih => exact (ih good (deep_join deep)).inner deep

/-- `s` in the place of `o`: the levels are the same, and a height that is not the same is true. -/
structure Eases (o s : Outline Cell) : Prop where
  deep : 2 ≤ o.levels
  levels : s.levels = o.levels
  accurate : o.Accurate → s.Accurate
  spine : Spine o → Spine s
  recorded : s.recorded = o.recorded ∨ s.recorded + 1 = s.levels

theorem Good.above (good : Good (join side o x C)) (deep : 2 ≤ o.levels) :
    x.height = 1 + max o.recorded C.recorded ∧ ¬ Tilted o.recorded C.recorded ∧
      (o.recorded + 1 = o.levels ∨ C.recorded + 1 = C.levels) ∧
      o.levels ≤ C.levels + 1 ∧ C.levels ≤ o.levels + 1 := by
  rcases good with accurate | spine
  · obtain ⟨inner, outer, near, far, height⟩ := accurate_join.mp accurate
    have := inner.recorded
    have := outer.recorded
    unfold Tilted
    omega
  · cases side with
    | left =>
      obtain ⟨accurate, -, near, far, height, even⟩ := spine.inner (.inl deep)
      have := accurate.recorded
      exact ⟨height, even, .inl (by omega), near, far⟩
    | right =>
      obtain ⟨accurate, -, near, far, height, even⟩ := spine.inner (.inr deep)
      have := accurate.recorded
      refine ⟨?_, fun tilted => even (tilted_comm.mp tilted), .inr (by omega), far, near⟩
      rw [height, max_comm]

theorem Eases.even (eases : Eases o s) (good : Good (join side o x C)) :
    ¬ Tilted s.recorded C.recorded := by
  obtain ⟨-, even, true_, near, far⟩ := good.above eases.deep
  have levels := eases.levels
  have recorded := eases.recorded
  unfold Tilted at even ⊢
  omega

/-- The exchange is carried up to the next node, whose height is corrected. -/
theorem Eases.join (eases : Eases o s) (good : Good (join side o x C)) :
    Eases (join side o x C) (join side s x C).refresh := by
  obtain ⟨height, -, true_, near, far⟩ := good.above eases.deep
  have even := eases.even good
  have levels := eases.levels
  have recorded := eases.recorded
  rw [refresh_join]
  refine ⟨deep_join eases.deep, ?_, fun accurate => ?_, fun spine => ?_, ?_⟩
  · rw [levels_join, levels_join, levels]
  · obtain ⟨inner, outer, -⟩ := accurate_join.mp accurate
    have accurateS := eases.accurate inner
    refine accurate_join.mpr ⟨accurateS, outer, by omega, by omega, ?_⟩
    have := accurateS.recorded
    have := outer.recorded
    dsimp only
    omega
  · cases side with
    | left =>
      obtain ⟨accurate, rest, -⟩ := spine.inner (.inl eases.deep)
      exact .node (eases.accurate accurate) rest (by omega) (by omega) rfl (.inl even)
    | right =>
      obtain ⟨accurate, rest, -⟩ := spine.inner (.inr eases.deep)
      refine .node accurate (eases.spine rest) (by omega) (by omega) ?_ (.inl ?_)
      · exact congrArg (1 + ·) (max_comm _ _)
      · exact fun tilted => even (tilted_comm.mp tilted)
  · rw [recorded_join, recorded_join, levels_join]
    dsimp only
    omega

theorem eases_settles (settles : Settles s fs r) (eases : Eases o s.refresh) (even : s.refresh.Even)
    (good : Good (plug o fs)) : Eases (plug o fs) r := by
  induction settles generalizing o with
  | done => exact eases
  | @up _ _ f _ _ _ ih =>
    have above : Good (f.around o) := Good.of_plug good (deep_join eases.deep)
    refine ih (eases.join above) ?_ good
    rw [Frame.around, refresh_join, even_join]
    exact eases.even above
  | turn mends => exact absurd even mends.tilted

theorem Eases.plug (eases : Eases o s) (same : s.recorded = o.recorded) (good : Good (plug o fs)) :
    Eases (plug o fs) (plug s fs) := by
  induction fs generalizing o s with
  | nil => exact eases
  | cons f fs ih =>
    have above : Good (f.around o) := Good.of_plug good (deep_join eases.deep)
    obtain ⟨height, -⟩ := Good.above above eases.deep
    have kept : (f.around s).refresh = f.around s := by
      unfold Frame.around
      rw [refresh_join, same, ← height]
    refine ih (o := f.around o) (s := f.around s) ?_ ?_ good
    · rw [← kept]
      exact eases.join above
    · unfold Frame.around
      rw [recorded_join, recorded_join]

abbrev tip (c : Cell) : Outline Cell := .node .nil c .nil

theorem levels_tip (c : Cell) : (tip c).levels = 1 := rfl

theorem recorded_tip (c : Cell) : (tip c).recorded = c.height := rfl

theorem accurate_tip (low : c.height = 0) : (tip c).Accurate :=
  ⟨trivial, trivial, Nat.zero_le _, Nat.zero_le _, low⟩

theorem Spine.tips {a d : Cell} (spine : Spine (.node (tip a) c (tip d))) :
    a.height = 0 ∧ d.height = 1 ∧ c.height = 2 := by
  cases spine with
  | node accurate rest _ _ height _ =>
    have low : a.height = 0 := accurate.2.2.2.2
    have high : d.height = 1 := by
      cases rest with
      | leaf height => exact height
      | node _ rest => exact absurd rfl rest.full
    refine ⟨low, high, ?_⟩
    rw [height]
    show 1 + max a.height d.height = 2
    omega

theorem eases_tip (side : Side) (b c d : Cell) :
    Eases (join side (tip c) b (tip d)) (join side .nil b (tip d)) := by
  refine ⟨?_, ?_, fun accurate => ?_, fun spine => ?_, ?_⟩
  · rw [levels_join]
    exact Nat.le_refl 2
  · rw [levels_join, levels_join]
    rfl
  · obtain ⟨-, outer, -, -, height⟩ := accurate_join.mp accurate
    exact accurate_join.mpr ⟨trivial, outer, Nat.zero_le _, Nat.le_refl 1, height⟩
  · cases side with
    | left =>
      obtain ⟨-, high, height⟩ := spine.tips
      refine .node trivial (.leaf high) (Nat.zero_le _) (Nat.le_refl 1) ?_ (.inr ⟨rfl, rfl⟩)
      rw [height]
      show 2 = 1 + max (-1) d.height
      omega
    | right =>
      obtain ⟨low, -, height⟩ := spine.tips
      exact .lone low (.inr height)
  · rw [recorded_join, recorded_join]
    exact .inl rfl

theorem eases_top {a d : Cell} (low : a.height = 0) :
    Eases (.node (tip a) c (tip d)) (.node (tip a) d .nil : Outline Cell).refresh := by
  have height : ({ d with height := 1 + max a.height (-1) } : Cell).height = 1 := by
    show 1 + max a.height (-1) = 1
    omega
  refine ⟨Nat.le_refl 2, rfl, fun accurate => ?_, fun _ => .lone low (.inl height), .inr ?_⟩
  · exact ⟨accurate.1, trivial, Nat.le_refl 1, Nat.zero_le _, height⟩
  · show 1 + max a.height (-1) + 1 = ((2 : Nat) : Int)
    omega

theorem Good.low {a d : Cell} (good : Good (.node (tip a) c (tip d))) : a.height = 0 := by
  rcases good with accurate | spine
  · exact accurate.1.2.2.2.2
  · exact spine.tips.1

/-! ### Insertions -/

theorem levels_refresh (s : Outline Cell) : s.refresh.levels = s.levels := by
  cases s <;> rfl

theorem recorded_refresh (l r : Outline Cell) (c : Cell) :
    (Outline.node l c r).refresh.recorded = 1 + max l.recorded r.recorded := rfl

theorem levels_node (l r : Outline Cell) (c : Cell) :
    (Outline.node l c r).levels = max l.levels r.levels + 1 := rfl

theorem Spine.right (spine : Spine (.node C x o)) (full : o ≠ .nil) :
    C.Accurate ∧ Spine o ∧ C.levels ≤ o.levels + 1 ∧ o.levels ≤ C.levels + 1 ∧
      x.height = 1 + max C.recorded o.recorded := by
  cases spine with
  | leaf => exact absurd rfl full
  | lone => exact absurd rfl full
  | node accurate rest near far height _ => exact ⟨accurate, rest, near, far, height⟩

theorem Spine.of_plug (right : ∀ f ∈ fs, f.side = .right) (full : o ≠ .nil)
    (spine : Spine (plug o fs)) : Spine o := by
  induction fs generalizing o with
  | nil => exact spine
  | cons f fs ih =>
    obtain ⟨side, x, C⟩ := f
    obtain rfl : side = .right := right _ List.mem_cons_self
    have above : Spine (.node C x o) :=
      ih (fun f member => right f (List.mem_cons_of_mem _ member)) (by simp) spine
    exact (above.right full).2.1

/-- `s` in the place of `o` on the right edge: the height is the same, and the levels also unless
the height is true now. -/
structure Same (o s : Outline Cell) : Prop where
  deep : 2 ≤ o.levels
  recorded : s.recorded = o.recorded
  levels : s.levels = o.levels ∨ s.levels = s.recorded + 1

theorem Same.right (same : Same o s) (spine : Spine (.node C x o)) (spineS : Spine s) :
    Spine (.node C x s) ∧ Same (.node C x o) (.node C x s) := by
  obtain ⟨accurate, rest, near, far, height, even⟩ := spine.inner (.inr same.deep)
  obtain ⟨deep, recorded, levels⟩ := same
  have := accurate.recorded
  have := rest.recorded
  have := spineS.recorded
  unfold Tilted at even
  constructor
  · refine .node accurate spineS ?_ ?_ (by rw [recorded, height]) (.inl ?_)
    · omega
    · omega
    · unfold Tilted
      omega
  · refine ⟨?_, rfl, ?_⟩
    · rw [levels_node]
      omega
    · rw [levels_node, levels_node]
      show _ ∨ _ = x.height + 1
      omega

theorem Same.plug (same : Same o s) (right : ∀ f ∈ fs, f.side = .right) (spine : Spine (plug o fs))
    (spineS : Spine s) : Spine (plug s fs) := by
  induction fs generalizing o s with
  | nil => exact spineS
  | cons f fs ih =>
    obtain ⟨side, x, C⟩ := f
    obtain rfl : side = .right := right _ List.mem_cons_self
    have right' : ∀ f ∈ fs, f.side = .right := fun f member => right f (List.mem_cons_of_mem _ member)
    have above : Spine (.node C x o) := Spine.of_plug right' (by simp) spine
    obtain ⟨spine', same'⟩ := same.right above spineS
    exact ih same' right' spine spine'

/-- `s` in the place of `o` on the right edge, after an insertion below: the height is the same, or
it has grown by one where the levels have not. -/
structure Grows (o s : Outline Cell) : Prop where
  deep : 2 ≤ o.levels
  change : s.recorded = o.recorded ∧ (s.levels = o.levels ∨ s.levels = s.recorded + 1) ∨
    s.recorded = o.recorded + 1 ∧ s.levels = o.levels ∧ s.recorded = s.levels

theorem Grows.up (grows : Grows o s) (spine : Spine (.node C x o)) (spineS : Spine s)
    (even : ¬ Tilted s.recorded C.recorded) :
    Spine (Outline.node C x s).refresh ∧ Grows (.node C x o) (Outline.node C x s).refresh := by
  obtain ⟨accurate, rest, near, far, height, even'⟩ := spine.inner (.inr grows.deep)
  obtain ⟨deep, change⟩ := grows
  have := accurate.recorded
  have := rest.recorded
  have := spineS.recorded
  unfold Tilted at even even'
  constructor
  · refine .node accurate spineS ?_ ?_ rfl (.inl ?_)
    · omega
    · omega
    · unfold Tilted
      omega
  · refine ⟨?_, ?_⟩
    · rw [levels_node]
      omega
    · rw [levels_refresh, levels_node, levels_node, recorded_refresh]
      show _ = x.height ∧ _ ∨ _ = x.height + 1 ∧ _
      omega

theorem Grows.turn (grows : Grows o (Outline.node B y s).refresh) (spine : Spine (.node C x o))
    (spineY : Spine (Outline.node B y s).refresh) (full : s ≠ .nil)
    (tilted : Tilted (Outline.node B y s).refresh.recorded C.recorded) :
    Spine (lift .right s y B x C) ∧ Same (.node C x o) (lift .right s y B x C) := by
  obtain ⟨accurate, rest, near, far, height, even⟩ := spine.inner (.inr grows.deep)
  obtain ⟨accurateB, spineS, nearB, farB, -⟩ := Spine.right spineY full
  obtain ⟨deep, change⟩ := grows
  rw [levels_refresh, levels_node, recorded_refresh] at change
  rw [recorded_refresh] at tilted
  have recC := accurate.recorded
  have recB := accurateB.recorded
  have recS := spineS.recorded
  have recO := rest.recorded
  unfold Tilted at even tilted
  -- the tree that goes down to the left
  have down : (Outline.node C x B).refresh.Accurate := by
    refine ⟨accurate, accurateB, ?_, ?_, ?_⟩
    · omega
    · omega
    · show 1 + max C.recorded B.recorded = _
      omega
  have recDown := down.recorded
  have levelsDown : (Outline.node C x B).refresh.levels = max C.levels B.levels + 1 := rfl
  show Spine (Outline.node (Outline.node C x B).refresh y s).refresh ∧
    Same _ (Outline.node (Outline.node C x B).refresh y s).refresh
  constructor
  · refine .node down spineS ?_ ?_ rfl (.inl ?_)
    · omega
    · omega
    · unfold Tilted
      omega
  · refine ⟨?_, ?_, ?_⟩
    · rw [levels_node]
      omega
    · rw [recorded_refresh _ s]
      show _ = x.height
      omega
    · rw [levels_refresh _, levels_node, levels_node, recorded_refresh _ s]
      omega

theorem climb_spine (right : ∀ f ∈ fs, f.side = .right) (full : s ≠ .nil)
    (spineY : Spine (Outline.node B y s).refresh) (grows : Grows o (Outline.node B y s).refresh)
    (spine : Spine (plug o fs)) : Spine (climb s (⟨.right, y, B⟩ :: fs)) := by
  induction fs generalizing o s B y with
  | nil => exact spineY
  | cons f fs ih =>
    obtain ⟨side, x, C⟩ := f
    obtain rfl : side = .right := right _ List.mem_cons_self
    have right' : ∀ f ∈ fs, f.side = .right := fun f member => right f (List.mem_cons_of_mem _ member)
    have above : Spine (.node C x o) := Spine.of_plug right' (by simp) spine
    rw [climb]
    split
    next tilted =>
      obtain ⟨turned, same⟩ := grows.turn above spineY full tilted
      exact same.plug right' spine turned
    next even =>
      obtain ⟨spine', grows'⟩ := grows.up above spineY even
      exact ih right' spineY.full spine' grows' spine

section Leaf

/-! A new node below a leaf: the leaf gains a level and a height. -/

variable {new v : Cell}

section

variable (fresh : new.height = 1)
include fresh

theorem recorded_grown :
    (Outline.node .nil v (tip new)).refresh.recorded = 2 := by
  show 1 + max (-1) new.height = 2
  omega

theorem spine_grown : Spine (Outline.node .nil v (tip new)).refresh :=
  .node trivial (.leaf fresh) (Nat.zero_le _) (Nat.le_refl 1) rfl (.inr ⟨rfl, rfl⟩)

theorem leaf_turn (height : v.height = 1) (spine : Spine (.node C x (tip v)))
    (tilted : Tilted (Outline.node .nil v (tip new)).refresh.recorded C.recorded) :
    Spine (lift .right (tip new) v .nil x C) ∧
      Same (.node C x (tip v)) (lift .right (tip new) v .nil x C) := by
  obtain ⟨accurate, -, near, far, heightX⟩ := spine.right (by simp)
  have recC := accurate.recorded
  rw [recorded_grown fresh, Tilted] at tilted
  rw [levels_tip] at near far
  rw [recorded_tip] at heightX
  have low : C.levels ≤ 1 := by omega
  have recDown : (Outline.node C x .nil).refresh.recorded = C.levels := by
    show 1 + max C.recorded (-1) = C.levels
    omega
  have levelsDown : (Outline.node C x .nil).refresh.levels = C.levels + 1 := by
    show max C.levels 0 + 1 = _
    omega
  have down : (Outline.node C x .nil).refresh.Accurate := by
    refine ⟨accurate, trivial, low, Nat.zero_le _, ?_⟩
    show (Outline.node C x .nil).refresh.recorded = max (C.levels : Int) (0 : Nat)
    omega
  show Spine (Outline.node (Outline.node C x .nil).refresh v (tip new)).refresh ∧
    Same _ (Outline.node (Outline.node C x .nil).refresh v (tip new)).refresh
  constructor
  · refine .node down (.leaf fresh) ?_ ?_ rfl (.inl ?_)
    · rw [levelsDown, levels_tip]
      omega
    · rw [levelsDown, levels_tip]
      omega
    · rw [recDown, recorded_tip, Tilted]
      omega
  · refine ⟨?_, ?_, ?_⟩
    · rw [levels_node C, levels_tip]
      omega
    · rw [recorded_refresh _ (tip new), recDown, recorded_tip]
      show _ = x.height
      omega
    · rw [levels_refresh, levels_node _ (tip new), levelsDown, levels_tip, levels_node C, levels_tip,
        recorded_refresh _ (tip new), recDown, recorded_tip]
      omega

theorem leaf_up (height : v.height = 1) (spine : Spine (.node C x (tip v)))
    (even : ¬ Tilted (Outline.node .nil v (tip new)).refresh.recorded C.recorded) :
    Spine (Outline.node C x (Outline.node .nil v (tip new)).refresh).refresh ∧
      Grows (.node C x (tip v)) (Outline.node C x (Outline.node .nil v (tip new)).refresh).refresh := by
  obtain ⟨accurate, -, near, far, heightX⟩ := spine.right (by simp)
  have recC := accurate.recorded
  have grown := spine_grown (v := v) fresh
  have recorded := recorded_grown (v := v) fresh
  have levels : (Outline.node .nil v (tip new)).refresh.levels = 2 := rfl
  rw [recorded, Tilted] at even
  rw [levels_tip] at near far
  rw [recorded_tip] at heightX
  generalize (Outline.node .nil v (tip new)).refresh = r at *
  constructor
  · refine .node accurate grown ?_ ?_ rfl (.inl ?_)
    · omega
    · omega
    · rw [recorded, Tilted]
      omega
  · refine ⟨?_, .inr ⟨?_, ?_, ?_⟩⟩
    · rw [levels_node, levels_tip]
      omega
    · rw [recorded_refresh, recorded]
      show _ = x.height + 1
      omega
    · rw [levels_refresh, levels_node, levels_node, levels_tip]
      omega
    · rw [recorded_refresh, levels_refresh, levels_node]
      omega

theorem spine_insert_leaf (height : v.height = 1)
    (right : ∀ f ∈ fs, f.side = .right) (spine : Spine (plug (tip v) fs)) :
    Spine (climb (tip new) (⟨.right, v, .nil⟩ :: fs)) := by
  cases fs with
  | nil => exact spine_grown fresh
  | cons f fs =>
    obtain ⟨side, x, C⟩ := f
    obtain rfl : side = .right := right _ List.mem_cons_self
    have right' : ∀ f ∈ fs, f.side = .right := fun f member => right f (List.mem_cons_of_mem _ member)
    have above : Spine (.node C x (tip v)) := Spine.of_plug right' (by simp) spine
    rw [climb]
    split
    next tilted =>
      obtain ⟨turned, same⟩ := leaf_turn fresh height above tilted
      exact same.plug right' spine turned
    next even =>
      obtain ⟨up, grows⟩ := leaf_up fresh height above even
      exact climb_spine right' (spine_grown fresh).full up grows spine

end

end Leaf

theorem Spine.insert {new : Cell} (fresh : new.height = 1) (right : ∀ f ∈ fs, f.side = .right)
    (spine : Spine (plug .nil fs)) : Spine (climb (tip new) fs) := by
  cases fs with
  | nil => exact absurd rfl spine.full
  | cons f fs =>
    obtain ⟨side, v, L⟩ := f
    obtain rfl : side = .right := right _ List.mem_cons_self
    have right' : ∀ f ∈ fs, f.side = .right := fun f member => right f (List.mem_cons_of_mem _ member)
    have last : Spine (.node L v .nil) := Spine.of_plug right' (by simp) spine
    cases last with
    | @lone _ d low height =>
      refine climb_spine right' (by simp) ?_ ⟨?_, ?_⟩ spine
      · refine .node (accurate_tip low) (.leaf fresh) (Nat.le_succ 1) (Nat.le_succ 1) rfl (.inl ?_)
        rw [recorded_tip, recorded_tip, Tilted]
        omega
      · exact Nat.le_refl 2
      · have recorded : (Outline.node (tip d) v (tip new)).refresh.recorded = 2 := by
          rw [recorded_refresh, recorded_tip, recorded_tip]
          omega
        rcases height with one | two
        · refine .inr ⟨?_, rfl, recorded⟩
          show _ = v.height + 1
          rw [recorded, one]
          rfl
        · exact .inl ⟨recorded.trans two.symm, .inl rfl⟩
    | leaf height => exact spine_insert_leaf fresh height right' spine
    | node _ rest => exact absurd rfl rest.full

/-! ### The invariant -/

/-- The tree is empty, or all of it is below the top of a right edge. -/
def Tidy (s : Outline Cell) : Prop := s = .nil ∨ Spine s

theorem Tidy.balanced (tidy : Tidy s) : s.Balanced := by
  rcases tidy with rfl | spine
  · trivial
  · exact spine.balanced

theorem Tidy.insert {new : Cell} (tidy : Tidy (plug .nil fs)) (fresh : new.height = 1)
    (right : ∀ f ∈ fs, f.side = .right) : Tidy (climb (tip new) fs) := by
  rcases tidy with empty | spine
  · cases fs with
    | nil => exact .inr (.leaf fresh)
    | cons f fs => exact absurd empty (plug_ne_nil (join_ne_nil _ _ _ _) fs)
  · exact .inr (spine.insert fresh right)

/-- The node in the place `fs` is the only one, or one of two childless siblings, or above such two. -/
inductive Expendable : Outline Cell → Outline Cell → List (Frame Cell) → Prop
  | only : Expendable .nil .nil []
  | tip (side : Side) (b d : Cell) (fs : List (Frame Cell)) :
      Expendable .nil .nil (⟨side, b, tip d⟩ :: fs)
  | top (a d : Cell) (fs : List (Frame Cell)) : Expendable (tip a) (tip d) fs

theorem Tidy.delete (tidy : Tidy (plug (.node L c R) fs)) (expendable : Expendable L R fs)
    (drops : Drops fs L R r) : Tidy r := by
  have spine : Spine (plug (.node L c R) fs) := tidy.resolve_left (plug_ne_nil (by simp) fs)
  cases expendable with
  | only =>
    cases drops with
    | leaf => exact .inl rfl
    | right full => exact absurd rfl full
    | left full => exact absurd rfl full
    | both full => exact absurd rfl full
  | tip side b d fs =>
    cases drops with
    | leaf =>
      have good : Good (plug (join side (tip c) b (tip d)) fs) := .inr spine
      have eases := (eases_tip side b c d).plug (by rw [recorded_join, recorded_join]) good
      exact .inr (eases.spine spine)
    | right full => exact absurd rfl full
    | left full => exact absurd rfl full
    | both full => exact absurd rfl full
  | top a d fs =>
    have low : a.height = 0 := (Good.of_plug (.inr spine) (Nat.le_refl 2)).low
    cases drops with
    | both _ least settles =>
      cases least
      refine .inr ((eases_settles settles (eases_top low) ?_ (.inr spine)).spine spine)
      show ¬ Tilted a.height (-1)
      unfold Tilted
      omega

end Outline

/-! ### In memory -/

def levelsBelow : Nat → Tree → Ptr → Result Nat
  | _, _, none => .ok 0
  | 0, _, some _ => .error .fuel
  | fuel + 1, t, some a => do
    let n ← t.node (some a)
    let left ← levelsBelow fuel t n.left
    let right ← levelsBelow fuel t n.right
    pure (max left right + 1)

/-- Two numbers of levels that differ by one at most. -/
def Close : Result Nat → Result Nat → Prop
  | .ok l, .ok r => l ≤ r + 1 ∧ r ≤ l + 1
  | _, _ => False

instance : (x y : Result Nat) → Decidable (Close x y)
  | .ok l, .ok r => inferInstanceAs (Decidable (l ≤ r + 1 ∧ r ≤ l + 1))
  | .ok _, .error _ => inferInstanceAs (Decidable False)
  | .error _, _ => inferInstanceAs (Decidable False)

/-- Something holds at every node of a traversal. -/
def Throughout (P : Node → Prop) : Result (List (NodeId × Node)) → Prop
  | .ok nodes => ∀ p ∈ nodes, P p.2
  | .error _ => False

instance (P : Node → Prop) [DecidablePred P] : (x : Result (List (NodeId × Node))) →
    Decidable (Throughout P x)
  | .ok nodes => inferInstanceAs (Decidable (∀ p ∈ nodes, P p.2))
  | .error _ => inferInstanceAs (Decidable False)

/-- At every node the levels of the left and the right subtree differ by one at most. -/
def Avl (fuel : Nat) (t : Tree) : Prop :=
  Throughout (fun n => Close (levelsBelow fuel t n.left) (levelsBelow fuel t n.right))
    (inorder fuel t t.root)

instance (fuel : Nat) (t : Tree) : Decidable (Avl fuel t) := inferInstanceAs (Decidable (Throughout _ _))

namespace Tree

def IsTip (t : Tree) (p : Ptr) : Prop := ∃ n ∈ p.bind t.mem, n.left = none ∧ n.right = none

/-- A node whose children are both there, and have no children. -/
def HasTips (t : Tree) (p : Ptr) : Prop := ∃ n ∈ p.bind t.mem, t.IsTip n.left ∧ t.IsTip n.right

/-- A new node is later than all others. A node that goes is the only one, or it is one of a node
and its two childless children. -/
def Gentle (t : Tree) : TreeOp → Prop
  | .insert time item => ∀ a < t.fresh, ∀ n ∈ t.mem a, compareNodes n { time, shadowItem := item } < 0
  | .delete a => ∃ n ∈ t.mem a,
      t.IsTip (some a) ∧ (n.parent = none ∨ t.HasTips n.parent) ∨ t.HasTips (some a)

instance (t : Tree) (p : Ptr) : Decidable (t.IsTip p) :=
  inferInstanceAs (Decidable (∃ n ∈ p.bind t.mem, _ ∧ _))

instance (t : Tree) (p : Ptr) : Decidable (t.HasTips p) :=
  inferInstanceAs (Decidable (∃ n ∈ p.bind t.mem, t.IsTip n.left ∧ t.IsTip n.right))

instance (t : Tree) : (op : TreeOp) → Decidable (t.Gentle op)
  | .insert time item => inferInstanceAs (Decidable (∀ a < t.fresh, ∀ n ∈ t.mem a,
      compareNodes n { time, shadowItem := item } < 0))
  | .delete a => inferInstanceAs (Decidable (∃ n ∈ t.mem a,
      t.IsTip (some a) ∧ (n.parent = none ∨ t.HasTips n.parent) ∨ t.HasTips (some a)))

end Tree

variable {t : Tree} {s r L R : Outline Cell} {fs : List (Frame Cell)} {c : Cell} {g : Registry}
  {fuel : Nat}

theorem levelsBelow_spec {p : Ptr} (holds : Holds t p s) (enough : s.size ≤ fuel) :
    levelsBelow fuel t s.ptr = .ok s.levels := by
  induction s generalizing p fuel with
  | nil => cases fuel <;> rfl
  | node l c r ihl ihr =>
    rw [size] at enough
    obtain ⟨fuel, rfl⟩ : ∃ k, fuel = k + 1 := ⟨fuel - 1, by omega⟩
    obtain ⟨⟨n, here, -, isLeft, isRight, -⟩, left, right⟩ := holds
    show levelsBelow (fuel + 1) t (some c.id) = _
    rw [levelsBelow, Tree.node_ok here, ok_bind, show n.left = l.ptr from isLeft,
      ihl left (by omega), ok_bind, show n.right = r.ptr from isRight, ihr right (by omega), ok_bind]
    rfl

theorem close_of_balanced {p : Ptr} {a : NodeId} {n : Node} (holds : Holds t p s)
    (balanced : s.Balanced) (enough : s.size ≤ fuel) (member : a ∈ s.ids) (here : t.mem a = some n) :
    Close (levelsBelow fuel t n.left) (levelsBelow fuel t n.right) := by
  induction s generalizing p with
  | nil => cases member
  | node l c r ihl ihr =>
    rw [size] at enough
    obtain ⟨⟨m, here', -, isLeft, isRight, -⟩, left, right⟩ := holds
    obtain ⟨balancedL, balancedR, near, far⟩ := balanced
    rcases (mem_ids_join (d := .left)).mp member with rfl | inL | inR
    · rw [here'] at here
      cases here
      rw [show n.left = l.ptr from isLeft, show n.right = r.ptr from isRight,
        levelsBelow_spec left (by omega), levelsBelow_spec right (by omega)]
      exact ⟨near, far⟩
    · exact ihl left balancedL (by omega) inL
    · exact ihr right balancedR (by omega) inR

theorem avl_of_balanced (represents : Represents t s) (balanced : s.Balanced)
    (enough : s.size ≤ fuel) : Avl fuel t := by
  obtain ⟨nodes, walked, cells, read⟩ := inorder_spec represents.holds enough
  unfold Avl
  rw [show t.root = s.ptr from represents.around, walked]
  intro p member
  refine close_of_balanced represents.holds balanced enough (a := p.1) ?_ (read p member)
  rw [Outline.ids, ← cells, List.map_map]
  exact List.mem_map_of_mem (f := fun p : NodeId × Node => p.1) member

/-! ### Gentle runs -/

theorem tip_of_isTip {p : Ptr} (holds : Holds t p s) (isTip : t.IsTip s.ptr) : ∃ d, s = tip d := by
  obtain ⟨n, here, noLeft, noRight⟩ := isTip
  cases s with
  | nil => cases here
  | node l d r =>
    obtain ⟨⟨m, here', -, isLeft, isRight, -⟩, -⟩ := holds
    cases here'.symm.trans here
    have emptyL : l = .nil := ptr_eq_none.mp (isLeft.symm.trans noLeft)
    have emptyR : r = .nil := ptr_eq_none.mp (isRight.symm.trans noRight)
    exact ⟨d, by rw [emptyL, emptyR]⟩

theorem expendable_of_gentle (focus : Focus t (.node L c R) fs) (gentle : t.Gentle (.delete c.id)) :
    Expendable L R fs := by
  obtain ⟨n, here, ⟨isTip, place⟩ | ⟨m, here', tipL, tipR⟩⟩ := gentle
  · obtain ⟨d, same⟩ := tip_of_isTip focus.holds isTip
    cases same
    obtain ⟨m, here', above, -⟩ := focus.holds.1
    cases here'.symm.trans here
    cases fs with
    | nil => exact .only
    | cons f fs =>
      obtain ⟨side, b, C⟩ := f
      obtain ⟨⟨q, hereB, -, near, far, -⟩, beside, -⟩ := focus.around
      rcases place with root | ⟨q', hereB', tips⟩
      · cases above.symm.trans root
      · rw [above] at hereB'
        cases hereB.symm.trans hereB'
        have tipC : t.IsTip C.ptr := by
          cases side with
          | left => exact far ▸ tips.2
          | right => exact far ▸ tips.1
        obtain ⟨e, rfl⟩ := tip_of_isTip beside tipC
        exact .tip side b e fs
  · obtain ⟨⟨q, hereC, -, isLeft, isRight, -⟩, left, right⟩ := focus.holds
    cases hereC.symm.trans here'
    obtain ⟨a, rfl⟩ := tip_of_isTip left (isLeft ▸ tipL)
    obtain ⟨d, rfl⟩ := tip_of_isTip right (isRight ▸ tipR)
    exact .top a d fs

theorem label_mem (s : Outline Cell) {f : Frame Cell} (member : f ∈ fs) :
    f.label ∈ (plug s fs).toList := by
  induction fs generalizing s with
  | nil => cases member
  | cons h fs ih =>
    rcases List.mem_cons.mp member with rfl | member
    · rw [plug, toList_plug]
      refine List.mem_append_right _ (List.mem_append_left _ ?_)
      obtain ⟨side, x, C⟩ := f
      cases side <;> simp [Frame.around, join, toList]
    · exact ih _ member

theorem path_right (k : Stamp) (later : ∀ d ∈ s.toList, d.stamp < k) :
    ∀ f ∈ path k s [], f.side = .right := by
  intro f member
  have inside : f.label ∈ s.toList := by
    have := label_mem .nil member
    rwa [plug_path] at this
  have sides := path_sides k s [] (fun _ never => (nomatch never)) f member
  exact Side.eq_other fun left => lt_asymm (later _ inside) (sides.mpr left)

theorem Holds.cell {p : Ptr} {d : Cell} (holds : Holds t p s) (member : d ∈ s.toList) :
    ∃ n, t.mem d.id = some n ∧ n.cell d.id = d := by
  induction s generalizing p with
  | nil => cases member
  | node l c r ihl ihr =>
    obtain ⟨⟨n, here, -, -, -, cell⟩, left, right⟩ := holds
    rcases List.mem_append.mp member with member | member
    · exact ihl left member
    · rcases List.mem_cons.mp member with rfl | member
      · exact ⟨n, here, cell⟩
      · exact ihr right member

theorem Edit.tidy {op : TreeOp} {s' : Outline Cell} (represents : Represents t s)
    (fresh : t.fresh = g.next) (indexes : Indexes s g) (tidy : Tidy s) (gentle : t.Gentle op)
    (edit : Edit g.next s op s') : Tidy s' := by
  cases edit with
  | insert _ time item =>
    have later : ∀ d ∈ s.toList, d.stamp < stampOf time item := by
      intro d member
      obtain ⟨n, here, cell⟩ := represents.holds.cell member
      have old : d.id < t.fresh := fresh ▸ indexes.below _ (List.mem_map_of_mem member)
      rw [← cell_stamp cell]
      exact (compareNodes_lt_iff _ _).mp (gentle d.id old n here)
    refine Tidy.insert ?_ rfl (path_right _ later)
    rwa [plug_path]
  | delete drops =>
    exact tidy.delete (expendable_of_gentle (focus_iff.mpr represents) gentle) drops

/-- After every run of insertions and deletions that are gentle the tree is balanced, and the number
of its levels is logarithmic in the number of nodes. -/
theorem gentle_runs_balanced {ops : List TreeOp} (valid : Run.exec Registry.step {} ops = some g) :
    ∃ enough, ∀ fuel, enough ≤ fuel → Run.Along (Tree.step fuel) Tree.Gentle {} ops →
      ∃ t h, Run.exec (Tree.step fuel) {} ops = some t ∧ Avl fuel t ∧
        levelsBelow fuel t t.root = .ok h ∧ h ≤ 2 * (g.live.length + 1).log2 := by
  obtain ⟨enough, run⟩ := run_spec (P := Tidy) (C := Tree.Gentle)
    (fun _ _ _ _ _ represents fresh indexes tidy gentle edit =>
      edit.tidy represents fresh indexes tidy gentle) indexes_empty valid
  refine ⟨max enough g.live.length, fun fuel large along => ?_⟩
  obtain ⟨t, s, done, represents, indexes, tidy⟩ :=
    run fuel (le_of_max_le_left large) {} represents_empty rfl (.inl rfl) along
  have size : s.size = g.live.length := by rw [size_eq, indexes.live.length_eq]
  have walk : s.size ≤ fuel := size ▸ le_of_max_le_right large
  refine ⟨t, s.levels, done, avl_of_balanced represents tidy.balanced walk, ?_, ?_⟩
  · rw [show t.root = s.ptr from represents.around, levelsBelow_spec represents.holds walk]
  · rw [← size]
    exact tidy.balanced.levels_le

/-- Three nodes, of which the middle one goes, and one more. -/
theorem gentle_run_balanced :
    ∃ fuel t h, Run.Along (Tree.step fuel) Tree.Gentle {}
        [.insert ⟨1, 0⟩ 0, .insert ⟨2, 0⟩ 1, .insert ⟨3, 0⟩ 2, .delete 1, .insert ⟨4, 0⟩ 1] ∧
      Run.exec (Tree.step fuel) {}
        [.insert ⟨1, 0⟩ 0, .insert ⟨2, 0⟩ 1, .insert ⟨3, 0⟩ 2, .delete 1, .insert ⟨4, 0⟩ 1] = some t ∧
      Avl fuel t ∧ levelsBelow fuel t t.root = .ok h ∧ h ≤ 2 * (3 + 1).log2 := by
  have valid : Run.exec Registry.step {}
      [.insert ⟨1, 0⟩ 0, .insert ⟨2, 0⟩ 1, .insert ⟨3, 0⟩ 2, .delete 1, .insert ⟨4, 0⟩ 1]
        = some ⟨4, [(3, ⟨4, 0⟩, 1), (2, ⟨3, 0⟩, 2), (0, ⟨1, 0⟩, 0)]⟩ := rfl
  obtain ⟨enough, run⟩ := gentle_runs_balanced valid
  have gentle : Run.Along (Tree.step 5) Tree.Gentle {}
      [.insert ⟨1, 0⟩ 0, .insert ⟨2, 0⟩ 1, .insert ⟨3, 0⟩ 2, .delete 1, .insert ⟨4, 0⟩ 1] := by
    decide +kernel
  have ends : (Run.exec (Tree.step 5) {}
      [.insert ⟨1, 0⟩ 0, .insert ⟨2, 0⟩ 1, .insert ⟨3, 0⟩ 2, .delete 1, .insert ⟨4, 0⟩ 1]).isSome := by
    decide +kernel
  obtain ⟨t₅, done⟩ := Option.isSome_iff_exists.mp ends
  have along := Run.along_extend (Tree.step_mono (Nat.le_add_left 5 enough)) done gentle
  obtain ⟨t, h, balanced⟩ := run (enough + 5) (Nat.le_add_right _ _) along
  exact ⟨enough + 5, t, h, along, balanced⟩

/-- Six nodes that are not inserted in their order; the node inserted as the third has three levels on
its left and one on its right. And four nodes in their order, of which the last is deleted, which is
childless but has a sibling with a child; two levels on the left, none on the right. -/
theorem tree_loses_balance :
    (∃ g t n, Run.exec Registry.step {} [.insert ⟨0, 0⟩ 0, .insert ⟨1, 0⟩ 1, .insert ⟨4, 0⟩ 2,
        .insert ⟨5, 0⟩ 3, .insert ⟨2, 0⟩ 4, .insert ⟨3, 0⟩ 5] = some g ∧
      Run.exec (Tree.step 6) {} [.insert ⟨0, 0⟩ 0, .insert ⟨1, 0⟩ 1, .insert ⟨4, 0⟩ 2,
        .insert ⟨5, 0⟩ 3, .insert ⟨2, 0⟩ 4, .insert ⟨3, 0⟩ 5] = some t ∧
      t.mem 2 = some n ∧ levelsBelow 6 t n.left = .ok 3 ∧ levelsBelow 6 t n.right = .ok 1 ∧
      ¬ Avl 6 t) ∧
    ∃ g t n, Run.exec Registry.step {} [.insert ⟨1, 0⟩ 0, .insert ⟨2, 0⟩ 1, .insert ⟨3, 0⟩ 2,
        .insert ⟨4, 0⟩ 3, .delete 3] = some g ∧
      Run.exec (Tree.step 6) {} [.insert ⟨1, 0⟩ 0, .insert ⟨2, 0⟩ 1, .insert ⟨3, 0⟩ 2,
        .insert ⟨4, 0⟩ 3, .delete 3] = some t ∧
      t.mem 2 = some n ∧ levelsBelow 6 t n.left = .ok 2 ∧ levelsBelow 6 t n.right = .ok 0 ∧
      ¬ Avl 6 t :=
  ⟨⟨_, _, _, rfl, rfl, rfl, rfl, rfl, by decide +kernel⟩,
    ⟨_, _, _, rfl, rfl, rfl, rfl, rfl, by decide +kernel⟩⟩

end MemExchange.Shadow
