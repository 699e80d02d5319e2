import MemExchange.Shadow.Outline

/-!
# Rotations on outlines

What `left_rotate`, `right_rotate` and the four cases of a rebalancing do to the tree as a value. No
pointer they follow is null: the child that comes up is there, and of the children of that one only
the one that comes up in a double rotation has to be.
-/
namespace MemExchange.Shadow

open Outline

namespace Outline

/-- The height of the top is computed from those of its children. -/
def refresh : Outline Cell → Outline Cell
  | .nil => .nil
  | .node l c r => .node l { c with height := 1 + max l.recorded r.recorded } r

theorem refresh_join (side : Side) (near far : Outline Cell) (c : Cell) :
    (join side near c far).refresh
      = join side near { c with height := 1 + max near.recorded far.recorded } far := by
  cases side with
  | left => rfl
  | right => rw [max_comm]; rfl

@[simp] theorem ptr_refresh (s : Outline Cell) : s.refresh.ptr = s.ptr := by
  cases s <;> rfl

@[simp] theorem records_refresh (s : Outline Cell) : s.refresh.records = s.records := by
  cases s with
  | nil => rfl
  | node l c r =>
    simp only [refresh, records, toList, List.map_append, List.map_cons]
    rfl

@[simp] theorem ids_refresh (s : Outline Cell) : s.refresh.ids = s.ids := by
  rw [ids_eq, ids_eq, records_refresh]

theorem refresh_join_height (side : Side) (near far : Outline Cell) (c : Cell) (h : Int) :
    (join side near { c with height := h } far).refresh = (join side near c far).refresh := by
  cases side <;> rfl

theorem refresh_refresh (s : Outline Cell) : s.refresh.refresh = s.refresh := by
  cases s <;> rfl

theorem refresh_ne_nil {s : Outline Cell} (some : s ≠ .nil) : s.refresh ≠ .nil := by
  rwa [ne_eq, ← ptr_eq_none, ptr_refresh, ptr_eq_none]

theorem up_mem {fs : List (Frame Cell)} {a : NodeId} (above : up fs = some a) : a ∈ outer fs := by
  cases fs with
  | nil => cases above
  | cons f fs =>
    cases above
    exact mem_outer_cons.mpr (.inl rfl)

theorem distinct_plug_of_ids {s s' : Outline Cell} {fs : List (Frame Cell)} (same : s'.ids = s.ids)
    (distinct : (plug s fs).Distinct) : (plug s' fs).Distinct := by
  rw [distinct_plug, Distinct] at distinct ⊢
  rwa [same]

end Outline

variable {t t' : Tree} {s A B C : Outline Cell} {fs : List (Frame Cell)} {p q parent : Ptr}
  {side : Side} {x y z : Cell} {a : NodeId} {n : Node}

theorem Holds.wrote {m : Node} (holds : Holds t p s) (wrote : Tree.Wrote t t' a m)
    (out : a ∉ s.ids) : Holds t' p s :=
  holds.congr fun b member => wrote.rest b fun same => out (same ▸ member)

theorem HoldsAround.wrote {m : Node} (around : HoldsAround t p fs) (wrote : Tree.Wrote t t' a m)
    (out : a ∉ outer fs) : HoldsAround t' p fs :=
  around.congr wrote.root fun b member => wrote.rest b fun same => out (same ▸ member)

theorem Side.ne_other (side : Side) : side ≠ side.other := by cases side <;> simp [Side.other]

theorem Side.eq_other {s s' : Side} (apart : s ≠ s') : s = s'.other := by
  cases s <;> cases s' <;> first | rfl | exact absurd rfl apart

theorem child_setChild (n : Node) (s s' : Side) (p : Ptr) :
    (n.setChild s p).child s' = if s' = s then p else n.child s' := by
  cases s <;> cases s' <;> rfl

theorem setChild_parent (n : Node) (s : Side) (p : Ptr) : (n.setChild s p).parent = n.parent := by
  cases s <;> rfl

theorem setChild_cell (n : Node) (s : Side) (p : Ptr) (a : NodeId) :
    (n.setChild s p).cell a = n.cell a := by
  cases s <;> rfl

/-! ### Single writes -/

theorem fixHeight_spec (focus : Focus t s fs) (some : s ≠ .nil) :
    ∃ t', t.fixHeight s.ptr = .ok t' ∧ Focus t' s.refresh fs := by
  obtain ⟨l, c, r, rfl⟩ := exists_join .left some
  obtain ⟨⟨n, here, above, isLeft, isRight, cell⟩, left, right⟩ := focus.holds
  obtain ⟨inside, -, apart⟩ := focus.inner
  obtain ⟨-, -, outL, outR, -⟩ := (distinct_join (d := .left)).mp inside
  have heightL : t.height n.left = .ok l.recorded := by
    rw [show n.left = l.ptr from isLeft]
    exact left.height
  have heightR : t.height n.right = .ok r.recorded := by
    rw [show n.right = r.ptr from isRight]
    exact right.height
  obtain ⟨t', fixed, wrote⟩ := Tree.fixHeight_ok here heightL heightR
  refine ⟨t', fixed, focus.around.wrote wrote (apart c.id (mem_ids_join.mpr (.inl rfl))),
    ⟨⟨_, wrote.here, above, isLeft, isRight, ?_⟩, left.wrote wrote outL, right.wrote wrote outR⟩,
    distinct_plug_of_ids (ids_refresh _) focus.distinct⟩
  exact congrArg (fun c : Cell => { c with height := 1 + max l.recorded r.recorded }) cell

theorem rehang_spec {f : Frame Cell} (around : HoldsAround t p (f :: fs))
    (nodup : (outer (f :: fs)).Nodup) (v : Ptr) :
    ∃ t', t.write (some f.label.id) (·.setChild f.side v) = .ok t' ∧ HoldsAround t' v (f :: fs) ∧
      ∀ a, a ≠ f.label.id → t'.mem a = t.mem a := by
  obtain ⟨⟨n, here, above, -, away, cell⟩, beside, around⟩ := around
  obtain ⟨t', wrote, at_⟩ := Tree.write_ok here (·.setChild f.side v)
  have unique : f.label.id ∉ f.sibling.ids ∧ f.label.id ∉ outer fs := by
    have : (plug (f.around .nil) fs).Distinct := by
      rw [← plug, distinct_plug]
      exact ⟨List.nodup_nil, nodup, fun _ never => (by cases never)⟩
    obtain ⟨inside, -, apart⟩ := distinct_plug.mp this
    obtain ⟨-, -, -, out, -⟩ := distinct_join.mp inside
    exact ⟨out, apart _ (mem_ids_join.mpr (.inl rfl))⟩
  refine ⟨t', wrote, ⟨⟨_, at_.here, ?_, ?_, ?_, ?_⟩, beside.wrote at_ unique.1,
    around.wrote at_ unique.2⟩, at_.rest⟩
  · rw [setChild_parent, above]
  · rw [child_setChild, if_pos rfl]
  · rw [child_setChild, if_neg (Side.ne_other _).symm, away]
  · rw [setChild_cell, cell]

theorem relink_spec (side : Side) {u : NodeId} (around : HoldsAround t (some u) fs)
    (nodup : (outer fs).Nodup) (apart : u ∉ outer fs) (v : Ptr) :
    ∃ t', relink side t (some u) (up fs) v = .ok t' ∧ HoldsAround t' v fs ∧
      ∀ a, up fs ≠ some a → t'.mem a = t.mem a := by
  cases fs with
  | nil => exact ⟨_, rfl, rfl, fun _ _ => rfl⟩
  | cons f fs =>
    obtain ⟨t', wrote, around', rest⟩ := rehang_spec around nodup v
    obtain ⟨⟨n, here, -, hole, away, -⟩, -, -⟩ := around
    refine ⟨t', ?_, around', fun a other => rest a fun same => other (same ▸ rfl)⟩
    -- the write is at the side of the subtree, whichever side is tested first
    show relink side t (some u) (some f.label.id) v = _
    unfold relink
    dsimp only
    rw [Tree.node_ok here, ok_bind, ← wrote]
    by_cases same : side = f.side
    · rw [same, if_pos hole.symm]
    · have other : some u ≠ n.child f.side.other := by
        rw [away]
        intro same
        exact apart (mem_outer_cons.mpr (.inr (.inl (mem_ids_of_ptr same.symm))))
      rw [Side.eq_other same, if_neg other]
      cases f.side <;> rfl

theorem adopt_spec (holds : Holds t parent s) (distinct : s.Distinct) (top : s.ptr = some a)
    (above : Ptr) : ∃ t', t.write (some a) (fun n => { n with parent := above }) = .ok t' ∧
      Holds t' above s ∧ t'.root = t.root ∧ ∀ b ∉ s.ids, t'.mem b = t.mem b := by
  obtain ⟨n, here⟩ : ∃ n, t.mem a = some n := by
    cases s with
    | nil => cases top
    | node l c r =>
      cases top
      obtain ⟨⟨n, here, -⟩, -⟩ := holds
      exact ⟨n, here⟩
  obtain ⟨t', wrote, at_⟩ := Tree.write_ok here fun n => { n with parent := above }
  refine ⟨t', wrote, holds.reparent distinct (fun b m same here' => ?_) (fun b _ other => ?_), at_.root,
    fun b outside => ?_⟩
  · rw [top] at same
    cases same
    rw [here] at here'
    cases here'
    exact at_.here
  · refine at_.rest b fun same => other ?_
    rw [top, same]
  · refine at_.rest b fun same => outside ?_
    rw [same]
    exact mem_ids_of_ptr top

/-! ### Rotations -/

theorem liftChild_spec (around : HoldsAround t (some x.id) fs)
    (atX : NodeAt t x (up fs) side C.ptr B.ptr) (holdsC : Holds t (some x.id) C)
    (holdsB : Holds t (some x.id) B) (atY : NodeAt t y p side q A.ptr)
    (holdsA : Holds t (some y.id) A)
    (distinct : (plug (join side (join side C x B) y A) fs).Distinct) : ∃ t', (do
      let parent := (← t.node (some x.id)).parent
      let t ← t.write (some y.id) fun n => { n with parent := parent }
      let t ← relink side t (some x.id) parent (some y.id)
      let t ← t.write (some y.id) (·.setChild side (some x.id))
      let t ← t.write (some x.id) fun n => { n with parent := some y.id }
      let t ← t.fixHeight (some x.id)
      t.fixHeight (some y.id)) = .ok t' ∧
      Focus t' (join side (join side C x B).refresh y A).refresh fs := by
  obtain ⟨inside, nodup, apart⟩ := distinct_plug.mp distinct
  obtain ⟨lower, -, outX, outA, apartA⟩ := distinct_join.mp inside
  obtain ⟨-, -, outC, outB, apartB⟩ := distinct_join.mp lower
  have insideX : x.id ∈ (join side C x B).ids := mem_ids_join.mpr (.inl rfl)
  have other : x.id ≠ y.id := fun same => outX (same ▸ insideX)
  have outer_of : ∀ {a}, a ∈ (join side (join side C x B) y A).ids → ∀ {b}, b ∈ outer fs → a ≠ b := by
    rintro a member _ member' rfl
    exact apart a member member'
  have topX := @outer_of x.id (mem_ids_join.mpr (.inr (.inl insideX)))
  have topY := @outer_of y.id (mem_ids_join.mpr (.inl rfl))
  obtain ⟨n, hereX, parentX, nearX, farX, cellX⟩ := atX
  obtain ⟨m, hereY, parentY, nearY, farY, cellY⟩ := atY
  rw [Tree.node_ok hereX, ok_bind, parentX]
  dsimp only
  obtain ⟨t₁, eq₁, wrote₁⟩ := Tree.write_ok hereY fun n => { n with parent := up fs }
  rw [eq₁, ok_bind]
  have around₁ := around.wrote wrote₁ fun member => topY member rfl
  obtain ⟨t₂, eq₂, around₂, rest₂⟩ :=
    relink_spec side around₁ nodup (fun member => topX member rfl) (some y.id)
  rw [eq₂, ok_bind]
  have hereY₂ : t₂.mem y.id = some { m with parent := up fs } := by
    rw [rest₂ _ fun same => topY (up_mem same) rfl, wrote₁.here]
  obtain ⟨t₃, eq₃, wrote₃⟩ := Tree.write_ok hereY₂ (·.setChild side (some x.id))
  rw [eq₃, ok_bind]
  have hereX₃ : t₃.mem x.id = some n := by
    rw [wrote₃.rest _ other, rest₂ _ fun same => topX (up_mem same) rfl, wrote₁.rest _ other, hereX]
  obtain ⟨t₄, eq₄, wrote₄⟩ := Tree.write_ok hereX₃ fun n => { n with parent := some y.id }
  rw [eq₄, ok_bind]
  -- everything else is as it was
  have still : ∀ {q s}, Holds t q s → x.id ∉ s.ids → y.id ∉ s.ids →
      (∀ b ∈ s.ids, b ∈ (join side (join side C x B) y A).ids) → Holds t₄ q s := by
    intro q s holds outX outY inside
    refine (Holds.wrote ?_ wrote₃ outY).wrote wrote₄ outX
    exact (holds.wrote wrote₁ outY).congr fun b member =>
      rest₂ b fun same => outer_of (inside b member) (up_mem same) rfl
  have insideB : ∀ b ∈ B.ids, b ∈ (join side C x B).ids := fun b member =>
    mem_ids_join.mpr (.inr (.inr member))
  have insideC : ∀ b ∈ C.ids, b ∈ (join side C x B).ids := fun b member =>
    mem_ids_join.mpr (.inr (.inl member))
  have hereY₄ : t₄.mem y.id = some ({ m with parent := up fs }.setChild side (some x.id)) := by
    rw [wrote₄.rest _ other.symm, wrote₃.here]
  have lifted : Focus t₄ (join side (join side C x B) y A) fs := by
    refine ⟨?_, holds_join.mpr ⟨⟨_, hereY₄, ?_, ?_, ?_, ?_⟩, holds_join.mpr ⟨⟨_, wrote₄.here, rfl, ?_,
      ?_, ?_⟩, ?_, ?_⟩, ?_⟩, distinct⟩
    · rw [ptr_join]
      exact (around₂.wrote wrote₃ fun member => topY member rfl).wrote wrote₄ fun member => topX member rfl
    · rw [setChild_parent]
    · rw [child_setChild, if_pos rfl, ptr_join]
    · rwa [child_setChild, if_neg (Side.ne_other _).symm]
    · rwa [setChild_cell]
    · exact nearX
    · exact farX
    · exact cellX
    · exact still holdsC outC (fun member => outX (insideC _ member)) fun b member =>
        mem_ids_join.mpr (.inr (.inl (insideC b member)))
    · exact still holdsB outB (fun member => outX (insideB _ member)) fun b member =>
        mem_ids_join.mpr (.inr (.inl (insideB b member)))
    · exact still holdsA (apartA _ insideX) outA fun b member => mem_ids_join.mpr (.inr (.inr member))
  obtain ⟨t₅, eq₅, focus₅⟩ := fixHeight_spec (focus_join.mp lifted) (join_ne_nil _ _ _ _)
  rw [ptr_join] at eq₅
  rw [eq₅, ok_bind]
  obtain ⟨t₆, eq₆, focus₆⟩ := fixHeight_spec (focus_join.mpr focus₅) (join_ne_nil _ _ _ _)
  rw [ptr_join] at eq₆
  exact ⟨t₆, eq₆, focus₆⟩

/-- A rotation lifts the child and refreshes both heights, child first. -/
theorem rotate_spec (focus : Focus t (join side C x (join side B y A)) fs) :
    ∃ t', rotate side t (some x.id) = .ok t' ∧
      Focus t' (join side (join side C x B).refresh y A).refresh fs := by
  obtain ⟨inside, nodup, apart⟩ := focus.inner
  obtain ⟨-, upper, outC, outY, apartC⟩ := distinct_join.mp inside
  obtain ⟨distinctB, -, outB, outA, apartB⟩ := distinct_join.mp upper
  obtain ⟨⟨n, hereX, parentX, nearX, farX, cellX⟩, holdsC, holdsY⟩ := holds_join.mp focus.holds
  obtain ⟨⟨m, hereY, parentY, nearY, farY, cellY⟩, holdsB, holdsA⟩ := holds_join.mp holdsY
  have other : x.id ≠ y.id := fun same => outY (same ▸ mem_ids_join.mpr (.inl rfl))
  have distinct : (plug (join side (join side C x B) y A) fs).Distinct := by
    refine distinct_plug_of_ids ?_ focus.distinct
    cases side <;> simp [ids, join, toList]
  rw [ptr_join] at farX
  unfold rotate
  rw [Tree.node_ok hereX, ok_bind, farX]
  dsimp only
  rw [Tree.node_ok hereY, ok_bind, nearY]
  obtain ⟨t₁, eq₁, wrote₁⟩ := Tree.write_ok hereX (·.setChild side.other B.ptr)
  rw [eq₁, ok_bind]
  have inY : ∀ b ∈ B.ids, b ∈ (join side B y A).ids := fun b member =>
    mem_ids_join.mpr (.inr (.inl member))
  have atX₁ : NodeAt t₁ x (up fs) side C.ptr B.ptr := by
    refine ⟨_, wrote₁.here, ?_, ?_, ?_, ?_⟩
    · rw [setChild_parent, parentX]
    · rw [child_setChild, if_neg (Side.ne_other _), nearX]
    · rw [child_setChild, if_pos rfl]
    · rw [setChild_cell, cellX]
  have atY₁ : NodeAt t₁ y (some x.id) side B.ptr A.ptr :=
    ⟨m, by rw [wrote₁.rest _ other.symm, hereY], parentY, nearY, farY, cellY⟩
  have around₁ : HoldsAround t₁ (some x.id) fs := by
    have around := focus.around
    rw [ptr_join] at around
    exact around.wrote wrote₁ (apart _ (mem_ids_join.mpr (.inl rfl)))
  have holdsC₁ := holdsC.wrote wrote₁ outC
  have holdsA₁ := holdsA.wrote wrote₁ fun member => outY (mem_ids_join.mpr (.inr (.inr member)))
  have holdsB₁ := holdsB.wrote wrote₁ fun member => outY (inY _ member)
  cases inner : B.ptr with
  | none =>
    have empty := ptr_eq_none.mp inner
    rw [pure_bind]
    refine liftChild_spec around₁ (B := B) atX₁ holdsC₁ ?_ atY₁ holdsA₁ distinct
    rw [empty]
    trivial
  | some i =>
    -- the inner child of `y` goes to `x`
    obtain ⟨t₂, eq₂, holdsB₂, root₂, rest₂⟩ := adopt_spec holdsB₁ distinctB inner (some x.id)
    dsimp only
    rw [eq₂, ok_bind]
    have atX₂ : NodeAt t₂ x (up fs) side C.ptr B.ptr := by
      obtain ⟨n₁, here₁, rest⟩ := atX₁
      exact ⟨n₁, by rw [rest₂ _ fun inB => outY (inY _ inB), here₁], rest⟩
    have atY₂ : NodeAt t₂ y (some x.id) side B.ptr A.ptr := by
      obtain ⟨m₁, here₁, rest⟩ := atY₁
      exact ⟨m₁, by rw [rest₂ _ outB, here₁], rest⟩
    refine liftChild_spec (around₁.congr root₂ fun b member => rest₂ b fun inB => ?_) atX₂
      (holdsC₁.congr fun b member => rest₂ b fun inB => ?_) holdsB₂ atY₂
      (holdsA₁.congr fun b member => rest₂ b fun inB => ?_) distinct
    · exact apart b (mem_ids_join.mpr (.inr (.inr (inY b inB)))) member
    · exact apartC b member (inY b inB)
    · exact apartB b inB member

/-! ### The four cases -/

namespace Outline

/-- `y` comes up over `x`, on whose side it hangs. -/
def lift (side : Side) (A : Outline Cell) (y : Cell) (B : Outline Cell) (x : Cell)
    (C : Outline Cell) : Outline Cell :=
  (join side A y (join side B x C).refresh).refresh

/-- `z`, the inner child of `y`, comes up over both. -/
def liftInner (side : Side) (A : Outline Cell) (y : Cell) (D : Outline Cell) (z : Cell)
    (E : Outline Cell) (x : Cell) (C : Outline Cell) : Outline Cell :=
  (join side (join side A y D).refresh z (join side E x C).refresh).refresh

end Outline

section

variable (focus : Focus t (join side (join side A y B) x C) fs)
include focus

theorem rotateCase_eq (z : Ptr) : rotateCase t (some x.id) (some y.id) z =
      if z = A.ptr then rotate side.other t (some x.id)
      else if z = B.ptr then do
        let t ← rotate side t (some y.id)
        rotate side.other t (some x.id)
      else pure t := by
  obtain ⟨inside, -, -⟩ := focus.inner
  obtain ⟨-, -, -, -, apart⟩ := distinct_join.mp inside
  obtain ⟨⟨n, hereX, -, nearX, farX, -⟩, holdsY, -⟩ := holds_join.mp focus.holds
  obtain ⟨⟨m, hereY, -, nearY, farY, -⟩, -, -⟩ := holds_join.mp holdsY
  rw [ptr_join] at nearX
  unfold rotateCase
  rw [Tree.node_ok hereX, ok_bind]
  cases side with
  | left =>
    have isLeft : n.left = some y.id := nearX
    rw [isLeft, if_pos rfl, Tree.node_ok hereY, ok_bind, show m.left = A.ptr from nearY,
      show m.right = B.ptr from farY]
    rfl
  | right =>
    have isRight : n.right = some y.id := nearX
    have notLeft : some y.id ≠ n.left := by
      rw [show n.left = C.ptr from farX]
      intro same
      exact apart y.id (mem_ids_join.mpr (.inl rfl)) (mem_ids_of_ptr same.symm)
    rw [if_neg notLeft, isRight, if_pos rfl, Tree.node_ok hereY, ok_bind,
      show m.right = A.ptr from nearY, show m.left = B.ptr from farY]
    rfl

theorem rotate_lift :
    ∃ t', rotate side.other t (some x.id) = .ok t' ∧ Focus t' (lift side A y B x C) fs := by
  rw [← join_other, ← join_other side B A] at focus
  obtain ⟨t', done, focus'⟩ := rotate_spec focus
  rw [join_other, join_other] at focus'
  exact ⟨t', done, focus'⟩

theorem rotateCase_outer :
    ∃ t', rotateCase t (some x.id) (some y.id) A.ptr = .ok t' ∧ Focus t' (lift side A y B x C) fs := by
  rw [rotateCase_eq focus, if_pos rfl]
  exact rotate_lift focus

end

theorem rotateCase_inner {D E : Outline Cell}
    (focus : Focus t (join side (join side A y (join side D z E)) x C) fs) :
    ∃ t', rotateCase t (some x.id) (some y.id) (some z.id) = .ok t' ∧
      Focus t' (liftInner side A y D z E x C) fs := by
  have other : some z.id ≠ A.ptr := by
    obtain ⟨inside, -, -⟩ := focus.inner
    obtain ⟨upper, -⟩ := distinct_join.mp inside
    obtain ⟨-, -, -, -, apart⟩ := distinct_join.mp upper
    intro same
    exact apart z.id (mem_ids_of_ptr same.symm) (mem_ids_join.mpr (.inl rfl))
  rw [rotateCase_eq focus, if_neg other, if_pos (ptr_join _ _ _ _).symm]
  obtain ⟨t₁, first, focus₁⟩ := rotate_spec (focus_join.mp focus)
  rw [first, ok_bind]
  have focus₂ := focus_join.mpr focus₁
  rw [refresh_join side (join side A y D).refresh] at focus₂
  obtain ⟨t₂, second, focus₃⟩ := rotate_lift focus₂
  refine ⟨t₂, second, ?_⟩
  unfold lift at focus₃
  rwa [refresh_join_height] at focus₃

end MemExchange.Shadow
