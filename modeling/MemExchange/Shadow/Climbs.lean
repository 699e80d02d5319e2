import MemExchange.Shadow.Turns

/-!
# The two ways up

`insert_tree_node` climbs from the new node and stops after the first rebalancing. `delete_fixup`
climbs to the root; after a rotation it goes on with the node that came up, and may rotate there
again. Whatever the recorded heights are, each rotation corrects those of the nodes it moves, or the
tree that it is made in gets lower. So `delete_fixup` comes to an end.
-/
namespace MemExchange.Shadow

open Outline

/-- Two recorded heights are too far apart. -/
def Tilted (a b : Int) : Prop := a - b ≤ -2 ∨ 2 ≤ a - b

instance (a b : Int) : Decidable (Tilted a b) := inferInstanceAs (Decidable (_ ∨ _))

theorem tilted_comm {a b : Int} : Tilted a b ↔ Tilted b a := by
  unfold Tilted
  omega

namespace Outline

/-- Heights are not negative. -/
def Nonneg (s : Outline Cell) : Prop := ∀ c ∈ s.toList, 0 ≤ c.height

theorem nonneg_join {d : Side} {near far : Outline Cell} {c : Cell} :
    (join d near c far).Nonneg ↔ near.Nonneg ∧ 0 ≤ c.height ∧ far.Nonneg := by
  unfold Nonneg
  cases d with
  | left =>
    simp only [join, toList, List.mem_append, List.mem_cons, or_imp, forall_and, forall_eq]
  | right =>
    simp only [join, toList, List.mem_append, List.mem_cons, or_imp, forall_and, forall_eq]
    tauto

theorem Nonneg.recorded {s : Outline Cell} (nonneg : s.Nonneg) : -1 ≤ s.recorded := by
  cases s with
  | nil => exact le_rfl
  | node l c r =>
    have := (nonneg_join (d := .left)).mp nonneg
    show -1 ≤ c.height
    omega

theorem nonneg_plug {s : Outline Cell} {fs : List (Frame Cell)} :
    (plug s fs).Nonneg ↔ s.Nonneg ∧ ∀ c ∈ before fs ++ after fs, 0 ≤ c.height := by
  unfold Nonneg
  rw [toList_plug]
  simp only [List.mem_append, or_imp, forall_and]
  tauto

theorem Nonneg.refresh {s : Outline Cell} (nonneg : s.Nonneg) : s.refresh.Nonneg := by
  cases s with
  | nil => exact nonneg
  | node l c r =>
    obtain ⟨left, here, right⟩ := (nonneg_join (d := .left)).mp nonneg
    refine (nonneg_join (d := .left)).mpr ⟨left, ?_, right⟩
    have := left.recorded
    show 0 ≤ 1 + max l.recorded r.recorded
    omega

/-- The top of the tree is not tilted. -/
def Even : Outline Cell → Prop
  | .nil => True
  | .node l _ r => ¬ Tilted l.recorded r.recorded

theorem even_join {side : Side} {near far : Outline Cell} {c : Cell} :
    (join side near c far).Even ↔ ¬ Tilted near.recorded far.recorded := by
  cases side with
  | left => rfl
  | right => exact not_congr tilted_comm

end Outline

variable {t t' : Tree} {s s' r near far : Outline Cell} {fs : List (Frame Cell)} {f g : Frame Cell}
  {side : Side} {c : Cell}

/-! ### Reading -/

theorem Focus.node (focus : Focus t (join side near c far) fs) :
    ∃ n, t.node (some c.id) = .ok n ∧ n.parent = up fs ∧ n.child side = near.ptr ∧
      n.child side.other = far.ptr ∧ n.height = c.height := by
  obtain ⟨⟨n, here, above, close, away, cell⟩, -, -⟩ := holds_join.mp focus.holds
  exact ⟨n, Tree.node_ok here, above, close, away, congrArg Cell.height cell⟩

theorem balanceFactor_spec (focus : Focus t (join side near c far) fs) :
    ∃ bf, t.balanceFactor (some c.id) = .ok bf ∧
      ((bf ≤ -2 ∨ 2 ≤ bf) ↔ Tilted near.recorded far.recorded) := by
  obtain ⟨⟨n, here, -, close, away, -⟩, holdsN, holdsF⟩ := holds_join.mp focus.holds
  cases side with
  | left =>
    refine ⟨_, Tree.balanceFactor_ok here (l := near.recorded) (r := far.recorded) ?_ ?_, Iff.rfl⟩
    · rw [show n.left = near.ptr from close]
      exact holdsN.height
    · rw [show n.right = far.ptr from away]
      exact holdsF.height
  | right =>
    refine ⟨_, Tree.balanceFactor_ok here (l := far.recorded) (r := near.recorded) ?_ ?_, tilted_comm⟩
    · rw [show n.left = far.ptr from away]
      exact holdsF.height
    · rw [show n.right = near.ptr from close]
      exact holdsN.height

/-! ### After an insertion -/

namespace Outline

/-- The rebalancing of the node of `g` for its child, the node of `f`, and its grandchild, the top of
`s`. -/
def raise (f g : Frame Cell) (s : Outline Cell) : Outline Cell :=
  if f.side = g.side then lift g.side s f.label f.sibling g.label g.sibling
  else
    match s with
    | .nil => g.around (f.around s)
    | .node l z r =>
      match g.side with
      | .left => liftInner .left f.sibling f.label l z r g.label g.sibling
      | .right => liftInner .right f.sibling f.label r z l g.label g.sibling

/-- The climb of `insert_tree_node`. -/
def climb : Outline Cell → List (Frame Cell) → Outline Cell
  | s, [] => s
  | s, [f] => (f.around s).refresh
  | s, f :: g :: fs =>
    if Tilted (f.around s).refresh.recorded g.sibling.recorded then plug (raise f g s) fs
    else climb (f.around s).refresh (g :: fs)

end Outline

theorem rotateCase_raise (focus : Focus t (g.around (f.around s).refresh) fs) (full : s ≠ .nil) :
    ∃ t', rotateCase t (some g.label.id) (some f.label.id) s.ptr = .ok t' ∧
      Focus t' (raise f g s) fs := by
  obtain ⟨side, y, B⟩ := f
  obtain ⟨side', x, C⟩ := g
  unfold Frame.around at focus
  rw [refresh_join] at focus
  unfold raise
  by_cases same : side = side'
  · subst same
    rw [if_pos rfl]
    obtain ⟨t', done, focus'⟩ := rotateCase_outer focus
    refine ⟨t', done, ?_⟩
    unfold lift at focus' ⊢
    rw [refresh_join_height] at focus'
    exact focus'
  · rw [if_neg same]
    obtain ⟨D, z, E, rfl⟩ := exists_join side' full
    rw [Side.eq_other same, join_other] at focus
    obtain ⟨t', done, focus'⟩ := rotateCase_inner focus
    refine ⟨t', by rw [ptr_join]; exact done, ?_⟩
    unfold liftInner at focus'
    rw [refresh_join_height] at focus'
    cases side' <;> exact focus'

/-- The loop on memory computes `climb`, with fuel for the depth. -/
theorem rebalance_spec (fuel : Nat) (focus : Focus t s fs) (full : s ≠ .nil)
    (enough : fs.length ≤ fuel) :
    ∃ t', rebalance fuel t (up fs) s.ptr = .ok t' ∧ Represents t' (climb s fs) := by
  induction fs generalizing t s fuel with
  | nil => exact ⟨t, by cases fuel <;> rfl, focus⟩
  | cons f fs ih =>
    obtain ⟨fuel, rfl⟩ : ∃ k, fuel = k + 1 := ⟨fuel - 1, by rw [List.length_cons] at enough; omega⟩
    have nonempty : f.around s ≠ .nil := join_ne_nil _ _ _ _
    obtain ⟨t₁, fixed, focus₁⟩ := fixHeight_spec (focus_cons.mp focus) nonempty
    have top : (f.around s).ptr = some f.label.id := ptr_join ..
    rw [top] at fixed
    show ∃ t', rebalance (fuel + 1) t (some f.label.id) s.ptr = .ok t' ∧ _
    rw [rebalance, fixed, ok_bind]
    have focusY := focus₁
    unfold Frame.around at focusY
    rw [refresh_join] at focusY
    obtain ⟨n, readY, parentY, -⟩ := focusY.node
    rw [readY, ok_bind, parentY]
    dsimp only
    -- the loop goes on with the node it has come to and its parent
    obtain ⟨D, z, E, isZ⟩ := exists_join .left full
    have focusZ := focus_join.mp focusY
    rw [isZ] at focusZ
    obtain ⟨m, readZ, parentZ, -⟩ := focusZ.node
    have readS : t₁.node s.ptr = .ok m := by
      rwa [isZ, ptr_join]
    cases fs with
    | nil =>
      rw [show t₁.balanceFactor (up []) = .ok 0 from rfl, ok_bind]
      rw [if_neg fun both => both.1 rfl, readS, ok_bind]
      refine ⟨t₁, by cases fuel <;> rfl, ?_⟩
      rwa [climb]
    | cons g fs =>
      have focusX := focus_cons.mp focus₁
      obtain ⟨bf, factor, tilted⟩ := balanceFactor_spec focusX
      rw [show up (g :: fs) = some g.label.id from rfl, factor, ok_bind]
      rw [climb]
      split
      next unbalanced =>
        rw [if_pos (tilted.mp unbalanced.2)]
        obtain ⟨t₂, turned, focus₂⟩ := rotateCase_raise focusX full
        exact ⟨t₂, turned, focus_iff.mp focus₂⟩
      next balanced =>
        rw [if_neg fun far => balanced ⟨by simp, tilted.mpr far⟩, readS, ok_bind, parentZ]
        have again := ih fuel focus₁ (refresh_ne_nil nonempty)
          (by simp only [List.length_cons] at enough ⊢; omega)
        rwa [ptr_refresh, top] at again

/-! ### After a deletion -/

/-- The rebalancing of `delete_fixup`: the taller child of `x` comes up, or the taller child of that
one if it is the inner one. -/
inductive Mends : Outline Cell → Outline Cell → Prop
  | outer {side : Side} {A B C : Outline Cell} {x y : Cell} (tilted : C.recorded + 2 ≤ y.height)
      (single : B.recorded ≤ A.recorded) :
      Mends (join side (join side A y B) x C) (lift side A y B x C)
  | inner {side : Side} {A C D E : Outline Cell} {x y z : Cell} (tilted : C.recorded + 2 ≤ y.height)
      (double : A.recorded < z.height) :
      Mends (join side (join side A y (join side D z E)) x C) (liftInner side A y D z E x C)

/-- The loop of `delete_fixup` from a subtree on, and the tree it ends with. -/
inductive Settles : Outline Cell → List (Frame Cell) → Outline Cell → Prop
  | done {s : Outline Cell} (even : s.refresh.Even) : Settles s [] s.refresh
  | up {s r : Outline Cell} {f : Frame Cell} {fs : List (Frame Cell)} (even : s.refresh.Even)
      (rest : Settles (f.around s.refresh) fs r) : Settles s (f :: fs) r
  | turn {s s' r : Outline Cell} {fs : List (Frame Cell)} (mends : Mends s.refresh s')
      (rest : Settles s' fs r) : Settles s fs r

theorem exists_mends (nonneg : s.Nonneg) (tilted : ¬ s.Even) : ∃ s', Mends s s' := by
  -- seen from its heavier side
  obtain ⟨side, Y, x, C, rfl, heavy⟩ : ∃ side Y x C, s = join side Y x C ∧
      C.recorded + 2 ≤ Y.recorded := by
    cases s with
    | nil => exact absurd trivial tilted
    | node l x r =>
      rcases not_not.mp tilted with right | left
      · exact ⟨.right, r, x, l, rfl, by omega⟩
      · exact ⟨.left, l, x, r, rfl, by omega⟩
  obtain ⟨nonnegY, -, nonnegC⟩ := nonneg_join.mp nonneg
  have low := nonnegC.recorded
  have fullY : Y ≠ .nil := by
    rintro rfl
    have : (-1 : Int) = recorded .nil := rfl
    omega
  obtain ⟨A, y, B, rfl⟩ := exists_join side fullY
  rw [recorded_join] at heavy
  obtain ⟨nonnegA, -, -⟩ := nonneg_join.mp nonnegY
  by_cases single : B.recorded ≤ A.recorded
  · exact ⟨_, .outer heavy single⟩
  · have fullB : B ≠ .nil := by
      rintro rfl
      exact single nonnegA.recorded
    obtain ⟨D, z, E, rfl⟩ := exists_join side fullB
    rw [recorded_join] at single
    exact ⟨_, .inner heavy (not_le.mp single)⟩

theorem Mends.tilted (mends : Mends s s') : ¬ s.Even := by
  cases mends with
  | outer tilted | inner tilted =>
    rw [even_join, recorded_join]
    exact fun even => even (.inr (by omega))

theorem Mends.nonneg (mends : Mends s s') (nonneg : s.Nonneg) : s'.Nonneg := by
  cases mends with
  | outer =>
    obtain ⟨upper, x, C⟩ := nonneg_join.mp nonneg
    obtain ⟨A, y, B⟩ := nonneg_join.mp upper
    exact (nonneg_join.mpr ⟨A, y, (nonneg_join.mpr ⟨B, x, C⟩).refresh⟩).refresh
  | inner =>
    obtain ⟨upper, x, C⟩ := nonneg_join.mp nonneg
    obtain ⟨A, y, middle⟩ := nonneg_join.mp upper
    obtain ⟨D, z, E⟩ := nonneg_join.mp middle
    exact (nonneg_join.mpr ⟨(nonneg_join.mpr ⟨A, y, D⟩).refresh, z,
      (nonneg_join.mpr ⟨E, x, C⟩).refresh⟩).refresh

theorem records_join (side : Side) (near far : Outline Cell) (c : Cell) :
    (join side near c far).records = match side with
      | .left => near.records ++ c.record :: far.records
      | .right => far.records ++ c.record :: near.records := by
  cases side <;> simp [join, records, toList]

theorem Mends.records (mends : Mends s s') : s'.records = s.records := by
  cases mends with
  | @outer side A B C x y =>
    unfold lift
    rw [records_refresh, records_join, records_refresh]
    cases side <;> simp [records_join]
  | @inner side A C D E x y z =>
    unfold liftInner
    rw [records_refresh, records_join, records_refresh, records_refresh]
    cases side <;> simp [records_join]

theorem Mends.refreshed (mends : Mends s s') : s'.refresh = s' := by
  cases mends <;> exact refresh_refresh _

theorem Mends.full (mends : Mends s s') : s' ≠ .nil := by
  cases mends <;> exact refresh_ne_nil (join_ne_nil _ _ _ _)

theorem records_plug_of_records (same : s'.records = s.records) (fs : List (Frame Cell)) :
    (plug s' fs).records = (plug s fs).records := by
  unfold records at same ⊢
  rw [toList_plug, toList_plug, List.map_append, List.map_append, same, List.map_append,
    List.map_append]

theorem Settles.records (settles : Settles s fs r) : r.records = (plug s fs).records := by
  induction settles with
  | done => exact records_refresh _
  | up _ _ ih =>
    rw [ih, plug, Frame.around, Frame.around]
    refine records_plug_of_records ?_ _
    rw [records_join, records_join, records_refresh]
  | turn mends _ ih =>
    rw [ih]
    exact records_plug_of_records (mends.records.trans (records_refresh _)) _

theorem nonneg_around (nonneg : (plug s (f :: fs)).Nonneg) (nonneg' : s'.Nonneg) :
    (plug (f.around s') fs).Nonneg := by
  rw [plug, nonneg_plug, Frame.around, nonneg_join] at nonneg
  rw [nonneg_plug, Frame.around, nonneg_join]
  exact ⟨⟨nonneg', nonneg.1.2⟩, nonneg.2⟩

theorem Settles.nonneg (settles : Settles s fs r) (nonneg : (plug s fs).Nonneg) : r.Nonneg := by
  induction settles with
  | done => exact Nonneg.refresh nonneg
  | up _ _ ih => exact ih (nonneg_around nonneg (nonneg_plug.mp nonneg).1.refresh)
  | turn mends _ ih =>
    obtain ⟨inner, outer⟩ := nonneg_plug.mp nonneg
    exact ih (nonneg_plug.mpr ⟨mends.nonneg inner.refresh, outer⟩)

/-! ### The loop ends -/

namespace Outline

/-- How many nodes have a height that does not fit the ones recorded in their children. -/
def stale : Outline Cell → Nat
  | .nil => 0
  | .node l c r =>
    l.stale + r.stale + if c.height = 1 + max l.recorded r.recorded then 0 else 1

theorem stale_join (side : Side) (near far : Outline Cell) (c : Cell) :
    (join side near c far).stale
      = near.stale + far.stale + if c.height = 1 + max near.recorded far.recorded then 0 else 1 := by
  cases side with
  | left => rfl
  | right =>
    rw [join, stale, max_comm, Nat.add_comm far.stale]

theorem stale_refresh_join (side : Side) (near far : Outline Cell) (c : Cell) :
    (join side near c far).refresh.stale = near.stale + far.stale := by
  rw [refresh_join, stale_join, if_pos rfl]
  rfl

theorem recorded_refresh_join (side : Side) (near far : Outline Cell) (c : Cell) :
    (join side near c far).refresh.recorded = 1 + max near.recorded far.recorded := by
  rw [refresh_join, recorded_join]

theorem height_of_refreshed
    (refreshed : (join side near c far).refresh = join side near c far) :
    c.height = 1 + max near.recorded far.recorded := by
  have same := congrArg recorded refreshed
  rw [recorded_refresh_join, recorded_join] at same
  exact same.symm

end Outline

/-- After a rebalancing the top is even, or some wrong height is corrected, or the tree is lower. -/
theorem Mends.progress (mends : Mends s s') (refreshed : s.refresh = s) :
    s'.Even ∨ s'.stale < s.stale ∨ s'.stale ≤ s.stale ∧ s'.recorded < s.recorded := by
  cases mends with
  | @outer side A B C x y tilted single =>
    have heightX := height_of_refreshed refreshed
    have lower := recorded_refresh_join side B C x
    have even : (lift side A y B x C).Even ↔ ¬ Tilted A.recorded (join side B x C).refresh.recorded := by
      rw [lift, refresh_join side A, even_join]
    have stales : (lift side A y B x C).stale = A.stale + (B.stale + C.stale) := by
      rw [lift, stale_refresh_join, stale_refresh_join]
    have height : (lift side A y B x C).recorded = 1 + max A.recorded (join side B x C).refresh.recorded :=
      recorded_refresh_join ..
    rw [recorded_join] at heightX
    rw [even, stales, height, lower, stale_join, stale_join, recorded_join, recorded_join, if_pos heightX]
    unfold Tilted
    split <;> omega
  | @inner side A C D E x y z tilted double =>
    have heightX := height_of_refreshed refreshed
    have left := recorded_refresh_join side A D y
    have right := recorded_refresh_join side E C x
    have stales : (liftInner side A y D z E x C).stale = A.stale + D.stale + (E.stale + C.stale) := by
      rw [liftInner, stale_refresh_join, stale_refresh_join, stale_refresh_join]
    have height : (liftInner side A y D z E x C).recorded
        = 1 + max (join side A y D).refresh.recorded (join side E x C).refresh.recorded :=
      recorded_refresh_join ..
    rw [recorded_join] at heightX
    rw [stales, height, left, right, stale_join, stale_join, stale_join, recorded_join, recorded_join,
      recorded_join, if_pos heightX]
    refine .inr ?_
    split <;> split <;> omega

theorem settles_of (fs : List (Frame Cell))
    (onward : ∀ s : Outline Cell, s ≠ .nil → s.Nonneg → s.refresh = s → s.Even → ∃ r, Settles s fs r)
    (s : Outline Cell) (full : s ≠ .nil) (nonneg : s.Nonneg) (refreshed : s.refresh = s) :
    ∃ r, Settles s fs r := by
  by_cases even : s.Even
  · exact onward s full nonneg refreshed even
  · obtain ⟨s', mends⟩ := exists_mends nonneg even
    have again : (∃ r, Settles s' fs r) → ∃ r, Settles s fs r := by
      rintro ⟨r, rest⟩
      exact ⟨r, .turn (by rwa [refreshed]) rest⟩
    have low := (mends.nonneg nonneg).recorded
    rcases mends.progress refreshed with even' | fewer | ⟨fewer, lower⟩
    · exact again (onward s' mends.full (mends.nonneg nonneg) mends.refreshed even')
    · exact again (settles_of fs onward s' mends.full (mends.nonneg nonneg) mends.refreshed)
    · exact again (settles_of fs onward s' mends.full (mends.nonneg nonneg) mends.refreshed)
termination_by (s.stale, (s.recorded + 1).toNat)
decreasing_by
  · exact Prod.Lex.left _ _ fewer
  · exact Prod.Lex.right' _ fewer (by omega)

theorem Settles.of_refresh (settles : Settles s.refresh fs r) : Settles s fs r := by
  cases settles with
  | done even =>
    rw [refresh_refresh] at even ⊢
    exact .done even
  | up even rest =>
    rw [refresh_refresh] at even rest
    exact .up even rest
  | turn mends rest =>
    rw [refresh_refresh] at mends
    exact .turn mends rest

/-- `delete_fixup` comes to an end, whatever heights are recorded. -/
theorem exists_settles (fs : List (Frame Cell)) (s : Outline Cell) (full : s ≠ .nil)
    (nonneg : (plug s fs).Nonneg) : ∃ r, Settles s fs r := by
  induction fs generalizing s with
  | nil =>
    obtain ⟨r, settles⟩ := settles_of [] (fun s' _ _ refreshed even => ⟨_, .done (by rwa [refreshed])⟩)
      s.refresh (refresh_ne_nil full) (Nonneg.refresh nonneg) (refresh_refresh s)
    exact ⟨r, settles.of_refresh⟩
  | cons f fs ih =>
    have inner := (nonneg_plug.mp nonneg).1
    have onward : ∀ s' : Outline Cell, s' ≠ .nil → s'.Nonneg → s'.refresh = s' → s'.Even →
        ∃ r, Settles s' (f :: fs) r := by
      intro s' _ nonneg' refreshed even
      obtain ⟨r, rest⟩ := ih (f.around s') (join_ne_nil _ _ _ _) (nonneg_around nonneg nonneg')
      exact ⟨r, .up (by rwa [refreshed]) (by rwa [refreshed])⟩
    obtain ⟨r, settles⟩ := settles_of (f :: fs) onward s.refresh (refresh_ne_nil full) inner.refresh
      (refresh_refresh s)
    exact ⟨r, settles.of_refresh⟩

/-! ### The code of the loop -/

variable {A B C Y : Outline Cell} {x y : Cell}

theorem Holds.top {parent : Ptr} {a : NodeId} (holds : Holds t parent s) (top : s.ptr = some a) :
    ∃ n, t.node (some a) = .ok n ∧ n.height = s.recorded := by
  cases s with
  | nil => cases top
  | node l c r =>
    cases top
    obtain ⟨⟨n, here, -, -, -, cell⟩, -, -⟩ := holds
    exact ⟨n, Tree.node_ok here, congrArg Cell.height cell⟩

theorem recorded_of_none (missing : A.ptr = none) : A.recorded = -1 := by
  rw [ptr_eq_none.mp missing]
  rfl

theorem recorded_of_some {a : NodeId} (nonneg : A.Nonneg) (top : A.ptr = some a) :
    0 ≤ A.recorded := by
  cases A with
  | nil => cases top
  | node l c r => exact ((nonneg_join (d := .left)).mp nonneg).2.1

theorem full_of_recorded (nonneg : A.Nonneg) (taller : A.recorded < B.recorded) :
    ∃ a, B.ptr = some a := by
  cases B with
  | nil =>
    have low := nonneg.recorded
    have : recorded .nil = -1 := rfl
    omega
  | node l c r => exact ⟨c.id, rfl⟩

theorem tallerChild_spec (focus : Focus t (join side Y x C) fs) (nonneg : C.Nonneg)
    (taller : C.recorded < Y.recorded) : tallerChild t (some x.id) = .ok Y.ptr := by
  obtain ⟨y, isY⟩ := full_of_recorded nonneg taller
  obtain ⟨n, readX, -, close, away, -⟩ := focus.node
  obtain ⟨-, holdsY, holdsC⟩ := holds_join.mp focus.holds
  obtain ⟨m, readY, heightY⟩ := holdsY.top isY
  rw [isY] at close
  unfold tallerChild
  rw [readX, ok_bind, isY]
  cases other : C.ptr with
  | none =>
    rw [other] at away
    cases side with
    | left =>
      rw [show n.left = some y from close, show n.right = none from away]
      rfl
    | right =>
      rw [show n.right = some y from close, show n.left = none from away]
      rfl
  | some c =>
    obtain ⟨k, readC, heightC⟩ := holdsC.top other
    rw [other] at away
    cases side with
    | left =>
      rw [show n.left = some y from close, show n.right = some c from away]
      dsimp only
      rw [readY, ok_bind, readC, ok_bind, if_pos (by omega)]
      rfl
    | right =>
      rw [show n.right = some y from close, show n.left = some c from away]
      dsimp only
      rw [readC, ok_bind, readY, ok_bind, if_neg (by omega)]
      rfl

/-- With a leaf counted as lower than any node, the higher child is returned, or the one on the side
of `y`. -/
theorem tallerGrandchild_eq {L R : Outline Cell} {p p' x y : Ptr} {m n : Node} (readX : t.node x = .ok n)
    (readY : t.node y = .ok m) (left : m.left = L.ptr) (right : m.right = R.ptr)
    (holdsL : Holds t p L) (holdsR : Holds t p' R) (nonnegL : L.Nonneg) (nonnegR : R.Nonneg) :
    tallerGrandchild t x y = .ok (if R.recorded < L.recorded then L.ptr
      else if L.recorded < R.recorded then R.ptr else if y = n.left then L.ptr else R.ptr) := by
  unfold tallerGrandchild
  rw [readY, ok_bind, left, right]
  cases isL : L.ptr with
  | none =>
    have lowL := recorded_of_none isL
    cases isR : R.ptr with
    | none =>
      simp only [ite_self]
      rfl
    | some r =>
      have highR := recorded_of_some nonnegR isR
      rw [if_neg (by omega), if_pos (by omega)]
      rfl
  | some l =>
    have highL := recorded_of_some nonnegL isL
    obtain ⟨nL, readL, heightL⟩ := holdsL.top isL
    cases isR : R.ptr with
    | none =>
      have lowR := recorded_of_none isR
      rw [if_pos (by omega)]
      rfl
    | some r =>
      obtain ⟨nR, readR, heightR⟩ := holdsR.top isR
      dsimp only
      rw [readL, ok_bind, readR, ok_bind, heightL, heightR, readX, ok_bind]
      split_ifs <;> rfl

theorem tallerGrandchild_spec (focus : Focus t (join side (join side A y B) x C) fs)
    (nonnegA : A.Nonneg) (nonnegB : B.Nonneg) : tallerGrandchild t (some x.id) (some y.id)
      = .ok (if B.recorded ≤ A.recorded then A.ptr else B.ptr) := by
  obtain ⟨n, readX, -, close, away, -⟩ := focus.node
  obtain ⟨m, readY, -, outer, inner, -⟩ := (focus_join.mp focus).node
  obtain ⟨-, upper, -⟩ := holds_join.mp focus.holds
  obtain ⟨-, holdsA, holdsB⟩ := holds_join.mp upper
  rw [ptr_join] at close
  cases side with
  | left =>
    rw [tallerGrandchild_eq readX readY outer inner holdsA holdsB nonnegA nonnegB,
      if_pos (show some y.id = n.left from close.symm)]
    split_ifs <;> first | rfl | omega
  | right =>
    have notLeft : some y.id ≠ n.left := by
      rw [show n.left = C.ptr from away]
      obtain ⟨inside, -, -⟩ := focus.inner
      obtain ⟨-, -, -, -, apart⟩ := distinct_join.mp inside
      intro same
      exact apart y.id (mem_ids_join.mpr (.inl rfl)) (mem_ids_of_ptr same.symm)
    rw [tallerGrandchild_eq readX readY inner outer holdsB holdsA nonnegB nonnegA, if_neg notLeft]
    split_ifs <;> first | rfl | omega

theorem deleteFixup_even (fuel : Nat) (focus : Focus t s fs) (full : s ≠ .nil)
    (even : s.refresh.Even) : ∃ t₁, Focus t₁ s.refresh fs ∧
      deleteFixup (fuel + 1) t s.ptr = deleteFixup fuel t₁ (up fs) := by
  obtain ⟨l, c, r, rfl⟩ := exists_join .left full
  obtain ⟨t₁, fixed, focus₁⟩ := fixHeight_spec focus full
  refine ⟨t₁, focus₁, ?_⟩
  rw [refresh_join] at even focus₁
  obtain ⟨bf, factor, tilted⟩ := balanceFactor_spec focus₁
  obtain ⟨n, read, above, -⟩ := focus₁.node
  rw [ptr_join] at fixed ⊢
  rw [deleteFixup, fixed, ok_bind, factor, ok_bind]
  dsimp only
  rw [if_neg fun far => even_join.mp even (tilted.mp far), pure_bind, read, ok_bind, above]

theorem Focus.node_below {P : Outline Cell} {z : Cell}
    (focus : Focus t (join side P z (join side B x C).refresh).refresh fs) :
    ∃ n, t.node (some x.id) = .ok n ∧ n.parent = some z.id := by
  rw [refresh_join side P, refresh_join, ← join_other] at focus
  obtain ⟨n, read, above, -⟩ := (focus_join.mp focus).node
  exact ⟨n, read, above⟩

theorem deleteFixup_turn (fuel : Nat) (focus : Focus t s fs) (nonneg : s.Nonneg)
    (mends : Mends s.refresh s') : ∃ t₁, Focus t₁ s' fs ∧
      deleteFixup (fuel + 1) t s.ptr = deleteFixup fuel t₁ s'.ptr := by
  have full : s ≠ .nil := by
    rintro rfl
    exact mends.tilted trivial
  obtain ⟨t₁, fixed, focus₁⟩ := fixHeight_spec focus full
  have nonneg₁ := nonneg.refresh
  rw [← ptr_refresh] at fixed ⊢
  have tilted := mends.tilted
  generalize s.refresh = s₁ at mends focus₁ nonneg₁ fixed tilted
  cases mends with
  | @outer side A B C x y heavy single =>
    rw [ptr_join] at fixed ⊢
    obtain ⟨upper, -, nonnegC⟩ := nonneg_join.mp nonneg₁
    obtain ⟨nonnegA, -, nonnegB⟩ := nonneg_join.mp upper
    obtain ⟨bf, factor, far⟩ := balanceFactor_spec focus₁
    have child := tallerChild_spec focus₁ nonnegC (by rw [recorded_join]; omega)
    have grandchild := tallerGrandchild_spec focus₁ nonnegA nonnegB
    rw [if_pos single] at grandchild
    obtain ⟨t₂, turned, focus₂⟩ := rotateCase_outer focus₁
    obtain ⟨n, read, above⟩ := focus₂.node_below
    refine ⟨t₂, focus₂, ?_⟩
    rw [deleteFixup, fixed, ok_bind, factor, ok_bind]
    dsimp only
    rw [if_pos (far.mpr (not_not.mp (mt even_join.mpr tilted))), child, ok_bind, ptr_join, grandchild,
      ok_bind, turned, ok_bind, read, ok_bind, above, lift, ptr_refresh, ptr_join]
  | @inner side A C D E x y z heavy double =>
    rw [ptr_join] at fixed ⊢
    obtain ⟨upper, -, nonnegC⟩ := nonneg_join.mp nonneg₁
    obtain ⟨nonnegA, -, nonnegB⟩ := nonneg_join.mp upper
    obtain ⟨bf, factor, far⟩ := balanceFactor_spec focus₁
    have child := tallerChild_spec focus₁ nonnegC (by rw [recorded_join]; omega)
    have grandchild := tallerGrandchild_spec focus₁ nonnegA nonnegB
    rw [recorded_join, if_neg (by omega), ptr_join] at grandchild
    obtain ⟨t₂, turned, focus₂⟩ := rotateCase_inner focus₁
    obtain ⟨n, read, above⟩ := focus₂.node_below
    refine ⟨t₂, focus₂, ?_⟩
    rw [deleteFixup, fixed, ok_bind, factor, ok_bind]
    dsimp only
    rw [if_pos (far.mpr (not_not.mp (mt even_join.mpr tilted))), child, ok_bind, ptr_join, grandchild,
      ok_bind, turned, ok_bind, read, ok_bind, above, liftInner, ptr_refresh, ptr_join]

/-- With enough fuel `delete_fixup` ends with the tree that the loop leads to. -/
theorem deleteFixup_spec (settles : Settles s fs r) (full : s ≠ .nil) (nonneg : (plug s fs).Nonneg) :
    ∃ rounds, ∀ fuel, rounds ≤ fuel → ∀ t, Focus t s fs →
      ∃ t', deleteFixup fuel t s.ptr = .ok t' ∧ Represents t' r := by
  induction settles with
  | @done s even =>
    refine ⟨1, fun fuel enough t focus => ?_⟩
    obtain ⟨fuel, rfl⟩ := Nat.exists_eq_add_of_le' enough
    obtain ⟨t₁, focus₁, same⟩ := deleteFixup_even fuel focus full even
    exact ⟨t₁, by rw [same]; cases fuel <;> rfl, focus₁⟩
  | @up s r f fs even _ ih =>
    obtain ⟨rounds, spec⟩ := ih (join_ne_nil _ _ _ _)
      (nonneg_around nonneg (nonneg_plug.mp nonneg).1.refresh)
    refine ⟨rounds + 1, fun fuel enough t focus => ?_⟩
    obtain ⟨fuel, rfl⟩ : ∃ k, fuel = k + 1 := ⟨fuel - 1, by omega⟩
    obtain ⟨t₁, focus₁, same⟩ := deleteFixup_even fuel focus full even
    obtain ⟨t', done, represents⟩ := spec fuel (by omega) t₁ (focus_cons.mp focus₁)
    refine ⟨t', ?_, represents⟩
    rw [same, ← done]
    unfold Frame.around
    rw [ptr_join]
    rfl
  | @turn s s' r fs mends _ ih =>
    obtain ⟨inner, outer⟩ := nonneg_plug.mp nonneg
    obtain ⟨rounds, spec⟩ := ih mends.full (nonneg_plug.mpr ⟨mends.nonneg inner.refresh, outer⟩)
    refine ⟨rounds + 1, fun fuel enough t focus => ?_⟩
    obtain ⟨fuel, rfl⟩ : ∃ k, fuel = k + 1 := ⟨fuel - 1, by omega⟩
    obtain ⟨t₁, focus₁, same⟩ := deleteFixup_turn fuel focus inner mends
    rw [same]
    exact spec fuel (by omega) t₁ focus₁

end MemExchange.Shadow
