import MemExchange.Shadow.Climbs

/-!
# Insertion and deletion on outlines

`insert_tree_node` hangs the new node as a leaf below the last node of its search, and climbs.
`delete_tree_node` puts the only child of the node into its place, or the least node of the right
subtree, and calls `delete_fixup` for what is there now. If there is nothing, it does not.
-/
namespace MemExchange.Shadow

open Outline

/-! ### The order of nodes -/

/-- What `compare_nodes` compares: the seconds, the microseconds, the item. -/
abbrev Stamp := ℤ ×ₗ ℤ ×ₗ ℕ

def stampOf (time : Timeval) (item : ItemId) : Stamp := toLex (time.sec, toLex (time.usec, item))

def Node.stamp (n : Node) : Stamp := stampOf n.time n.shadowItem

def Cell.stamp (c : Cell) : Stamp := stampOf c.time c.item

theorem compareNodes_lt_iff (n m : Node) : compareNodes n m < 0 ↔ n.stamp < m.stamp := by
  unfold Node.stamp stampOf
  rw [Prod.Lex.toLex_lt_toLex, Prod.Lex.toLex_lt_toLex]
  unfold compareNodes
  grind

theorem compareNodes_eq_iff (n m : Node) : compareNodes n m = 0 ↔ n.stamp = m.stamp := by
  unfold Node.stamp stampOf
  rw [toLex_inj, Prod.mk.injEq, toLex_inj, Prod.mk.injEq]
  unfold compareNodes
  grind

variable {t t' : Tree} {s s' r L R S V : Outline Cell} {fs gs : List (Frame Cell)} {c y z : Cell}
  {a : NodeId} {new n : Node} {k : Stamp}

/-! ### Insertion -/

namespace Outline

def path (k : Stamp) : Outline Cell → List (Frame Cell) → List (Frame Cell)
  | .nil, fs => fs
  | .node l c r, fs =>
    if k < c.stamp then path k l (⟨.left, c, r⟩ :: fs) else path k r (⟨.right, c, l⟩ :: fs)

theorem plug_path (k : Stamp) (s : Outline Cell) (fs : List (Frame Cell)) :
    plug .nil (path k s fs) = plug s fs := by
  induction s generalizing fs with
  | nil => rfl
  | node l c r ihl ihr =>
    rw [path]
    split
    · exact ihl _
    · exact ihr _

theorem length_path_le (k : Stamp) (s : Outline Cell) (fs : List (Frame Cell)) :
    (path k s fs).length ≤ s.size + fs.length := by
  induction s generalizing fs with
  | nil => simp [path]
  | node l c r ihl ihr =>
    rw [path, size]
    split
    · have := ihl (⟨.left, c, r⟩ :: fs)
      rw [List.length_cons] at this
      omega
    · have := ihr (⟨.right, c, l⟩ :: fs)
      rw [List.length_cons] at this
      omega

theorem path_sides (k : Stamp) (s : Outline Cell) (fs : List (Frame Cell))
    (sides : ∀ f ∈ fs, k < f.label.stamp ↔ f.side = .left) :
    ∀ f ∈ path k s fs, k < f.label.stamp ↔ f.side = .left := by
  induction s generalizing fs with
  | nil => exact sides
  | node l c r ihl ihr =>
    rw [path]
    split
    next less =>
      refine ihl _ fun f member => ?_
      rcases List.mem_cons.mp member with rfl | member
      · exact ⟨fun _ => rfl, fun _ => less⟩
      · exact sides f member
    next more =>
      refine ihr _ fun f member => ?_
      rcases List.mem_cons.mp member with rfl | member
      · exact ⟨fun less => absurd less more, fun never => by cases never⟩
      · exact sides f member

theorem records_raise (f g : Frame Cell) (s : Outline Cell) :
    (raise f g s).records = (g.around (f.around s)).records := by
  obtain ⟨side, y, B⟩ := f
  obtain ⟨side', x, C⟩ := g
  unfold raise
  by_cases same : side = side'
  · rw [if_pos same, same]
    unfold lift Frame.around
    rw [records_refresh, records_join, records_refresh]
    cases side' <;> simp [records_join]
  · rw [if_neg same, Side.eq_other same]
    cases s with
    | nil => rfl
    | node l z r =>
      unfold liftInner Frame.around
      cases side' <;> simp [join, refresh, records, toList, Side.other, Cell.record]

theorem records_climb (s : Outline Cell) (fs : List (Frame Cell)) :
    (climb s fs).records = (plug s fs).records := by
  induction fs generalizing s with
  | nil => rfl
  | cons f fs ih =>
    cases fs with
    | nil => exact records_refresh _
    | cons g fs =>
      rw [climb]
      split
      · refine records_plug_of_records (s := g.around (f.around s)) ?_ fs
        rw [records_raise]
      · rw [ih]
        exact records_plug_of_records (records_refresh _) _

theorem nonneg_raise {f g : Frame Cell} (nonneg : (g.around (f.around s)).Nonneg) :
    (raise f g s).Nonneg := by
  obtain ⟨side, y, B⟩ := f
  obtain ⟨side', x, C⟩ := g
  unfold Frame.around at nonneg
  obtain ⟨upper, highX, nonnegC⟩ := nonneg_join.mp nonneg
  obtain ⟨nonnegS, highY, nonnegB⟩ := nonneg_join.mp upper
  unfold raise
  split
  · exact (nonneg_join.mpr ⟨nonnegS, highY, (nonneg_join.mpr ⟨nonnegB, highX, nonnegC⟩).refresh⟩).refresh
  · cases s with
    | nil => exact nonneg
    | node l z r =>
      obtain ⟨nonnegL, highZ, nonnegR⟩ := (nonneg_join (d := .left)).mp nonnegS
      cases side' with
      | left =>
        exact (nonneg_join.mpr ⟨(nonneg_join.mpr ⟨nonnegB, highY, nonnegL⟩).refresh, highZ,
          (nonneg_join.mpr ⟨nonnegR, highX, nonnegC⟩).refresh⟩).refresh
      | right =>
        exact (nonneg_join.mpr ⟨(nonneg_join.mpr ⟨nonnegB, highY, nonnegR⟩).refresh, highZ,
          (nonneg_join.mpr ⟨nonnegL, highX, nonnegC⟩).refresh⟩).refresh

theorem nonneg_climb (nonneg : (plug s fs).Nonneg) :
    (climb s fs).Nonneg := by
  induction fs generalizing s with
  | nil => exact nonneg
  | cons f fs ih =>
    cases fs with
    | nil => exact Nonneg.refresh nonneg
    | cons g fs =>
      rw [climb]
      obtain ⟨inner, outer⟩ := nonneg_plug.mp (show (plug (f.around s) (g :: fs)).Nonneg from nonneg)
      split
      · obtain ⟨inner, outer⟩ := nonneg_plug.mp
          (show (plug (g.around (f.around s)) fs).Nonneg from nonneg)
        exact nonneg_plug.mpr ⟨nonneg_raise inner, outer⟩
      · exact ih (nonneg_plug.mpr ⟨inner.refresh, outer⟩)

end Outline

theorem cell_stamp (cell : n.cell a = c) : n.stamp = c.stamp := by
  rw [← cell]
  rfl

theorem descend_path (new : Node) (fuel : Nat) (focus : Focus t s fs) (enough : s.size ≤ fuel) :
    ∃ t', descend new fuel t (up fs) s.ptr = .ok (t', up (path new.stamp s fs)) ∧
      Focus t' .nil (path new.stamp s fs) ∧ ∀ b ∉ s.ids, t'.mem b = t.mem b := by
  induction s generalizing t fs fuel with
  | nil => exact ⟨t, by cases fuel <;> rfl, focus, fun _ _ => rfl⟩
  | node l c r ihl ihr =>
    rw [size] at enough
    obtain ⟨fuel, rfl⟩ : ∃ k, fuel = k + 1 := ⟨fuel - 1, by omega⟩
    obtain ⟨⟨m, here, -, isLeft, isRight, cell⟩, -, -⟩ := focus.holds
    have order : compareNodes new m < 0 ↔ new.stamp < c.stamp := by
      rw [compareNodes_lt_iff, cell_stamp cell]
    have outside : ∀ b ∉ (Outline.node l c r).ids, b ≠ c.id ∧ b ∉ l.ids ∧ b ∉ r.ids := by
      intro b out
      refine ⟨fun same => out ?_, fun inside => out ?_, fun inside => out ?_⟩
      · exact (mem_ids_join (d := .left)).mpr (.inl same)
      · exact (mem_ids_join (d := .left)).mpr (.inr (.inl inside))
      · exact (mem_ids_join (d := .left)).mpr (.inr (.inr inside))
    show ∃ t', descend new (fuel + 1) t (up fs) (some c.id) = .ok (t', _) ∧ _
    rw [descend, Tree.node_ok here, ok_bind, path]
    by_cases less : new.stamp < c.stamp
    · rw [if_pos (order.mpr less), if_pos less, show m.left = l.ptr from isLeft]
      obtain ⟨t', done, focus', rest⟩ :=
        ihl fuel ((focus_join (d := .left)).mp focus) (by omega)
      exact ⟨t', done, focus', fun b out => rest b (outside b out).2.1⟩
    · rw [if_neg fun before => less (order.mp before), if_neg less]
      obtain ⟨t₁, wrote, at_⟩ := Tree.write_ok here fun m => { m with weight := m.weight + 1 }
      have focus₁ : Focus t₁ (.node l c r) fs := by
        refine focus.like at_.root fun b n at' => ?_
        by_cases same : b = c.id
        · rw [same, here] at at'
          cases at'
          exact ⟨{ m with weight := m.weight + 1 }, by rw [same]; exact at_.here, rfl,
            fun s => by cases s <;> rfl, fun _ => rfl⟩
        · exact ⟨n, by rw [at_.rest b same, at'], .refl n⟩
      rw [wrote, ok_bind, show m.right = r.ptr from isRight]
      obtain ⟨t', done, focus', rest⟩ :=
        ihr fuel ((focus_join (d := .right)).mp focus₁) (by omega)
      refine ⟨t', done, focus', fun b out => ?_⟩
      rw [rest b (outside b out).2.2, at_.rest b (outside b out).1]

/-- Insertion hangs the node in its place and climbs from there. -/
theorem insertTreeNode_spec (represents : Represents t s) (here : t.mem a = some new)
    (bare : ∀ side, new.child side = none) (outside : a ∉ s.ids) {fuel : Nat}
    (enough : s.size ≤ fuel) :
    ∃ t', insertTreeNode fuel t a = .ok t' ∧
      Represents t' (climb (.node .nil (new.cell a) .nil) (path new.stamp s [])) := by
  obtain ⟨t₁, descended, focus₁, rest₁⟩ := descend_path new fuel represents enough
  have sides := path_sides new.stamp s [] fun _ never => (nomatch never)
  have length := length_path_le new.stamp s []
  have whole := plug_path new.stamp s []
  generalize path new.stamp s [] = gs at descended focus₁ sides length whole
  have apart : a ∉ outer gs := by
    intro member
    refine outside ?_
    have : a ∈ (plug .nil gs).ids := by
      rw [ids, toList_plug]
      simpa [outer, toList] using member
    rwa [whole] at this
  have here₁ : t₁.mem a = some new := by rw [rest₁ a outside, here]
  obtain ⟨t₂, wrote₂, at₂⟩ := Tree.write_ok here₁ fun m => { m with parent := up gs }
  have around₂ : HoldsAround t₂ none gs :=
    focus₁.around.congr at₂.root fun b member => at₂.rest b fun same => apart (same ▸ member)
  have leaf : ∀ t₃ : Tree, HoldsAround t₃ (some a) gs → t₃.mem a = t₂.mem a →
      Focus t₃ (.node .nil (new.cell a) .nil) gs := by
    intro t₃ around₃ same
    refine ⟨around₃, ⟨⟨_, same.trans at₂.here, rfl, bare .left, bare .right, rfl⟩, trivial, trivial⟩, ?_⟩
    refine distinct_plug.mpr ⟨List.nodup_singleton _, focus₁.inner.2.1, fun b member => ?_⟩
    rwa [List.mem_singleton.mp member]
  have climbs : ∀ t₃ : Tree, HoldsAround t₃ (some a) gs → t₃.mem a = t₂.mem a →
      ∃ t', rebalance fuel t₃ (up gs) (some a) = .ok t' ∧
        Represents t' (climb (.node .nil (new.cell a) .nil) gs) := fun t₃ around₃ same =>
    rebalance_spec fuel (leaf t₃ around₃ same) (by simp) (by rw [List.length_nil] at length; omega)
  unfold insertTreeNode
  rw [Tree.node_ok here, ok_bind, show t.root = s.ptr from represents.around]
  rw [show descend new fuel t none s.ptr = .ok (t₁, up gs) from descended, ok_bind]
  dsimp only
  rw [wrote₂, ok_bind]
  cases gs with
  | nil =>
    rw [show up [] = none from rfl, pure_bind]
    exact climbs { t₂ with root := some a } rfl rfl
  | cons f gs =>
    obtain ⟨t₃, wrote₃, around₃, rest₃⟩ := rehang_spec around₂ focus₁.inner.2.1 (some a)
    obtain ⟨⟨m, hereF, -, -, -, cell⟩, -, -⟩ := around₂
    have other : a ≠ f.label.id := fun same => apart (same ▸ mem_outer_cons.mpr (.inl rfl))
    have side := sides f List.mem_cons_self
    have order : compareNodes new m < 0 ↔ f.side = .left := by
      rw [compareNodes_lt_iff, cell_stamp cell, side]
    have written : (if compareNodes new m < 0 then t₂.write (some f.label.id) fun m => { m with left := some a }
        else t₂.write (some f.label.id) fun m => { m with right := some a }) = .ok t₃ := by
      rw [← wrote₃]
      split
      next before => rw [order.mp before]; rfl
      next behind =>
        have : f.side = .right := Side.eq_other fun same => behind (order.mpr same)
        rw [this]
        rfl
    rw [show up (f :: gs) = some f.label.id from rfl]
    dsimp only
    rw [Tree.node_ok hereF, ok_bind]
    have rest := climbs t₃ around₃ (rest₃ a other)
    split
    next before =>
      rw [if_pos before] at written
      rwa [written, ok_bind]
    next behind =>
      rw [if_neg behind] at written
      rwa [written, ok_bind]

/-! ### Deletion -/

namespace Outline

def popMin : Outline Cell → Option (Cell × Outline Cell)
  | .nil => none
  | .node l c r =>
    match popMin l with
    | none => some (c, r)
    | some (y, l') => some (y, .node l' c r)

theorem popMin_node {l : Outline Cell} (least : (Outline.node l c r).popMin = some (y, S)) :
    l.popMin = none ∧ y = c ∧ S = r ∨ ∃ l', l.popMin = some (y, l') ∧ S = .node l' c r := by
  rw [popMin] at least
  split at least
  next none =>
    cases least
    exact .inl ⟨none, rfl, rfl⟩
  next found =>
    cases least
    exact .inr ⟨_, found, rfl⟩

theorem exists_popMin (full : s ≠ .nil) : ∃ y S, s.popMin = some (y, S) := by
  cases s with
  | nil => exact absurd rfl full
  | node l c r =>
    rw [popMin]
    split <;> exact ⟨_, _, rfl⟩

theorem popMin_eq_none : s.popMin = none ↔ s = .nil := by
  constructor
  · intro missing
    by_contra full
    obtain ⟨y, S, found⟩ := exists_popMin full
    simp [missing] at found
  · rintro rfl
    rfl

theorem popMin_frames (least : s.popMin = some (y, S)) :
    ∃ R gs, s = plug (.node .nil y R) gs ∧ S = plug R gs := by
  induction s generalizing S with
  | nil => cases least
  | node l c r ihl _ =>
    obtain ⟨missing, rfl, rfl⟩ | ⟨l', found, rfl⟩ := popMin_node least
    · rw [popMin_eq_none.mp missing]
      exact ⟨S, [], rfl, rfl⟩
    · obtain ⟨R, gs, same, rest⟩ := ihl found
      refine ⟨R, gs ++ [⟨.left, c, r⟩], ?_, ?_⟩
      · rw [plug_append, ← same]
        rfl
      · rw [plug_append, ← rest]
        rfl

theorem toList_popMin (least : s.popMin = some (y, S)) : s.toList = y :: S.toList := by
  induction s generalizing S with
  | nil => cases least
  | node l c r ihl _ =>
    obtain ⟨missing, rfl, rfl⟩ | ⟨l', found, rfl⟩ := popMin_node least
    · rw [popMin_eq_none.mp missing]
      rfl
    · rw [toList, ihl found]
      rfl

theorem ptr_plug_cons (f : Frame Cell) (fs : List (Frame Cell)) (s s' : Outline Cell) :
    (plug s (f :: fs)).ptr = (plug s' (f :: fs)).ptr := by
  induction fs generalizing f s s' with
  | nil => exact (ptr_join ..).trans (ptr_join ..).symm
  | cons g fs ih => exact ih g _ _

theorem distinct_drop (distinct : (plug (.node L c R) fs).Distinct)
    (rest : s.toList = L.toList ++ R.toList) :
    (plug s fs).Distinct ∧ c.id ∉ (plug s fs).ids := by
  have order : (plug (.node L c R) fs).ids.Perm (c.id :: (plug s fs).ids) := by
    unfold ids
    rw [toList_plug, toList_plug, rest, ← List.map_cons]
    refine List.Perm.map _ ?_
    rw [toList]
    simp only [List.append_assoc, List.cons_append]
    rw [← List.append_assoc, ← List.append_assoc (before fs)]
    exact List.perm_middle
  have nodup := order.nodup_iff.mp distinct
  exact ⟨(List.nodup_cons.mp nodup).2, (List.nodup_cons.mp nodup).1⟩

end Outline

theorem minimum_popMin {parent : Ptr} (holds : Holds t parent s) (top : s.ptr = some a)
    (least : s.popMin = some (y, S)) {fuel : Nat} (enough : s.size ≤ fuel) :
    minimum fuel t a = .ok y.id := by
  induction s generalizing parent a S fuel with
  | nil => cases top
  | node l c r ihl _ =>
    cases top
    obtain ⟨⟨n, here, -, isLeft, -, -⟩, left, -⟩ := holds
    rw [minimum_eq, Tree.node_ok here, ok_bind, show n.left = l.ptr from isLeft]
    rw [size] at enough
    obtain ⟨missing, rfl, rfl⟩ | ⟨l', found, rfl⟩ := popMin_node least
    · rw [popMin_eq_none.mp missing]
      rfl
    · cases isL : l.ptr with
      | none =>
        rw [ptr_eq_none.mp isL] at found
        cases found
      | some b =>
        obtain ⟨fuel, rfl⟩ : ∃ k, fuel = k + 1 := ⟨fuel - 1, by omega⟩
        exact ihl left isL found (by omega)

/-- A subtree takes the place of a node, and nothing else is touched. -/
theorem transplant_spec {p : Ptr} (around : HoldsAround t (some a) fs) (here : t.mem a = some n)
    (above : n.parent = up fs) (holds : Holds t p V) (distinct : (plug V fs).Distinct)
    (apart : a ∉ outer fs) :
    ∃ t', transplant t (some a) V.ptr = .ok t' ∧ Focus t' V fs ∧
      ∀ b ∉ V.ids, b ∉ outer fs → t'.mem b = t.mem b := by
  obtain ⟨distinctV, nodup, away⟩ := distinct_plug.mp distinct
  obtain ⟨t₁, relinked, around₁, rest₁⟩ := relink_spec .left around nodup apart V.ptr
  have holds₁ : Holds t₁ p V := holds.congr fun b member => rest₁ b fun same =>
    away b member (up_mem same)
  have others : ∀ b ∉ outer fs, t₁.mem b = t.mem b := fun b out => rest₁ b fun same =>
    out (up_mem same)
  unfold transplant
  rw [Tree.node_ok here, ok_bind, above]
  dsimp only
  rw [relinked, ok_bind]
  cases top : V.ptr with
  | none =>
    refine ⟨t₁, rfl, ⟨around₁, ?_, distinct⟩, fun b _ out => others b out⟩
    rw [ptr_eq_none.mp top]
    trivial
  | some v =>
    obtain ⟨t₂, wrote, holds₂, root₂, rest₂⟩ := adopt_spec holds₁ distinctV top (up fs)
    refine ⟨t₂, wrote, ⟨?_, holds₂, distinct⟩, fun b out out' => ?_⟩
    · exact around₁.congr root₂ fun b member => rest₂ b fun inside => away b inside member
    · rw [rest₂ b out, others b out']

theorem free_spec (represents : Represents t r) (outside : a ∉ r.ids) : Represents (t.free a) r :=
  ⟨represents.around, represents.holds.congr fun _ member => free_rest t fun same =>
    outside (same ▸ member), represents.distinct⟩

/-- The node `c` has the subtree `L` on its left, and `y` is ready to take its place: it has no left
child, and on its right there is what will be on the right. -/
structure Ready (t : Tree) (c : Cell) (L : Outline Cell) (y : Cell) (S : Outline Cell)
    (fs : List (Frame Cell)) : Prop where
  around : HoldsAround t (some c.id) fs
  here : ∃ n, t.mem c.id = some n ∧ n.parent = up fs
  left : Holds t (some c.id) L
  next : ∃ p, Holds t p (.node .nil y S)

theorem Focus.ready (focus : Focus t (.node L c (.node .nil y S)) fs) : Ready t c L y S fs := by
  obtain ⟨⟨n, here, above, -⟩, left, right⟩ := focus.holds
  exact ⟨focus.around, ⟨n, here, above⟩, left, _, right⟩

/-- The least node of the right subtree is taken out from below the top of that subtree. -/
theorem takeOut_spec {g : Frame Cell} {p : NodeId} (focus : Focus t (.node L c R) fs)
    (frames : R = plug (.node .nil y V) (g :: gs)) (top : R.ptr = some p) :
    ∃ t₁ t₂ t₃, transplant t (some y.id) V.ptr = .ok t₁ ∧
      t₁.write (some y.id) (fun m => { m with right := some p }) = .ok t₂ ∧
      t₂.write (some p) (fun m => { m with parent := some y.id }) = .ok t₃ ∧
      Ready t₃ c L y (plug V (g :: gs)) fs := by
  have inside : Focus t (.node .nil y V) (g :: gs ++ ⟨.right, c, L⟩ :: fs) := by
    rw [focus_iff, plug_append, ← frames]
    exact focus_iff.mp ((focus_join (d := .right)).mp focus)
  obtain ⟨⟨n, here, above, isLeft, isRight, cell⟩, -, holdsV⟩ := inside.holds
  obtain ⟨nodupY, -, outY⟩ := inside.inner
  obtain ⟨-, -, -, apartV, -⟩ := (distinct_join (d := .left)).mp nodupY
  have outY : y.id ∉ outer (g :: gs ++ ⟨.right, c, L⟩ :: fs) :=
    outY _ ((mem_ids_join (d := .left)).mpr (.inl rfl))
  obtain ⟨distinctV, gone⟩ := distinct_drop (s := V) inside.distinct rfl
  obtain ⟨t₁, moved, focus₁, rest₁⟩ := transplant_spec inside.around here above holdsV distinctV outY
  -- the subtree without its least node has the same top
  have topS : (plug V (g :: gs)).ptr = some p := by
    rw [← top, frames]
    exact ptr_plug_cons ..
  rw [plug_append] at gone
  rw [focus_iff, plug_append] at focus₁
  generalize plug V (g :: gs) = S at gone focus₁ topS ⊢
  have focus₁ : Focus t₁ (.node L c S) fs := focus_iff.mpr focus₁
  obtain ⟨m, hereC, aboveC, -⟩ := focus₁.holds.1
  obtain ⟨inC, nodup, away⟩ := focus₁.inner
  obtain ⟨-, distinctS, outL, outS, apart⟩ := (distinct_join (d := .left)).mp inC
  have others : ∀ b, b ∈ (Outline.node L c S).ids ∨ b ∈ outer fs → b ≠ y.id := by
    rintro b member rfl
    exact gone ((mem_ids_plug (s := .node L c S)).mpr member)
  have inner : ∀ b, b = c.id ∨ b ∈ L.ids ∨ b ∈ S.ids → b ∈ (Outline.node L c S).ids := fun b =>
    (mem_ids_join (d := .left)).mpr
  obtain ⟨t₂, wrote₂, at₂⟩ := Tree.write_ok ((rest₁ _ apartV outY).trans here)
    fun m => { m with right := some p }
  have holdsS₂ : Holds t₂ (some c.id) S := focus₁.holds.2.2.congr fun b member =>
    at₂.rest b (others b (.inl (inner b (.inr (.inr member)))))
  obtain ⟨t₃, wrote₃, holdsS₃, root₃, rest₃⟩ := adopt_spec holdsS₂ distinctS topS (some y.id)
  have outside : ∀ b ∉ S.ids, b ∈ (Outline.node L c S).ids ∨ b ∈ outer fs → t₃.mem b = t₁.mem b := by
    intro b out member
    rw [rest₃ b out, at₂.rest b (others b member)]
  have outYS : y.id ∉ S.ids := fun member => others _ (.inl (inner _ (.inr (.inr member)))) rfl
  refine ⟨t₁, t₂, t₃, moved, wrote₂, wrote₃, ?_, ⟨m, ?_, aboveC⟩, ?_, n.parent,
    ⟨⟨{ n with right := some p }, ?_, rfl, isLeft, topS.symm, cell⟩, trivial, holdsS₃⟩⟩
  · refine focus₁.around.congr (root₃.trans at₂.root) fun b member => ?_
    exact outside b (fun inS => away b (inner b (.inr (.inr inS))) member) (.inr member)
  · exact (outside _ outS (.inl (inner _ (.inl rfl)))).trans hereC
  · refine focus₁.holds.2.1.congr fun b member => ?_
    exact outside b (apart b member) (.inl (inner b (.inr (.inl member))))
  · exact (rest₃ _ outYS).trans at₂.here

theorem Ready.succeed {l : NodeId} (ready : Ready t c L y S fs) (topL : L.ptr = some l)
    (distinct : (plug (.node L y S) fs).Distinct) (apart : c.id ∉ outer fs) :
    ∃ t₁ t₂ t₃, transplant t (some c.id) (some y.id) = .ok t₁ ∧
      t₁.write (some y.id) (fun m => { m with left := some l }) = .ok t₂ ∧
      t₂.write (some l) (fun m => { m with parent := some y.id }) = .ok t₃ ∧
      Focus t₃ (.node L y S) fs := by
  obtain ⟨around, ⟨n, here, above⟩, holdsL, p, holds⟩ := ready
  obtain ⟨inside, nodup, away⟩ := distinct_plug.mp distinct
  obtain ⟨distinctL, -, outL, outS, apartL⟩ := (distinct_join (d := .left)).mp inside
  have inner : ∀ b, b = y.id ∨ b ∈ L.ids ∨ b ∈ S.ids → b ∈ (Outline.node L y S).ids := fun b =>
    (mem_ids_join (d := .left)).mpr
  have split : ∀ b ∈ (Outline.node .nil y S).ids, b ∉ L.ids ∧ b ∉ outer fs := by
    intro b member
    rcases (mem_ids_join (d := .left)).mp member with rfl | never | inS
    · exact ⟨outL, away _ (inner _ (.inl rfl))⟩
    · cases never
    · exact ⟨fun inL => apartL b inL inS, away b (inner b (.inr (.inr inS)))⟩
  have distinctV : (plug (.node .nil y S) fs).Distinct := by
    refine distinct_plug.mpr ⟨?_, nodup, fun b member => (split b member).2⟩
    exact List.Sublist.nodup (List.sublist_append_right _ _ |>.map Cell.id) inside
  obtain ⟨t₁, moved, focus₁, rest₁⟩ := transplant_spec around here above holds distinctV apart
  obtain ⟨⟨m, hereY, parentY, -, rightY, cellY⟩, -, holdsS⟩ := focus₁.holds
  have holdsL₁ : Holds t₁ (some c.id) L := holdsL.congr fun b member =>
    rest₁ b (fun inV => (split b inV).1 member) (away b (inner b (.inr (.inl member))))
  obtain ⟨t₂, wrote₂, at₂⟩ := Tree.write_ok hereY fun m => { m with left := some l }
  have holdsL₂ : Holds t₂ (some c.id) L := by
    refine holdsL₁.congr fun b member => at₂.rest b ?_
    rintro rfl
    exact outL member
  obtain ⟨t₃, wrote₃, holdsL₃, root₃, rest₃⟩ := adopt_spec holdsL₂ distinctL topL (some y.id)
  have others : ∀ b ∉ L.ids, b ≠ y.id → t₃.mem b = t₁.mem b := by
    intro b out other
    rw [rest₃ b out, at₂.rest b other]
  refine ⟨t₁, t₂, t₃, moved, wrote₂, wrote₃, ?_, ⟨⟨{ m with left := some l },
    (rest₃ _ outL).trans at₂.here, parentY, topL.symm, rightY, cellY⟩, holdsL₃, ?_⟩, distinct⟩
  · refine focus₁.around.congr (root₃.trans at₂.root) fun b member => ?_
    refine others b (fun inL => away b (inner b (.inr (.inl inL))) member) ?_
    rintro rfl
    exact away _ (inner _ (.inl rfl)) member
  · refine holdsS.congr fun b member => others b (fun inL => apartL b inL member) ?_
    rintro rfl
    exact outS member

/-- What `delete_tree_node` makes of the tree with subtrees `L` and `R` in the place `fs`. Without
children there is no fix-up. -/
inductive Drops (fs : List (Frame Cell)) : Outline Cell → Outline Cell → Outline Cell → Prop
  | leaf : Drops fs .nil .nil (plug .nil fs)
  | right {R r : Outline Cell} (full : R ≠ .nil) (settles : Settles R fs r) : Drops fs .nil R r
  | left {L r : Outline Cell} (full : L ≠ .nil) (settles : Settles L fs r) : Drops fs L .nil r
  | both {L R S r : Outline Cell} {y : Cell} (full : L ≠ .nil) (least : R.popMin = some (y, S))
      (settles : Settles (.node L y S) fs r) : Drops fs L R r

theorem Drops.rest (drops : Drops fs L R r) :
    ∃ s : Outline Cell, s.toList = L.toList ++ R.toList ∧ r.records = (plug s fs).records := by
  cases drops with
  | leaf => exact ⟨.nil, rfl, rfl⟩
  | right _ settles => exact ⟨R, rfl, settles.records⟩
  | left _ settles => exact ⟨L, (List.append_nil _).symm, settles.records⟩
  | @both _ _ S _ y _ least settles =>
    refine ⟨.node L y S, ?_, settles.records⟩
    rw [toList_popMin least]
    rfl

theorem nonneg_drop (nonneg : (plug (.node L c R) fs).Nonneg)
    (rest : s.toList = L.toList ++ R.toList) : (plug s fs).Nonneg := by
  obtain ⟨inner, outer⟩ := nonneg_plug.mp nonneg
  refine nonneg_plug.mpr ⟨fun d member => inner d ?_, outer⟩
  rw [rest, List.mem_append] at member
  rw [toList, List.mem_append, List.mem_cons]
  exact member.imp_right .inr

theorem Drops.nonneg (drops : Drops fs L R r) (nonneg : (plug (.node L c R) fs).Nonneg) :
    r.Nonneg := by
  cases drops with
  | leaf => exact nonneg_drop (s := .nil) nonneg rfl
  | right _ settles => exact settles.nonneg (nonneg_drop nonneg rfl)
  | left _ settles => exact settles.nonneg (nonneg_drop nonneg (List.append_nil _).symm)
  | @both _ _ S _ y _ least settles =>
    refine settles.nonneg (nonneg_drop nonneg ?_)
    rw [toList_popMin least]
    rfl

theorem exists_drops (nonneg : (plug (.node L c R) fs).Nonneg) : ∃ r, Drops fs L R r := by
  by_cases emptyL : L = .nil
  · subst emptyL
    by_cases emptyR : R = .nil
    · subst emptyR
      exact ⟨_, .leaf⟩
    · obtain ⟨r, settles⟩ := exists_settles fs R emptyR (nonneg_drop nonneg rfl)
      exact ⟨r, .right emptyR settles⟩
  · by_cases emptyR : R = .nil
    · subst emptyR
      obtain ⟨r, settles⟩ := exists_settles fs L emptyL (nonneg_drop nonneg (List.append_nil _).symm)
      exact ⟨r, .left emptyL settles⟩
    · obtain ⟨y, S, least⟩ := exists_popMin emptyR
      have rest : (Outline.node L y S).toList = L.toList ++ R.toList := by
        rw [toList_popMin least]
        rfl
      obtain ⟨r, settles⟩ := exists_settles fs (.node L y S) (by simp) (nonneg_drop nonneg rest)
      exact ⟨r, .both emptyL least settles⟩

theorem fixup_free (rest : s.toList = L.toList ++ R.toList) (settles : Settles s fs r)
    (full : s ≠ .nil) (nonneg : (plug (.node L c R) fs).Nonneg) :
    ∃ rounds, ∀ fuel, rounds ≤ fuel → ∀ t, Focus t s fs → c.id ∉ (plug s fs).ids →
      ∃ t', (do
        let t ← deleteFixup fuel t s.ptr
        pure (t.free c.id)) = .ok t' ∧ Represents t' r := by
  obtain ⟨rounds, fixup⟩ := deleteFixup_spec settles full (nonneg_drop nonneg rest)
  refine ⟨rounds, fun fuel enough t focus outside => ?_⟩
  obtain ⟨t₁, fixed, represents⟩ := fixup fuel enough t focus
  refine ⟨t₁.free c.id, by rw [fixed]; rfl, free_spec represents ?_⟩
  rwa [ids_eq, settles.records, ← ids_eq]

/-- With enough fuel, deletion on memory computes the outline of `Drops`. -/
theorem deleteTreeNode_spec (drops : Drops fs L R r) (nonneg : (plug (.node L c R) fs).Nonneg) :
    ∃ steps, ∀ fuel, steps ≤ fuel → ∀ t, Focus t (.node L c R) fs →
      ∃ t', deleteTreeNode fuel t c.id = .ok t' ∧ Represents t' r := by
  cases drops with
  | leaf =>
    refine ⟨0, fun fuel _ t focus => ?_⟩
    obtain ⟨n, here, above, isLeft, isRight, -⟩ := focus.holds.1
    obtain ⟨distinct, gone⟩ := distinct_drop (s := .nil) focus.distinct rfl
    obtain ⟨t₁, moved, focus₁, -⟩ := transplant_spec (V := .nil) focus.around here above
      (show Holds t none .nil from trivial) distinct (fun member => gone (mem_ids_plug.mpr (.inr member)))
    refine ⟨t₁.free c.id, ?_, free_spec (focus_iff.mp focus₁) gone⟩
    unfold deleteTreeNode
    rw [Tree.node_ok here, ok_bind, show n.left = none from isLeft, show n.right = none from isRight]
    dsimp only
    rw [show (none : Ptr) = (Outline.nil : Outline Cell).ptr from rfl, moved, ok_bind]
    cases fuel <;> rfl
  | right full settles =>
    obtain ⟨rounds, fixup⟩ := fixup_free rfl settles full nonneg
    refine ⟨rounds, fun fuel enough t focus => ?_⟩
    obtain ⟨n, here, above, isLeft, isRight, -⟩ := focus.holds.1
    obtain ⟨distinct, gone⟩ := distinct_drop (s := R) focus.distinct rfl
    obtain ⟨t₁, moved, focus₁, -⟩ := transplant_spec focus.around here above focus.holds.2.2 distinct
      (fun member => gone (mem_ids_plug.mpr (.inr member)))
    obtain ⟨t', done, represents⟩ := fixup fuel enough t₁ focus₁ gone
    refine ⟨t', ?_, represents⟩
    unfold deleteTreeNode
    rw [Tree.node_ok here, ok_bind, show n.left = none from isLeft, show n.right = R.ptr from isRight]
    dsimp only
    rwa [moved, ok_bind]
  | left full settles =>
    have rest : L.toList = L.toList ++ (Outline.nil : Outline Cell).toList := (List.append_nil _).symm
    obtain ⟨rounds, fixup⟩ := fixup_free rest settles full nonneg
    refine ⟨rounds, fun fuel enough t focus => ?_⟩
    obtain ⟨n, here, above, isLeft, isRight, -⟩ := focus.holds.1
    obtain ⟨distinct, gone⟩ := distinct_drop (s := L) focus.distinct rest
    obtain ⟨t₁, moved, focus₁, -⟩ := transplant_spec focus.around here above focus.holds.2.1 distinct
      (fun member => gone (mem_ids_plug.mpr (.inr member)))
    obtain ⟨t', done, represents⟩ := fixup fuel enough t₁ focus₁ gone
    refine ⟨t', ?_, represents⟩
    unfold deleteTreeNode
    rw [Tree.node_ok here, ok_bind, show n.left = L.ptr from isLeft, show n.right = none from isRight]
    cases top : L.ptr with
    | none => exact absurd (ptr_eq_none.mp top) full
    | some l =>
      dsimp only
      rwa [← top, moved, ok_bind]
  | @both _ _ S _ y full least settles =>
    have rest : (Outline.node L y S).toList = L.toList ++ R.toList := by
      rw [toList_popMin least]
      rfl
    obtain ⟨rounds, fixup⟩ := fixup_free rest settles (by simp) nonneg
    refine ⟨max rounds R.size, fun fuel enough t focus => ?_⟩
    obtain ⟨n, here, above, isLeft, isRight, -⟩ := focus.holds.1
    obtain ⟨distinct, gone⟩ := distinct_drop (s := .node L y S) focus.distinct rest
    have apart : c.id ∉ outer fs := fun member => gone (mem_ids_plug.mpr (.inr member))
    obtain ⟨V, gs, frames, rfl⟩ := popMin_frames least
    have inside : Focus t (.node .nil y V) (gs ++ ⟨.right, c, L⟩ :: fs) := by
      rw [focus_iff, plug_append, ← frames]
      exact focus_iff.mp ((focus_join (d := .right)).mp focus)
    obtain ⟨m, hereY, aboveY, -, rightY, -⟩ := inside.holds.1
    unfold deleteTreeNode
    rw [Tree.node_ok here, ok_bind, show n.left = L.ptr from isLeft, show n.right = R.ptr from isRight]
    cases topL : L.ptr with
    | none => exact absurd (ptr_eq_none.mp topL) full
    | some l =>
    cases topR : R.ptr with
    | none =>
      rw [ptr_eq_none.mp topR] at least
      cases least
    | some p =>
    dsimp only
    rw [minimum_popMin focus.holds.2.2 topR least (by omega), ok_bind, Tree.node_ok hereY, ok_bind]
    have onward : ∀ t₁, Ready t₁ c L y (plug V gs) fs → ∃ t', (do
        let t ← transplant t₁ (some c.id) (some y.id)
        let t ← t.write (some y.id) fun m => { m with left := some l }
        let t ← t.write (some l) fun m => { m with parent := some y.id }
        let t ← deleteFixup fuel t (some y.id)
        pure (t.free c.id)) = .ok t' ∧ Represents t' r := by
      intro t₁ ready
      obtain ⟨t₂, t₃, t₄, moved, wroteY, wroteL, focus₄⟩ := ready.succeed topL distinct apart
      obtain ⟨t', done, represents⟩ := fixup fuel (by omega) t₄ focus₄ gone
      refine ⟨t', ?_, represents⟩
      rwa [moved, ok_bind, wroteY, ok_bind, wroteL, ok_bind]
    rw [show m.right = V.ptr from rightY, aboveY]
    cases gs with
    | nil =>
      rw [frames] at focus
      obtain ⟨t', done, represents⟩ := onward t focus.ready
      have same : up ([] ++ ⟨.right, c, L⟩ :: fs) = some c.id := rfl
      exact ⟨t', by rw [if_neg (not_not.mpr same), pure_bind, done], represents⟩
    | cons g gs =>
      have other : up (g :: gs ++ ⟨.right, c, L⟩ :: fs) ≠ some c.id := by
        intro same
        refine gone (mem_ids_plug.mpr (.inl ((mem_ids_join (d := .left)).mpr (.inr (.inr ?_)))))
        exact mem_ids_plug.mpr (.inr (mem_outer_cons.mpr (.inl (Option.some.inj same).symm)))
      obtain ⟨t₁, t₂, t₃, moved, wroteY, wroteR, ready⟩ := takeOut_spec focus frames topR
      obtain ⟨t', done, represents⟩ := onward t₃ ready
      refine ⟨t', ?_, represents⟩
      rw [if_pos other, moved, ok_bind, wroteY, ok_bind, wroteR, ok_bind, done]

end MemExchange.Shadow
