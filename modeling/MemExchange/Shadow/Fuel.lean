import MemExchange.Shadow.Sections

/-!
# More fuel

A loop of the tree that ends within its fuel ends in the same way if there is more of it. So what is
shown of a run with some fuel is shown of the run with any fuel that is enough.
-/
namespace MemExchange.Shadow

variable {α β : Type} {fuel more : Nat}

/-- The second computation has the result of the first, if that has one. -/
structure Extends (x y : Result α) : Prop where
  result : ∀ a, x = .ok a → y = .ok a

variable (x : Result α)

theorem Extends.refl : Extends x x := ⟨fun _ done => done⟩

theorem extends_error (fault : Fault) (y : Result α) : Extends (.error fault) y :=
  ⟨fun _ never => nomatch never⟩

theorem Extends.bind {x y : Result α} {f h : α → Result β} (first : Extends x y)
    (rest : ∀ a, Extends (f a) (h a)) : Extends (x >>= f) (y >>= h) := by
  refine ⟨fun b done => ?_⟩
  obtain ⟨a, here, done⟩ := bind_eq_ok done
  rw [first.result a here, ok_bind]
  exact (rest a).result b done

theorem Extends.after {f h : α → Result β} (rest : ∀ a, Extends (f a) (h a)) :
    Extends (x >>= f) (x >>= h) :=
  .bind (.refl x) rest

theorem extends_descend (n : Node) (le : fuel ≤ more) (t : Tree) (y temp : Ptr) :
    Extends (descend n fuel t y temp) (descend n more t y temp) := by
  induction fuel generalizing more t y temp with
  | zero =>
    cases temp with
    | none => cases more <;> exact .refl _
    | some a => exact extends_error ..
  | succ fuel ih =>
    obtain ⟨more, rfl⟩ := Nat.exists_eq_add_of_le' (Nat.one_le_of_lt le)
    cases temp with
    | none => exact .refl _
    | some a =>
      refine .after _ fun m => ?_
      split
      · exact ih (Nat.le_of_succ_le_succ le) ..
      · exact .after _ fun t => ih (Nat.le_of_succ_le_succ le) ..

variable (le : fuel ≤ more)
include le

variable (t : Tree)

theorem extends_rebalance (y z : Ptr) : Extends (rebalance fuel t y z) (rebalance more t y z) := by
  induction fuel generalizing more t y z with
  | zero =>
    cases y with
    | none => cases more <;> exact .refl _
    | some a => exact extends_error ..
  | succ fuel ih =>
    obtain ⟨more, rfl⟩ := Nat.exists_eq_add_of_le' (Nat.one_le_of_lt le)
    cases y with
    | none => exact .refl _
    | some a =>
      refine .after _ fun t => .after _ fun m => .after _ fun bf => ?_
      split
      · exact .refl _
      · exact .after _ fun m => ih (Nat.le_of_succ_le_succ le) ..

theorem extends_deleteFixup (p : Ptr) : Extends (deleteFixup fuel t p) (deleteFixup more t p) := by
  induction fuel generalizing more t p with
  | zero =>
    cases p with
    | none => cases more <;> exact .refl _
    | some a => exact extends_error ..
  | succ fuel ih =>
    obtain ⟨more, rfl⟩ := Nat.exists_eq_add_of_le' (Nat.one_le_of_lt le)
    cases p with
    | none => exact .refl _
    | some a =>
      have next : ∀ t : Tree, Extends (t.node (some a) >>= fun n => deleteFixup fuel t n.parent)
          (t.node (some a) >>= fun n => deleteFixup more t n.parent) := fun t =>
        .after _ fun n => ih (Nat.le_of_succ_le_succ le) ..
      refine .after _ fun t => .after _ fun bf => ?_
      dsimp only
      split
      · exact .after _ fun y => .after _ fun z => .after _ next
      · exact .after _ next

theorem extends_minimum (x : NodeId) : Extends (minimum fuel t x) (minimum more t x) := by
  induction fuel generalizing more x with
  | zero =>
    rw [minimum_eq, minimum_eq]
    refine .after _ fun n => ?_
    cases n.left with
    | none => exact .refl _
    | some l => exact extends_error ..
  | succ fuel ih =>
    obtain ⟨more, rfl⟩ := Nat.exists_eq_add_of_le' (Nat.one_le_of_lt le)
    rw [minimum_eq, minimum_eq]
    refine .after _ fun n => ?_
    cases n.left with
    | none => exact .refl _
    | some l => exact ih (Nat.le_of_succ_le_succ le) l

theorem extends_insertTreeNode (n : NodeId) :
    Extends (insertTreeNode fuel t n) (insertTreeNode more t n) := by
  refine .after _ fun new => .bind (extends_descend new le ..) fun p => .after _ fun t => ?_
  dsimp only
  split
  · exact .after _ fun t => extends_rebalance le ..
  · refine .after _ fun m => ?_
    split <;> exact .after _ fun t => extends_rebalance le ..

theorem extends_deleteTreeNode (z : NodeId) :
    Extends (deleteTreeNode fuel t z) (deleteTreeNode more t z) := by
  have last : ∀ (t : Tree) (p : Ptr), Extends (deleteFixup fuel t p >>= fun t => pure (t.free z))
      (deleteFixup more t p >>= fun t => pure (t.free z)) := fun t p =>
    .bind (extends_deleteFixup le t p) fun t => .refl _
  refine .after _ fun n => ?_
  split
  · exact .after _ fun t => last ..
  · exact .after _ fun t => last ..
  · refine .bind (extends_minimum le ..) fun y => .after _ fun m => ?_
    dsimp only
    split
    · exact .after _ fun t => .after _ fun t => .after _ fun t => .after _ fun t => .after _ fun t =>
        .after _ fun t => last ..
    · exact .after _ fun t => .after _ fun t => .after _ fun t => .after _ fun t => last ..

end MemExchange.Shadow
