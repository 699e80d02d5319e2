import MemExchange.Slabs.Clearing
import MemExchange.Slabs.PageIds

/-!
# Chunks are neither lost nor doubled

In a class the free chunks, those that are in use and those the mover has cleared make up
`slabs * perslab`, and every slot of a remote page is free, held by one temporary item or in the
index once. A received page that is split into another number of chunks, a temporary item that ends
in `item_free`, and a move between classes break this.
-/
namespace MemExchange.Slabs

/-! ### What is to hold -/

variable (cfg : Config) (w : World) (action : Action)

/-- The chunks of those pages of a class whose connection is as `ok` says. -/
def World.cellsOf {α : Type} (ok : Option Nat → Bool) (mk : Nat → Nat → α) (entries : List Entry) :
    List α :=
  entries.flatMap fun e =>
    match e.page with
    | some page => if ok e.conn then (List.range (w.cut page)).map (mk page) else []
    | none => []

def localCells (id : Int) : List Chunk :=
  w.cellsOf Option.isNone Chunk.cell (w.pages id).entries

def remoteSlots (id : Int) : List RSlot :=
  w.cellsOf Option.isSome RSlot.mk (w.pages id).entries

/-- The slots that the temporary items in flight stand for. -/
def tempSlots : List RSlot := w.temps.filterMap fun n => (w.header (.temp n)).rIt

/-- The chunks of a class that are handed out, local and remote. -/
def inUse (id : Int) : Nat :=
  (localCells w id).countP (fun c => (w.header c).flag = .used ∨ (w.header c).flag = .linked) +
    (remoteSlots w id).countP fun r => r ∈ tempSlots w ∨ r ∈ w.index

/-- The chunks of a class that the mover has cleared. -/
def cleared (id : Int) : Nat :=
  (localCells w id).countP fun c => (w.header c).flag = .cleared

/-- The books of one class. Chunks that are cleared belong to the page that is being
emptied. -/
def ClassConserved (id : Int) : Prop :=
  let p := w.cls id
  let free := p.slots.toList p.slCurr
  (p.slots.Rep free ∧ free.length = p.slCurr) ∧
  p.slCurrR = p.rslots.length ∧
  (∀ c ∈ free, c ∈ localCells w id) ∧
  (∀ r ∈ remoteSlots w id, p.rslots.count r + (tempSlots w).count r + w.index.count r = 1) ∧
  p.slCurr + p.slCurrR + inUse w id + cleared w id = (w.pages id).slabs * cfg.perslab id ∧
  ∀ c ∈ localCells w id, (w.header c).flag = .cleared →
    w.rebal.signal = .moving ∧ w.inRange cfg c = true

instance (id : Int) : Decidable (ClassConserved cfg w id) := by
  unfold ClassConserved; infer_instance

def ChunksConserved : Prop :=
  ∀ id ∈ Finset.Icc 1 cfg.powerLargest, ClassConserved cfg w id

noncomputable instance : DecidablePred (ChunksConserved cfg) := fun _ => by
  unfold ChunksConserved; infer_instance

/-- Temporary items are stored, not freed. -/
def FreesCells : Action → Prop
  | .itemFree (.temp _) => False
  | _ => True

instance : DecidablePred FreesCells := fun action => by
  unfold FreesCells; split <;> infer_instance

/-- The condition on a step. -/
def ChunksSafe : Prop :=
  AsksForItsPages cfg w action ∧ SplitsEvenly cfg w action ∧ FreesCells action

instance : DecidableRel (ChunksSafe cfg) := fun _ _ => by
  unfold ChunksSafe; infer_instance

/-! ### Remote slots -/

/-- Every slot of a remote page is at one place. -/
structure Lent (cfg : Config) (w : World) : Prop where
  count : ∀ id, (w.cls id).slCurrR = (w.cls id).rslots.length
  mine : ∀ {id r}, cfg.isClass id = true → r ∈ (w.cls id).rslots → Holds w id (· ≠ none) r.page r.index
  one : ∀ {id r}, cfg.isClass id = true → Holds w id (· ≠ none) r.page r.index →
    (w.cls id).rslots.count r + (tempSlots w).count r + w.index.count r = 1
  held : ∀ {r}, r ∈ tempSlots w ∨ r ∈ w.index →
    ∃ id, cfg.isClass id = true ∧ Holds w id (· ≠ none) r.page r.index
  nodup : w.temps.Nodup
  old : ∀ n ∈ w.temps, n < w.nextTemp
  used : ∀ n, (w.header (.temp n)).flag = .used → n ∈ w.temps
  notFree : ∀ n, (w.header (.temp n)).flag ≠ .slabbed
  plain : ∀ page y, (w.header (.cell page y)).rIt = none

section Lent

variable {cfg w} {w' : World} {id : Int} {page : Nat}

section

variable (lent : Lent cfg w) (rslots : ∀ id, (w'.cls id).rslots = (w.cls id).rslots)
  (slCurrR : ∀ id, (w'.cls id).slCurrR = (w.cls id).slCurrR)
  (holds : ∀ {id}, cfg.isClass id = true → ∀ p y, Holds w' id (· ≠ none) p y ↔ Holds w id (· ≠ none) p y)
  (temps : w'.temps = w.temps) (index : w'.index = w.index) (nextTemp : w'.nextTemp = w.nextTemp)
include lent rslots slCurrR holds temps index nextTemp

theorem Lent.keep (rIt : ∀ n, (w'.header (.temp n)).rIt = (w.header (.temp n)).rIt)
    (used : ∀ n, (w'.header (.temp n)).flag = .used → (w.header (.temp n)).flag = .used)
    (notFree : ∀ n, (w'.header (.temp n)).flag ≠ .slabbed)
    (plain : ∀ page y, (w'.header (.cell page y)).rIt = none) : Lent cfg w' := by
  have slots : tempSlots w' = tempSlots w := by simp only [tempSlots, temps, rIt]
  refine ⟨fun id => ?_, fun {id r} isClass mine => ?_, fun {id r} isClass there => ?_, fun {r} has => ?_,
    ?_, ?_, fun n flag => ?_, notFree, plain⟩
  · rw [rslots, slCurrR]; exact lent.count id
  · rw [rslots] at mine
    exact (holds isClass _ _).mpr (lent.mine isClass mine)
  · rw [rslots, slots, index]
    exact lent.one isClass ((holds isClass _ _).mp there)
  · rw [slots, index] at has
    obtain ⟨id, isClass, there⟩ := lent.held has
    exact ⟨id, isClass, (holds isClass _ _).mpr there⟩
  · rw [temps]; exact lent.nodup
  · rw [temps, nextTemp]; exact lent.old
  · rw [temps]; exact lent.used n (used n flag)

theorem Lent.same (headers : ∀ n, w'.header (.temp n) = w.header (.temp n))
    (plain : ∀ page y, (w'.header (.cell page y)).rIt = none) : Lent cfg w' :=
  lent.keep rslots slCurrR holds temps index nextTemp (fun n => by rw [headers])
    (fun n => by rw [headers]; exact id) (fun n => by rw [headers]; exact lent.notFree n) plain

end

theorem Lent.quiet (lent : Lent cfg w) (quiet : Quiet w w') : Lent cfg w' :=
  lent.same quiet.rslots quiet.slCurrR (fun isClass => quiet.holds (ne_zero_of_isClass isClass) _)
    quiet.temps quiet.index quiet.nextTemp (fun n => by rw [quiet.header])
    (fun page y => by rw [quiet.header]; exact lent.plain page y)

theorem Lent.only (lent : Lent cfg w) (only : Uncut w w')
    (headers : ∀ n, w'.header (.temp n) = w.header (.temp n))
    (plain : ∀ page y, (w'.header (.cell page y)).rIt = none) : Lent cfg w' :=
  lent.same only.rslots only.slCurrR (fun _ _ _ => holds_congr (only.pages _) only.cut) only.temps only.index
    only.nextTemp headers plain

variable {number : UInt16}

theorem Lent.addsLocal (lent : Lent cfg w) {page n : Nat} (fresh : Fresh w page)
    (adds : AddsLocal cfg w w' id page n number) : Lent cfg w' := by
  refine lent.same adds.rslots adds.slCurrR (fun {other} _ p y => ?_) adds.temps adds.index adds.nextTemp
    (fun k => adds.others _ fun y same => by cases same) fun p y => ?_
  · rw [holds_attach adds.pages adds.cut fresh]
    simp only [ne_eq, not_true_eq_false, false_and, and_false, or_false]
  · by_cases here : p = page
    · rw [here, adds.cells]
      split
      · cases cfg.isClass id <;> rfl
      · rfl
    · rw [adds.others _ fun y' same => here (by cases same; rfl)]
      exact lent.plain p y

theorem Lent.remove (lent : Lent cfg w) (layout : Layout cfg w) {s : Int} {idx page : Nat}
    (lists : Lists w s idx page) (isLocal : (w.pages s).conn idx = none) :
    Lent cfg (w.removePage cfg s idx) := by
  obtain ⟨headers, classes, index, temps, nextTemp⟩ := removePage_chunks cfg w s idx
  refine lent.keep (fun id => (classes id).2.2.1) (fun id => (classes id).2.2.2) (fun {id} _ p y => ?_) temps
    index nextTemp (fun n => (headers _).2.2) (fun n used => (headers _).1.symm.trans used)
    (fun n => by rw [(headers _).1]; exact lent.notFree n)
    (fun p y => by rw [(headers _).2.2]; exact lent.plain p y)
  rw [holds_remove layout lists]
  refine and_iff_left_of_imp fun there => ?_
  rintro rfl
  -- the page that goes is a local one
  obtain ⟨i, listed, remote, -⟩ := there
  obtain ⟨rfl, rfl⟩ := layout.apart listed lists
  exact remote isLocal

theorem count_slots (page n : Nat) (r : RSlot) :
    ((List.range n).map (RSlot.mk page)).reverse.count r =
      if r.page = page ∧ r.index < n then 1 else 0 := by
  have nodup : ((List.range n).map (RSlot.mk page)).Nodup :=
    List.nodup_range.map fun _ _ same => (RSlot.mk.inj same).2
  have member : r ∈ (List.range n).map (RSlot.mk page) ↔ r.page = page ∧ r.index < n := by
    simp only [List.mem_map, List.mem_range]
    exact ⟨by rintro ⟨y, bound, rfl⟩; exact ⟨rfl, bound⟩, fun ⟨here, bound⟩ => ⟨r.index, bound, by rw [← here]⟩⟩
  rw [List.count_reverse]
  split
  next new => exact List.count_eq_one_of_mem nodup (member.mpr new)
  next old => exact List.count_eq_zero_of_not_mem fun new => old (member.mp new)

section

variable (lent : Lent cfg w)
include lent

theorem Lent.addsRemote {page n : Nat} {c : Nat} {mr : Mr}
    (fresh : Fresh w page) (adds : AddsRemote cfg w w' id page n number c mr) : Lent cfg w' := by
  have slots : tempSlots w' = tempSlots w := by simp only [tempSlots, adds.temps, adds.header]
  have holds : ∀ other p y, Holds w' other (· ≠ none) p y ↔
      Holds w other (· ≠ none) p y ∨ (other = id ∧ p = page ∧ y < n) := by
    intro other p y
    rw [holds_attach adds.pages adds.cut fresh]
    simp only [ne_eq, reduceCtorEq, not_false_eq_true, true_and]
  refine ⟨fun other => ?_, fun {other r} isClass mine => ?_, fun {other r} isClass there => ?_,
    fun {r} has => ?_, ?_, ?_, ?_, ?_, ?_⟩
  · rw [adds.rslots, adds.slCurrR]
    split
    · rw [List.length_append, List.length_reverse, List.length_map, List.length_range, lent.count id]
      omega
    · exact lent.count other
  · rw [adds.rslots] at mine
    rw [holds]
    split at mine
    next here =>
      subst here
      rcases List.mem_append.mp mine with new | old
      · have := List.count_pos_iff.mpr new
        rw [count_slots] at this
        split at this
        next both => exact .inr ⟨rfl, both⟩
        · cases this
      · exact .inl (lent.mine isClass old)
    · exact .inl (lent.mine isClass mine)
  · rw [slots, adds.index, adds.rslots]
    rcases (holds other r.page r.index).mp there with old | ⟨rfl, here, bound⟩
    · have before := lent.one isClass old
      have notHere : r.page ≠ page := fun here => fresh.not_holds other _ r.index (here ▸ old)
      split
      next here =>
        subst here
        rw [List.count_append, count_slots, if_neg fun both => notHere both.1]
        omega
      · exact before
    · -- before, nothing referred to a slot of this page
      have nobody : ∀ {other'}, ¬ Holds w other' (· ≠ none) r.page r.index := by
        rw [here]; exact fresh.not_holds _ _ _
      have free : (w.cls other).rslots.count r = 0 :=
        List.count_eq_zero_of_not_mem fun mine => nobody (lent.mine isClass mine)
      have temps : (tempSlots w).count r = 0 := List.count_eq_zero_of_not_mem fun has => by
        obtain ⟨_, -, there⟩ := lent.held (.inl has)
        exact nobody there
      have index : w.index.count r = 0 := List.count_eq_zero_of_not_mem fun has => by
        obtain ⟨_, -, there⟩ := lent.held (.inr has)
        exact nobody there
      rw [if_pos rfl, List.count_append, count_slots, if_pos ⟨here, bound⟩, free, temps, index]
  · rw [slots, adds.index] at has
    obtain ⟨other, isClass, there⟩ := lent.held has
    exact ⟨other, isClass, (holds ..).mpr (.inl there)⟩
  · rw [adds.temps]; exact lent.nodup
  · rw [adds.temps, adds.nextTemp]; exact lent.old
  · rw [adds.header, adds.temps]; exact lent.used
  · rw [adds.header]; exact lent.notFree
  · rw [adds.header]; exact lent.plain

theorem Lent.takeRemoteSlot (layout : Layout cfg w) {it : Chunk}
    (isClass : cfg.isClass id = true) (taken : w.takeRemoteSlot id = some (it, w')) :
    Lent cfg w' := by
  obtain ⟨r, rest, first, -, same⟩ := w.takeRemoteSlot_eq taken
  have cls : ∀ other, w'.cls other = if other = id then
      { w.cls id with rslots := rest, slCurrR := (w.cls id).slCurrR - 1 } else w.cls other := by
    intro other; rw [same, World.setClass_cls]
  have header : ∀ c, w'.header c =
      if c = .temp w.nextTemp then ⟨.used, (w.remote r).pageId, some r, id⟩ else w.header c := by
    intro c
    rw [same, World.setClass_header]
    exact Function.update_apply ..
  have temps : w'.temps = w.nextTemp :: w.temps := by rw [same]; rfl
  have index : w'.index = w.index := by rw [same]; rfl
  have nextTemp : w'.nextTemp = w.nextTemp + 1 := by rw [same]; rfl
  have holds : ∀ other p y, Holds w' other (· ≠ none) p y ↔ Holds w other (· ≠ none) p y := by
    intro other p y
    refine holds_congr ?_ (by rw [same]; rfl)
    rw [World.pages, cls]
    split
    next here => rw [here]; rfl
    · rfl
  have slots : tempSlots w' = r :: tempSlots w := by
    rw [tempSlots, temps, List.filterMap_cons, header, if_pos rfl]
    refine congrArg (r :: ·) (List.filterMap_congr fun n member => ?_)
    rw [header, if_neg]
    rintro same
    cases same
    exact lt_irrefl _ (lent.old _ member)
  have mine : Holds w id (· ≠ none) r.page r.index :=
    lent.mine isClass (by rw [first]; exact List.mem_cons_self ..)
  refine ⟨fun other => ?_, fun {other x} isClass' has => ?_, fun {other x} isClass' there => ?_,
    fun {x} has => ?_, ?_, fun n member => ?_, fun n used => ?_, fun n => ?_, fun page y => ?_⟩
  · rw [cls]
    have before := lent.count id
    rw [first, List.length_cons] at before
    split
    · simp only; omega
    · exact lent.count other
  · rw [holds]
    rw [cls] at has
    split at has
    next here =>
      subst here
      exact lent.mine isClass' (by rw [first]; exact List.mem_cons_of_mem _ has)
    · exact lent.mine isClass' has
  · rw [holds] at there
    have before := lent.one isClass' there
    rw [slots, index, cls]
    split
    next here =>
      subst here
      rw [first, List.count_cons] at before
      rw [List.count_cons]
      simp only
      omega
    next other_ =>
      -- the slot that was taken is not one of this class
      have : r ≠ x := fun same => other_ (layout.holds_unique there (same ▸ mine)).1
      rwa [List.count_cons_of_ne this]
  · rw [slots, index, List.mem_cons] at has
    rcases has with (rfl | has) | has
    · exact ⟨id, isClass, (holds ..).mpr mine⟩
    · obtain ⟨other, isClass', there⟩ := lent.held (.inl has)
      exact ⟨other, isClass', (holds ..).mpr there⟩
    · obtain ⟨other, isClass', there⟩ := lent.held (.inr has)
      exact ⟨other, isClass', (holds ..).mpr there⟩
  · rw [temps]
    exact List.nodup_cons.mpr ⟨fun member => lt_irrefl _ (lent.old _ member), lent.nodup⟩
  · rw [temps, List.mem_cons] at member
    rw [nextTemp]
    rcases member with rfl | member
    · omega
    · have := lent.old n member; omega
  · rw [temps, List.mem_cons]
    by_cases new : n = w.nextTemp
    · exact .inl new
    · rw [header, if_neg fun same => new (Chunk.temp.inj same)] at used
      exact .inr (lent.used n used)
  · rw [header]
    split
    · simp
    · exact lent.notFree n
  · rw [header, if_neg (by simp)]
    exact lent.plain page y

theorem Lent.storeRemote_eq {c : Chunk} (called : w.storeRemote c = some w') :
    ∃ n r, (w.header (.temp n)).rIt = some r ∧ n ∈ w.temps ∧
      w' = { w.setHeader (.temp n) fun _ => {} with
        index := r :: w.index
        temps := w.temps.erase n } := by
  simp only [World.storeRemote] at called
  split at called
  · cases called
  next r stands =>
    obtain ⟨flag, called⟩ := Option.ite_none_right_eq_some.mp called
    cases c with
    | cell page y =>
      simp [lent.plain] at stands
    | temp n =>
      refine ⟨n, r, stands, lent.used n flag, ?_⟩
      have others : (w.temps.filter fun k => Chunk.temp n ≠ .temp k) = w.temps.erase n := by
        rw [lent.nodup.erase_eq_filter]
        refine List.filter_congr fun k _ => ?_
        simp only [ne_eq, Chunk.temp.injEq, eq_comm (a := n), bne, decide_not, beq_eq_decide]
      rw [← others]
      exact (Option.some.inj called).symm

theorem Lent.storeRemote {c : Chunk} (called : w.storeRemote c = some w') :
    Lent cfg w' := by
  obtain ⟨n, r, stands, member, same⟩ := lent.storeRemote_eq called
  have header : ∀ x, w'.header x = if x = .temp n then {} else w.header x := by
    intro x; rw [same]; exact w.setHeader_header (.temp n) x fun _ => {}
  have temps : w'.temps = w.temps.erase n := by rw [same]
  have index : w'.index = r :: w.index := by rw [same]
  have cls : w'.cls = w.cls := by rw [same]; rfl
  have holds : ∀ id p y, Holds w' id (· ≠ none) p y ↔ Holds w id (· ≠ none) p y :=
    fun id p y => holds_congr (World.pages_of_cls cls id) (by rw [same]; rfl)
  have slots : (tempSlots w).Perm (r :: tempSlots w') := by
    refine ((List.perm_cons_erase member).filterMap _).trans ?_
    rw [List.filterMap_cons, stands, tempSlots, temps]
    refine List.Perm.of_eq (congrArg (r :: ·) (List.filterMap_congr fun k there => ?_))
    rw [header, if_neg]
    intro same
    cases same
    exact (lent.nodup.mem_erase_iff.mp there).1 rfl
  refine ⟨fun id => ?_, fun {id x} isClass mine => ?_, fun {id x} isClass there => ?_,
    fun {x} has => ?_, ?_, fun k there => ?_, fun k used => ?_, fun k => ?_, fun page y => ?_⟩
  · rw [cls]; exact lent.count id
  · rw [cls] at mine
    exact (holds ..).mpr (lent.mine isClass mine)
  · -- what the item stood for, the index now refers to
    have before := lent.one isClass ((holds ..).mp there)
    rw [slots.count_eq, List.count_cons] at before
    rw [cls, index, List.count_cons]
    omega
  · have before : x ∈ tempSlots w ∨ x ∈ w.index := by
      rw [slots.mem_iff, List.mem_cons]
      rw [index, List.mem_cons] at has
      tauto
    obtain ⟨id, isClass, there⟩ := lent.held before
    exact ⟨id, isClass, (holds ..).mpr there⟩
  · rw [temps]; exact lent.nodup.erase n
  · rw [temps] at there
    rw [same]
    exact lent.old k (List.mem_of_mem_erase there)
  · rw [header] at used
    split at used
    · cases used
    next other =>
      rw [temps]
      exact lent.nodup.mem_erase_iff.mpr ⟨fun equal => other (by rw [equal]), lent.used k used⟩
  · rw [header]
    split
    · simp
    · exact lent.notFree k
  · rw [header, if_neg (by simp)]
    exact lent.plain page y

end

end Lent

/-! ### One step -/

/-- The free lists, the mover and the remote slots. -/
structure Books (cfg : Config) (w : World) : Prop where
  stocked : Stocked cfg w
  clearing : Clearing cfg w
  lent : Lent cfg w

section Books

variable {cfg w} {w' : World} {id : Int} {page : Nat}

theorem PickInv.quiet (pick : PickInv cfg w) (quiet : Quiet w w') (rebal : w'.rebal = w.rebal) :
    PickInv cfg w' :=
  pick.same rebal fun id class_ => ⟨(quiet.slabs id class_).ge, fun i _ => by rw [quiet.slabList],
    fun i _ => by rw [quiet.conn]⟩

theorem Picked.lists (picked : Picked cfg w) (moving : w.rebal.signal = .moving)
    (start : w.rebal.slabStart = some page) :
    ∃ idx : Nat, w.rebal.slabToRelease = idx ∧ (w.pages w.rebal.sClsid).conn idx = none ∧
      Lists w w.rebal.sClsid idx page := by
  obtain ⟨idx, toRelease, inside, isLocal⟩ := picked.inside
  refine ⟨idx, toRelease, isLocal, inside, ?_⟩
  rw [← start, picked.start moving, toRelease]

theorem AddsLocal.not_cleared {id other : Int} {page n p y : Nat} {number : UInt16}
    (adds : AddsLocal cfg w w' id page n number) (fresh : Fresh w page)
    (isClass : cfg.isClass other = true) (there : InClass w' other (.cell p y))
    (cleared : (w'.header (.cell p y)).flag = .cleared) :
    InClass w other (.cell p y) ∧ (w.header (.cell p y)).flag = .cleared := by
  rcases (adds.inClass fresh other p y).mp there with old | ⟨rfl, rfl, bound⟩
  · have elsewhere : ∀ y', Chunk.cell p y ≠ .cell page y' := by
      intro y' same
      cases same
      exact fresh.not_inClass other y old
    rw [adds.others _ elsewhere] at cleared
    exact ⟨old, cleared⟩
  · rw [adds.cells, if_pos bound, isClass] at cleared
    simp [stamp] at cleared

section

variable (books : Books cfg w)
include books

theorem Books.addsLocal (pick : PickInv cfg w) {page n : Nat}
    {number : UInt16} (fresh : Fresh w page) (adds : AddsLocal cfg w w' id page n number) :
    Books cfg w' where
  stocked := books.stocked.addsLocal fresh adds
  lent := books.lent.addsLocal fresh adds
  clearing := by
    refine books.clearing.keep (by rw [adds.rebal]; exact .refl _)
      (fun other p y isClass there cleared => adds.not_cleared fresh isClass there cleared) ?_
    intro moving source p start y cleared
    -- the new page is not the one that is emptied
    obtain ⟨idx, -, -, lists⟩ := (pick.picked (.inr moving) source).lists moving start
    rwa [adds.others]
    intro y' same
    cases same
    exact fresh.free _ _ lists

theorem Books.newslab (pick : PickInv cfg w) (layout : Layout cfg w)
    (called : w.doSlabsNewslab cfg id = some w') : Books cfg w' := by
  obtain ⟨rebal, -⟩ := w.doSlabsNewslab_grows cfg called
  rcases newslab_adds layout called with quiet | ⟨w₁, page, quiet, fresh, rfl⟩
  · exact ⟨books.stocked.quiet quiet, books.clearing.quiet (by rw [rebal]; exact .refl _) quiet,
      books.lent.quiet quiet⟩
  · rw [World.addPage_rebal] at rebal
    have before : Books cfg w₁ := ⟨books.stocked.quiet quiet,
      books.clearing.quiet (by rw [rebal]; exact .refl _) quiet, books.lent.quiet quiet⟩
    exact before.addsLocal (pick.quiet quiet rebal) fresh (addPage_adds cfg w₁ id page)

theorem Books.sameCells (lent : Lent cfg w') (same : SamePages w w')
    (rebal : w'.rebal = w.rebal) (slots : ∀ id, (w'.cls id).slots = (w.cls id).slots)
    (slCurr : ∀ id, (w'.cls id).slCurr = (w.cls id).slCurr)
    (cells : ∀ page y, w'.header (.cell page y) = w.header (.cell page y)) : Books cfg w' where
  stocked := books.stocked.keep same slots slCurr (fun page y => by rw [cells])
    (fun page y => by rw [cells]; exact books.stocked.taken page y)
  clearing := books.clearing.keepFlags rebal same fun page y => by rw [cells]
  lent := lent

theorem Books.takeChunk (layout : Layout cfg w)
    {found : Option Chunk} (isClass : cfg.isClass id = true)
    (taken : w.takeChunk id = some (found, w')) : Books cfg w' := by
  have same := takeChunk_samePages taken
  rcases w.takeChunk_cases taken with ⟨-, it, -, slot⟩ | ⟨-, it, -, slot⟩ | ⟨-, rfl⟩
  · obtain ⟨stocked, here, free⟩ := books.stocked.takeSlot layout isClass slot
    obtain ⟨-, header, -, -⟩ := takeSlot_spec slot
    have only := w.takeSlot_uncut slot
    refine ⟨stocked, books.clearing.keepFlags only.rebal same fun page y => ?_,
      books.lent.only only (fun n => ?_) fun page y => ?_⟩
    · rw [header]
      split
      next equal => rw [equal, free]; simp
      · exact Iff.rfl
    · rw [header, if_neg]
      rintro rfl
      exact here
    · rw [header]
      split
      next equal => rw [← equal]; exact books.lent.plain page y
      · exact books.lent.plain page y
  · have lent := books.lent.takeRemoteSlot layout isClass slot
    have cells := w.takeRemoteSlot_cells slot
    have lists : w'.rebal = w.rebal ∧ ∀ other, (w'.cls other).slots = (w.cls other).slots ∧
        (w'.cls other).slCurr = (w.cls other).slCurr := by
      obtain ⟨r, rest, -, -, rfl⟩ := w.takeRemoteSlot_eq slot
      refine ⟨rfl, fun other => ?_⟩
      rw [World.setClass_cls]
      split
      next here => rw [here]; exact ⟨rfl, rfl⟩
      · exact ⟨rfl, rfl⟩
    exact books.sameCells lent same lists.1 (fun other => (lists.2 other).1) (fun other => (lists.2 other).2)
      cells
  · exact books

theorem Books.link {c : Chunk} (called : w.link c = some w') :
    Books cfg w' := by
  obtain ⟨flag, ⟨⟩⟩ := Option.ite_none_right_eq_some.mp called
  have header : ∀ x, (w.setHeader c fun h => { h with flag := .linked }).header x =
      if x = c then { w.header c with flag := .linked } else w.header x :=
    fun x => w.setHeader_header c x _
  -- a chunk that was used is linked, and neither is free or cleared
  have flags : ∀ x f, f = .slabbed ∨ f = .cleared →
      (((w.setHeader c fun h => { h with flag := .linked }).header x).flag = f ↔
        (w.header x).flag = f) := by
    intro x f other
    rw [header]
    split
    next equal => rw [equal, flag]; rcases other with rfl | rfl <;> simp
    · exact Iff.rfl
  refine ⟨books.stocked.keep ⟨fun _ => rfl, rfl, rfl⟩ (fun _ => rfl) (fun _ => rfl)
    (fun page y => flags _ _ (.inl rfl)) (fun page y taken => ?_),
    books.clearing.keepFlags rfl ⟨fun _ => rfl, rfl, rfl⟩ fun page y => flags _ _ (.inr rfl),
    books.lent.keep (fun _ => rfl) (fun _ => rfl) (fun _ _ _ => Iff.rfl) rfl rfl rfl (fun n => ?_)
      (fun n used => ?_) (fun n free => books.lent.notFree n ((flags _ _ (.inl rfl)).mp free))
      fun page y => ?_⟩
  · rw [header] at taken ⊢
    split
    next equal =>
      rw [← equal] at flag ⊢
      exact books.stocked.taken page y (.inl flag)
    next different =>
      rw [if_neg different] at taken
      exact books.stocked.taken page y taken
  · rw [header]
    split
    next equal => rw [equal]
    · rfl
  · rw [header] at used
    split at used
    · cases used
    · exact used
  · rw [header]
    split
    next equal => rw [← equal]; exact books.lent.plain page y
    · exact books.lent.plain page y

theorem Books.itemFree (layout : Layout cfg w) {c : Chunk}
    (frees : FreesCells (.itemFree c)) (called : w.itemFree cfg c = some w') : Books cfg w' := by
  cases c with
  | temp n => exact frees.elim
  | cell p z =>
    obtain ⟨taken, called⟩ := Option.ite_none_right_eq_some.mp called
    obtain ⟨isClass, here⟩ := books.stocked.taken p z taken
    have only := w.doSlabsFree_uncut cfg (.cell p z) (w.header (.cell p z)).clsid
    have after : w' = w.doSlabsFree cfg (.cell p z) (w.header (.cell p z)).clsid := by
      rw [← Option.some.inj called]
      have all : (w.temps.filter fun n => Chunk.cell p z ≠ .temp n) = w.temps :=
        List.filter_eq_self.mpr fun _ _ => by simp
      rw [all, ← only.temps]
    rw [after]
    have header := fun x => doSlabsFree_header cfg w (.cell p z) x isClass
    have same := only.samePages
    refine ⟨books.stocked.doSlabsFree layout isClass here ?_,
      books.clearing.keepFlags only.rebal same fun page y => ?_,
      books.lent.only only (fun n => ?_) fun page y => ?_⟩
    · rcases taken with used | linked
      · rw [used]; simp
      · rw [linked]; simp
    · rw [header]
      split
      next equal =>
        rw [equal]
        rcases taken with used | linked
        · rw [used]; simp
        · rw [linked]; simp
      · exact Iff.rfl
    · rw [header, if_neg (by simp)]
    · rw [header]
      split
      · exact books.lent.plain p z
      · exact books.lent.plain page y

theorem Books.storeRemote {c : Chunk} (called : w.storeRemote c = some w') :
    Books cfg w' := by
  have lent := books.lent.storeRemote called
  obtain ⟨n, r, -, -, rfl⟩ := books.lent.storeRemote_eq called
  refine books.sameCells lent ⟨fun _ => rfl, rfl, rfl⟩ rfl (fun _ => rfl) (fun _ => rfl) fun page y => ?_
  exact (w.setHeader_header (.temp n) (.cell page y) fun _ => {}).trans (if_neg (by simp))

theorem Books.move (layout : Layout cfg w) (pick : PickInv cfg w)
    {found : World.Found} (called : w.slabRebalanceMove cfg found = some w') : Books cfg w' := by
  obtain ⟨stocked, clearing, plain, temps⟩ := move_spec books.stocked layout books.clearing pick called
  have same := move_samePages called
  refine ⟨stocked, clearing, ?_⟩
  obtain ⟨w₁, r, only, -, rfl⟩ := slabRebalanceMove_uncut called
  exact books.lent.same only.rslots only.slCurrR (fun _ _ _ => holds_congr (same.pages _) same.cut)
    only.temps only.index only.nextTemp (fun n => temps n (books.lent.notFree n))
    (plain books.lent.plain)

end

theorem finish_rests (called : w.slabRebalanceFinish cfg = some w') :
    w'.rebal.signal ≠ .moving := by
  obtain ⟨-, called⟩ := Option.ite_none_right_eq_some.mp called
  obtain ⟨w₁, -, rfl⟩ := Option.map_eq_some_iff.mp called
  rcases (finishReset_free (w₁.finishAccount cfg)).2 with idle | waiting
  · rw [idle]; simp
  · rw [waiting]; simp

theorem Books.remove (books : Books cfg w) (layout : Layout cfg w) (picked : Picked cfg w)
    (moving : w.rebal.signal = .moving) (source : w.rebal.source = .slab)
    (done : w.rebal.done = true)
    (quiet : Quiet (w.removePage cfg w.rebal.sClsid w.rebal.slabToRelease) w') :
    Stocked cfg w' ∧ Lent cfg w' ∧ ∀ {id page y}, cfg.isClass id = true →
      InClass w' id (.cell page y) → (w'.header (.cell page y)).flag ≠ .cleared := by
  obtain ⟨idx, toRelease, inside, isLocal⟩ := picked.inside
  obtain ⟨page, lists⟩ := layout.listed _ idx inside
  have start : w.rebal.slabStart = some page := by rw [picked.start moving, toRelease, lists.2]
  rw [toRelease] at quiet
  have cleared : ∀ y < w.cut page, (w.header (.cell page y)).flag = .cleared := by
    rw [layout.even picked.isClass lists]
    exact books.clearing.done moving source done page start
  refine ⟨(books.stocked.remove layout lists cleared).quiet quiet,
    (books.lent.remove layout lists isLocal).quiet quiet, fun {id p y} isClass there flag => ?_⟩
  rw [quiet.header, ((removePage_chunks cfg w _ _).1 _).1] at flag
  rw [quiet.inClass (ne_zero_of_isClass isClass), inClass_cell, holds_remove layout lists] at there
  obtain ⟨-, -, here⟩ := books.clearing.only isClass there.1 flag
  rw [start] at here
  exact there.2 (Option.some.inj here).symm

variable (books : Books cfg w) (layout : Layout cfg w) (pick : PickInv cfg w)
include books layout pick

theorem Books.finish (called : w.slabRebalanceFinish cfg = some w') : Books cfg w' := by
  have rests := finish_rests called
  have none_ : w.rebal.source ≠ .slab → ∀ {id page y}, cfg.isClass id = true →
      InClass w id (.cell page y) → (w.header (.cell page y)).flag ≠ .cleared :=
    fun receives _ _ _ => books.clearing.none_cleared fun both => receives both.2
  suffices books' : Stocked cfg w' ∧ Lent cfg w' ∧ ∀ {id page y}, cfg.isClass id = true →
      InClass w' id (.cell page y) → (w'.header (.cell page y)).flag ≠ .cleared from
    ⟨books'.1, clearing_of_none books'.2.2 fun moving => absurd moving rests, books'.2.1⟩
  obtain ⟨done, ⟨source, picked, moving, quiet⟩ | ⟨receives, quiet⟩ |
    ⟨source, w₁, w₂, quiet, fresh, adds, after⟩ | ⟨source, w₁, w₂, conn, quiet, fresh, adds, after⟩⟩ :=
    finish_cases layout pick called
  · exact books.remove layout picked moving source done quiet
  · refine ⟨books.stocked.quiet quiet, books.lent.quiet quiet, fun isClass there => ?_⟩
    rw [quiet.header]
    exact none_ receives isClass ((quiet.inClass (ne_zero_of_isClass isClass) _).mp there)
  · refine ⟨((books.stocked.quiet quiet).addsLocal fresh adds).quiet after,
      ((books.lent.quiet quiet).addsLocal fresh adds).quiet after, fun isClass there cleared => ?_⟩
    rw [after.header] at cleared
    rw [after.inClass (ne_zero_of_isClass isClass)] at there
    obtain ⟨there, cleared⟩ := adds.not_cleared fresh isClass there cleared
    rw [quiet.header] at cleared
    exact none_ (by rw [source]; simp) isClass
      ((quiet.inClass (ne_zero_of_isClass isClass) _).mp there) cleared
  · refine ⟨((books.stocked.quiet quiet).addsRemote fresh adds).quiet after,
      ((books.lent.quiet quiet).addsRemote fresh adds).quiet after, fun isClass there => ?_⟩
    rw [after.inClass (ne_zero_of_isClass isClass), adds.inClass fresh,
      quiet.inClass (ne_zero_of_isClass isClass)] at there
    rw [after.header, adds.header, quiet.header]
    exact none_ (by rw [source]; simp) isClass there

/-- The free lists, the mover and the remote slots stay consistent. -/
theorem books_step (pick' : PickInv cfg w') {action : Action} (asks : AsksForItsPages cfg w action)
    (frees : FreesCells action) (called : step cfg w action = some w') : Books cfg w' := by
  by_cases quiet : action.touchesChunks = false
  · have untouched := quiet_step quiet called
    exact ⟨books.stocked.quiet untouched, books.clearing.quietStep pick' asks quiet called,
      books.lent.quiet untouched⟩
  cases action <;> simp only [Action.touchesChunks, not_true_eq_false] at quiet
  case preallocate id =>
    obtain ⟨-, called⟩ := Option.ite_none_right_eq_some.mp called
    exact books.newslab pick layout called
  case alloc id noNewPage =>
    obtain ⟨⟨found, after⟩, alloc, rfl⟩ := Option.map_eq_some_iff.mp called
    simp only [World.doSlabsAlloc] at alloc
    split at alloc
    next isClass =>
      split at alloc
      · obtain ⟨w₁, newslab, taken⟩ := Option.bind_eq_some_iff.mp alloc
        exact (books.newslab pick layout newslab).takeChunk (layout.newslab newslab) isClass taken
      · exact books.takeChunk layout isClass alloc
    · cases alloc
      exact books
  case link c => exact books.link called
  case itemFree c => exact books.itemFree layout frees called
  case storeRemote c => exact books.storeRemote called
  case releaseFreeRemote =>
    obtain ⟨guard, called⟩ := Option.ite_none_right_eq_some.mp called
    obtain ⟨w₁, newslab, rfl⟩ := Option.map_eq_some_iff.mp called
    have books₁ := books.newslab pick layout newslab
    have idle : w₁.rebal.signal = .idle := by
      rw [(w.doSlabsNewslab_grows cfg newslab).1]; exact guard.1
    have resting : w₁.rebal.signal ≠ .moving := by rw [idle]; simp
    have asked := ((Quiet.refl w₁).setRebal
      fun r => { r with destination := .remoteTenant, slabToRelease := 0 }).trans (.reassign cfg _ 1 (-2))
    refine ⟨books₁.stocked.quiet asked, books₁.clearing.restart asked resting fun moving => ?_,
      books₁.lent.quiet asked⟩
    exact absurd moving (reassign_rests 1 (-2) resting)
  case move found => exact books.move layout pick called
  case finish => exact books.finish layout pick called

end Books

/-! ### Counting -/

section Counting

variable {cfg w} {α : Type} {ok : Option Nat → Bool} {mk : Nat → Nat → α}

theorem mem_cellsOf {id : Int} (x : α) : x ∈ w.cellsOf ok mk (w.pages id).entries ↔
    ∃ page y, Holds w id (ok · = true) page y ∧ x = mk page y := by
  simp only [World.cellsOf, PageTable.entries, PageTable.entry, List.mem_flatMap, List.mem_map,
    List.mem_range]
  constructor
  · rintro ⟨_, ⟨i, inUse, rfl⟩, member⟩
    simp only at member
    split at member
    next page has =>
      split at member
      next isOk =>
        obtain ⟨y, bound, rfl⟩ := List.mem_map.mp member
        exact ⟨page, y, ⟨i, ⟨inUse, has⟩, isOk, List.mem_range.mp bound⟩, rfl⟩
      · cases member
    · cases member
  · rintro ⟨page, y, ⟨i, ⟨inUse, has⟩, isOk, bound⟩, rfl⟩
    refine ⟨_, ⟨i, inUse, rfl⟩, ?_⟩
    simp only [has, isOk, if_true]
    exact List.mem_map_of_mem (List.mem_range.mpr bound)

theorem mem_localCells {id : Int} (c : Chunk) : c ∈ localCells w id ↔ InClass w id c := by
  rw [localCells, mem_cellsOf]
  simp only [Option.isNone_iff_eq_none]
  cases c with
  | temp n => exact ⟨fun ⟨_, _, _, same⟩ => (by cases same), False.elim⟩
  | cell page y =>
    rw [inClass_cell]
    refine ⟨?_, fun there => ⟨page, y, there, rfl⟩⟩
    rintro ⟨p, z, there, same⟩
    cases same
    exact there

theorem mem_remoteSlots {id : Int} (r : RSlot) :
    r ∈ remoteSlots w id ↔ Holds w id (· ≠ none) r.page r.index := by
  rw [remoteSlots, mem_cellsOf]
  simp only [Option.isSome_iff_ne_none]
  refine ⟨?_, fun there => ⟨r.page, r.index, there, rfl⟩⟩
  rintro ⟨p, z, there, rfl⟩
  exact there

theorem Layout.nodup_cellsOf (layout : Layout cfg w) (id : Int)
    (inj : ∀ {p y p' y'}, mk p y = mk p' y' → p = p' ∧ y = y') :
    (w.cellsOf ok mk (w.pages id).entries).Nodup := by
  rw [World.cellsOf, List.nodup_flatMap]
  constructor
  · intro e _
    split
    · split
      · exact List.nodup_range.map fun _ _ same => (inj same).2
      · exact List.nodup_nil
    · exact List.nodup_nil
  · rw [PageTable.entries, List.pairwise_map]
    refine List.nodup_range.pairwise_of_forall_ne fun i _ j _ different => ?_
    have page : ∀ {k : Nat} {x : α}, k ∈ List.range (w.pages id).slabs →
        (x ∈ match ((w.pages id).entry k).page with
          | some page => if ok ((w.pages id).entry k).conn = true then
              (List.range (w.cut page)).map (mk page) else []
          | none => []) → ∃ p y, Lists w id k p ∧ x = mk p y := by
      intro k x inUse member
      split at member
      next page has =>
        split at member
        · obtain ⟨y, -, rfl⟩ := List.mem_map.mp member
          exact ⟨page, y, ⟨List.mem_range.mp inUse, has⟩, rfl⟩
        · cases member
      · cases member
    intro x one two
    obtain ⟨p, y, lists, rfl⟩ := page ‹i ∈ _› one
    obtain ⟨p', y', lists', same⟩ := page ‹j ∈ _› two
    obtain ⟨rfl, -⟩ := inj same
    exact different (layout.apart lists lists').2

theorem length_cellsOf (w : World) (n : Nat) (l : List Entry)
    (even : ∀ e ∈ l, ∃ page, e.page = some page ∧ w.cut page = n) :
    (w.cellsOf Option.isNone Chunk.cell l).length + (w.cellsOf Option.isSome RSlot.mk l).length =
      l.length * n := by
  induction l with
  | nil => rw [List.length_nil, Nat.zero_mul]; rfl
  | cons e l ih =>
    obtain ⟨page, has, cut⟩ := even e (List.mem_cons_self ..)
    have rest := ih fun e' member => even e' (List.mem_cons_of_mem _ member)
    simp only [World.cellsOf] at rest ⊢
    rw [List.flatMap_cons, List.flatMap_cons, List.length_append, List.length_append,
      List.length_cons, Nat.succ_mul, ← rest, has]
    -- the page is either local or remote
    cases e.conn with
    | none => simp [cut]; omega
    | some _ => simp [cut]; omega

theorem Layout.length_chunks (layout : Layout cfg w) {id : Int} (isClass : cfg.isClass id = true) :
    (localCells w id).length + (remoteSlots w id).length = (w.pages id).slabs * cfg.perslab id := by
  rw [localCells, remoteSlots, length_cellsOf w (cfg.perslab id), PageTable.entries, List.length_map,
    List.length_range]
  intro e member
  obtain ⟨i, inUse, rfl⟩ := List.mem_map.mp member
  obtain ⟨page, lists⟩ := layout.listed id i (List.mem_range.mp inUse)
  exact ⟨page, lists.2, layout.even isClass lists⟩

theorem length_eq_countP [DecidableEq α] {l m : List α} (nodup : l.Nodup) (nodup' : m.Nodup)
    {p : α → Bool} (mem : ∀ x, x ∈ l ↔ x ∈ m ∧ p x = true) : l.length = m.countP p := by
  rw [List.countP_eq_length_filter]
  refine ((List.perm_ext_iff_of_nodup nodup (nodup'.filter p)).mpr fun x => ?_).length_eq
  rw [mem, List.mem_filter]

theorem countP_flags (w : World) (l : List Chunk) :
    l.length = l.countP (fun c => (w.header c).flag = .slabbed) +
      l.countP (fun c => (w.header c).flag = .used ∨ (w.header c).flag = .linked) +
      l.countP (fun c => (w.header c).flag = .cleared) := by
  induction l with
  | nil => rfl
  | cons c l ih =>
    rw [List.countP_cons, List.countP_cons, List.countP_cons, List.length_cons, ih]
    cases (w.header c).flag <;>
      simp only [reduceCtorEq, decide_false, decide_true, or_self, or_true, true_or, if_true,
        Bool.false_eq_true, if_false] <;> omega

theorem Stocked.count_local (stocked : Stocked cfg w) (layout : Layout cfg w) {id : Int}
    (isClass : cfg.isClass id = true) :
    (w.cls id).slots.Rep ((w.cls id).slots.toList (w.cls id).slCurr) ∧
    ((w.cls id).slots.toList (w.cls id).slCurr).length = (w.cls id).slCurr ∧
    (∀ c ∈ (w.cls id).slots.toList (w.cls id).slCurr, c ∈ localCells w id) ∧
    (w.cls id).slCurr = (localCells w id).countP fun c => (w.header c).flag = .slabbed := by
  obtain ⟨l, list⟩ := stocked.free id isClass
  have same : (w.cls id).slots.toList (w.cls id).slCurr = l := by
    rw [← list.length]; exact list.rep.toList
  rw [same]
  refine ⟨list.rep, list.length, fun c member => ?_, ?_⟩
  · exact (mem_localCells c).mpr ((list.mem c).mp member).1
  · rw [← list.length]
    refine length_eq_countP list.rep.nodup (layout.nodup_cellsOf id Chunk.cell.inj) fun c => ?_
    rw [list.mem, ← mem_localCells, localCells, decide_eq_true_eq]

theorem Lent.count_remote (lent : Lent cfg w) (layout : Layout cfg w) {id : Int}
    (isClass : cfg.isClass id = true) : (remoteSlots w id).length = (w.cls id).slCurrR +
      (remoteSlots w id).countP fun r => r ∈ tempSlots w ∨ r ∈ w.index := by
  have once : ∀ r ∈ remoteSlots w id, (w.cls id).rslots.count r + (tempSlots w).count r +
      w.index.count r = 1 := fun r member => lent.one isClass ((mem_remoteSlots r).mp member)
  have free : (w.cls id).rslots.length = (remoteSlots w id).countP fun r => r ∈ (w.cls id).rslots := by
    refine length_eq_countP (List.nodup_iff_count_le_one.mpr fun r => ?_)
      (layout.nodup_cellsOf id RSlot.mk.inj) fun r => ?_
    · by_cases member : r ∈ (w.cls id).rslots
      · have := lent.one isClass (lent.mine isClass member)
        omega
      · rw [List.count_eq_zero_of_not_mem member]; omega
    · rw [decide_eq_true_eq]
      exact ⟨fun member => ⟨(mem_remoteSlots r).mpr (lent.mine isClass member), member⟩, fun both => both.2⟩
  rw [lent.count, free, List.length_eq_countP_add_countP (fun r => decide (r ∈ (w.cls id).rslots))]
  congr 1
  -- what is not free is referred to from outside
  refine List.countP_congr fun r member => ?_
  have exactlyOne := once r member
  simp only [decide_eq_true_eq, ← List.count_pos_iff]
  omega

theorem Books.conserved (books : Books cfg w) (layout : Layout cfg w) (pick : PickInv cfg w) :
    ChunksConserved cfg w := by
  intro id bounds
  have isClass : cfg.isClass id = true := by
    rw [Finset.mem_Icc] at bounds
    simpa only [Config.isClass, decide_eq_true_eq] using bounds
  obtain ⟨rep, length, inside, slCurr⟩ := books.stocked.count_local layout isClass
  refine ⟨⟨rep, length⟩, books.lent.count id, inside, fun r member => ?_, ?_, fun c member cleared => ?_⟩
  · exact books.lent.one isClass ((mem_remoteSlots r).mp member)
  · have all := layout.length_chunks isClass
    have flags := countP_flags w (localCells w id)
    have remote := books.lent.count_remote layout isClass
    rw [inUse, MemExchange.Slabs.cleared, ← all, flags, remote, ← slCurr]
    omega
  · cases c with
    | temp n => exact ((mem_localCells _).mp member).elim
    | cell page y =>
      have there := (mem_localCells _).mp member
      obtain ⟨moving, source, start⟩ := books.clearing.only isClass there cleared
      refine ⟨moving, ?_⟩
      -- the page belongs to the class that is emptied
      obtain ⟨idx, -, -, lists⟩ := (pick.picked (.inr moving) source).lists moving start
      obtain ⟨i, lists', -, bound⟩ := there
      obtain ⟨rfl, rfl⟩ := layout.apart lists' lists
      rw [layout.even isClass lists] at bound
      simp only [World.inRange, start, bound, and_self, decide_true]

end Counting

/-! ### Runs -/

structure ChunksInv (cfg : Config) (w : World) : Prop where
  pick : PickInv cfg w
  layout : Layout cfg w
  books : Books cfg w

theorem chunksInv_step (w' : World) (inv : ChunksInv cfg w) (safe : ChunksSafe cfg w action)
    (called : step cfg w action = some w') : ChunksInv cfg w' := by
  have pick := pickInv_step cfg w action w' inv.pick safe.1 called
  exact ⟨pick, layout_step inv.layout inv.pick safe.2.1 called,
    books_step inv.books inv.layout inv.pick pick safe.1 safe.2.2 called⟩

theorem chunksInv_initial (limit : Nat) (t : Tracker) (junk : Int → PageTable) :
    ChunksInv cfg (.initial cfg limit t junk) := by
  have empty : ∀ id ok page y, ¬ Holds (.initial cfg limit t junk) id ok page y :=
    fun id ok page y there => by
      obtain ⟨i, lists, -⟩ := there
      exact absurd lists.1 (Nat.not_lt_zero i)
  refine ⟨pickInv_initial cfg limit t junk, layout_initial cfg limit t junk, ⟨?_, ?_, ?_⟩⟩
  · refine ⟨fun id _ => ⟨[], Dll.rep_empty, rfl, fun c => ?_⟩, fun page y taken => ?_⟩
    · cases c with
      | temp n => exact ⟨fun member => (by cases member), fun both => both.1.elim⟩
      | cell page y =>
        exact ⟨fun member => (by cases member), fun both => (empty _ _ _ _ (inClass_cell.mp both.1)).elim⟩
    · rcases taken with used | linked
      · cases used
      · cases linked
  · exact clearing_of_none (fun _ there => (empty _ _ _ _ (inClass_cell.mp there)).elim) fun moving => by
      cases moving
  · exact ⟨fun _ => rfl, fun _ mine => (by cases mine), fun _ there => (empty _ _ _ _ there).elim,
      fun has => (by rcases has with has | has <;> cases has), List.nodup_nil,
      fun n member => (by cases member), fun n used => (by cases used), fun n free => (by cases free),
      fun _ _ => rfl⟩

/-- In every run in which only pages that were picked are removed, received pages are split
evenly and temporary items are stored, no chunk is lost or doubled. -/
theorem chunks_conserved_of_safe (cfg : Config) (limit : Nat) (t : Tracker) (junk : Int → PageTable)
    (run : List Action)
    (safe : Run.Along (step cfg) (ChunksSafe cfg) (.initial cfg limit t junk) run) :
    Run.Always (step cfg) (ChunksConserved cfg) (.initial cfg limit t junk) run := by
  have always := Run.always_of_invariant (chunksInv_step cfg)
    (chunksInv_initial cfg limit t junk) safe
  exact Run.always_mono (fun _ inv => inv.books.conserved inv.layout inv.pick) always

/-! ### A region that is lent -/

/-- After two releases class 2 gets a region, stores one item there and fills another; a
local item comes and goes. -/
def borrowAndStore : List Action :=
  twoReleases ++ [.reassign 1000 2] ++ receiveRegion 7 ⟨5000, 99⟩ ++
    [.endWaiting, .alloc 2 false, .storeRemote (.temp 0), .alloc 2 false, .link (.cell 0 0),
      .itemFree (.cell 0 0)]

/-- An upload into a remote slot is given up. -/
def abortUpload : List Action :=
  [.reassign 1000 2] ++ receiveRegion 7 ⟨5000, 99⟩ ++ [.alloc 2 false, .itemFree (.temp 0)]

theorem chunks_conserved_when_stored :
    Run.Along (step (halves true)) (ChunksSafe (halves true)) (blank (halves true) 96000000)
      borrowAndStore ∧
    Run.Always (step (halves true)) (ChunksConserved (halves true)) (blank (halves true) 96000000)
      borrowAndStore ∧
    (Run.exec (step (halves true)) (blank (halves true) 96000000) borrowAndStore).map
      (fun w => ((w.cls 2).slCurr, w.index, tempSlots w, inUse w 2)) =
        some (1, [⟨22, 1⟩], [⟨22, 0⟩], 21) :=
  ⟨by decide +kernel, chunks_conserved_of_safe _ _ _ _ _ (by decide +kernel), by decide +kernel⟩

/-- The temporary item is on the local free list afterwards, and nothing refers to the slot it
stood for. -/
theorem aborted_upload_loses_slot :
    ¬ Run.Always (step (halves true)) (ChunksConserved (halves true))
      (littered (halves true) 4000000) abortUpload ∧
    (Run.exec (step (halves true)) (littered (halves true) 4000000) abortUpload).map
      (fun w => ((w.cls 2).slots.head, (w.cls 2).rslots, tempSlots w, w.index)) =
        some (some (.temp 0), [⟨0, 0⟩], [], []) := by
  decide +kernel

end MemExchange.Slabs
