import MemExchange.Slabs.Attach

/-!
# Page numbers

`page_id` is to be the index of a page in the page list of its class. But `do_slabs_newslab` splits a
page before it counts it, so every new page gets the number of the page before it and the first one
65535; the order is left to the compiler when a remote region is attached; an item that the mover
copies brings its old number along; and a received page that is split into more chunks than the class
counts on is renumbered in part only.
-/
namespace MemExchange.Slabs

variable (cfg : Config) (w : World) (action : Action)

/-- The chunks of an entry have the number `k`, and those of a remote page belong to the
connection and the key of the entry. -/
def NumberedAs (id : Int) (k : Nat) (e : Entry) : Prop :=
  ∀ page ∈ e.page,
    (e.conn = none → ∀ y < w.cut page, (w.header (.cell page y)).pageId.toNat = k) ∧
    ∀ conn ∈ e.conn, ∀ y < w.cut page, (w.remote ⟨page, y⟩).pageId.toNat = k ∧
      ∃ origin ∈ (w.remote ⟨page, y⟩).origin, origin.1 = conn ∧ origin.2.rkey = e.rkey ∧
        origin.2.addr ≤ (w.remote ⟨page, y⟩).address ∧
        (w.remote ⟨page, y⟩).address + cfg.size id ≤ origin.2.addr + w.cut page * cfg.size id

instance (id : Int) (k : Nat) (e : Entry) : Decidable (NumberedAs cfg w id k e) := by
  unfold NumberedAs; infer_instance

/-- Every chunk and every remote item names the entry its page is listed at. -/
def PageIdsRight : Prop :=
  ∀ id ∈ Finset.Icc 1 cfg.powerLargest, ∀ i < (w.pages id).slabs,
    NumberedAs cfg w id i ((w.pages id).entry i)

noncomputable instance : DecidablePred (PageIdsRight cfg) := fun w => by
  unfold PageIdsRight; infer_instance

/-- `do_slabs_newslab` is refused a page: the limit has been reached, or the memory taken at
the start is used up. -/
def RefusesPage (id : Int) : Prop :=
  w.account.memLimitReached = true ∨ (w.refreshed cfg).limitHit cfg id = true ∨
    (cfg.prealloc = true ∧ (w.pages 0).slabs = 0 ∧ cfg.len id > (w.refreshed cfg).account.memAvail)

instance (id : Int) : Decidable (RefusesPage cfg w id) := by
  unfold RefusesPage; infer_instance

/-- No new page is taken, the mover keeps no item for which there is a free chunk, and
attached pages are counted before they are split and have an index of 16 bits. -/
def KeepsNumbers : Action → Prop
  | .preallocate id => RefusesPage cfg w id
  | .alloc id noNewPage => cfg.isClass id = true → (w.cls id).slCurr = 0 → noNewPage = false →
      RefusesPage cfg w id
  | .releaseFreeRemote => RefusesPage cfg w 1
  | .move found => found = .alive → (w.cls w.rebal.sClsid).slCurr = 0
  | .finish => w.rebal.done = true → w.rebal.source ≠ .slab →
      (w.pages w.rebal.dClsid).slabs < 65536 ∧
        (w.rebal.source = .remoteTenant → cfg.countsFirst = true)
  | _ => True

instance : DecidableRel (KeepsNumbers cfg) := fun _ action => by
  rcases action with _ | _ <;> delta KeepsNumbers <;> infer_instance

def NumbersSafe : Prop :=
  AsksForItsPages cfg w action ∧ SplitsEvenly cfg w action ∧ KeepsNumbers cfg w action

instance : DecidableRel (NumbersSafe cfg) := fun _ _ => by
  unfold NumbersSafe; infer_instance

/-- The numbers are right in all classes, and only temporary items stand for a remote slot. -/
structure Numbered (cfg : Config) (w : World) : Prop where
  right : ∀ {id}, cfg.isClass id = true → ∀ i < (w.pages id).slabs,
    NumberedAs cfg w id i ((w.pages id).entry i)
  plain : ∀ page y, (w.header (.cell page y)).rIt = none

section Numbered

variable {cfg w} {w' : World}

theorem Numbered.pageIdsRight (numbered : Numbered cfg w) : PageIdsRight cfg w := by
  intro id isClass i inUse
  refine numbered.right ?_ i inUse
  simp only [Config.isClass, decide_eq_true_eq]
  exact Finset.mem_Icc.mp isClass

variable {k page n : Nat} {it : Chunk} {s : Int} {number : UInt16}

theorem NumberedAs.congr {id : Int} {e e' : Entry} (right : NumberedAs cfg w id k e)
    (page : e'.page = e.page) (rkey : e'.rkey = e.rkey) (conn : e'.conn = e.conn)
    (cut : ∀ p ∈ e.page, w'.cut p = w.cut p)
    (ids : ∀ p ∈ e.page, ∀ y, (w'.header (.cell p y)).pageId = (w.header (.cell p y)).pageId)
    (remote : ∀ p ∈ e.page, ∀ y, w'.remote ⟨p, y⟩ = w.remote ⟨p, y⟩) :
    NumberedAs cfg w' id k e' := by
  intro p has
  rw [page] at has
  obtain ⟨own, foreign⟩ := right p has
  refine ⟨fun isLocal y inside => ?_, fun c isRemote y inside => ?_⟩
  · rw [ids p has y]
    exact own (conn ▸ isLocal) y (cut p has ▸ inside)
  · rw [remote p has y, cut p has, rkey]
    exact foreign c (conn ▸ isRemote) y (cut p has ▸ inside)

/-! ### Steps that write no number -/

theorem Numbered.quiet (numbered : Numbered cfg w) (quiet : Quiet w w') : Numbered cfg w' where
  right {id} isClass i inUse := by
    refine (numbered.right isClass i (lt_of_lt_of_le inUse (quiet.slabs_le id))).congr ?_ ?_ ?_ ?_ ?_ ?_
    · exact congrFun (quiet.slabList id) i
    · exact congrFun (quiet.rkey id) i
    · exact congrFun (quiet.conn id) i
    · intro p _; rw [quiet.cut]
    · intro p _ y; rw [quiet.header]
    · intro p _ y; rw [quiet.remote]
  plain page y := by rw [quiet.header]; exact numbered.plain page y

/-- Chunks change hands, with their numbers. -/
structure SameIds (w w' : World) : Prop extends SamePages w w' where
  ids : ∀ page y, (w'.header (.cell page y)).pageId = (w.header (.cell page y)).pageId
  plain : ∀ page y, (w'.header (.cell page y)).rIt = (w.header (.cell page y)).rIt
  remote : w'.remote = w.remote

theorem SameIds.refl (w : World) : SameIds w w :=
  ⟨⟨fun _ => rfl, rfl, rfl⟩, fun _ _ => rfl, fun _ _ => rfl, rfl⟩

theorem SameIds.trans {w'' : World} (first : SameIds w w') (second : SameIds w' w'') :
    SameIds w w'' where
  pages id := (second.pages id).trans (first.pages id)
  cut := second.cut.trans first.cut
  nextPage := second.nextPage.trans first.nextPage
  ids page y := (second.ids page y).trans (first.ids page y)
  plain page y := (second.plain page y).trans (first.plain page y)
  remote := second.remote.trans first.remote

theorem Numbered.sameIds (numbered : Numbered cfg w) (same : SameIds w w') : Numbered cfg w' where
  right {id} isClass i inUse := by
    rw [same.pages id] at inUse ⊢
    exact (numbered.right isClass i inUse).congr rfl rfl rfl (fun p _ => by rw [same.cut])
      (fun p _ y => same.ids p y) (fun p _ y => by rw [same.remote])
  plain page y := (same.plain page y).trans (numbered.plain page y)

theorem setHeader_sameIds (w : World) (c : Chunk) {f : Header → Header}
    (pageId : ∀ h, (f h).pageId = h.pageId) (rIt : ∀ h, (f h).rIt = h.rIt) :
    SameIds w (w.setHeader c f) where
  pages _ := rfl
  cut := rfl
  nextPage := rfl
  ids page y := by
    rw [World.setHeader_header]
    split
    next here => rw [pageId, here]
    next => rfl
  plain page y := by
    rw [World.setHeader_header]
    split
    next here => rw [rIt, here]
    next => rfl
  remote := rfl

theorem setSlots_sameIds (w : World) (id : Int) (slots : SlabClass → Dll Chunk)
    (count : SlabClass → Nat) :
    SameIds w (w.setClass id fun p => { p with slots := slots p, slCurr := count p }) where
  pages := (w.setSlots_uncut id slots count).pages
  cut := rfl
  nextPage := rfl
  ids _ _ := rfl
  plain _ _ := rfl
  remote := rfl

theorem doSlabsFree_sameIds (cfg : Config) (w : World) (c : Chunk) (id : Int) :
    SameIds w (w.doSlabsFree cfg c id) := by
  unfold World.doSlabsFree
  split
  · refine (setHeader_sameIds w c ?_ ?_).trans (setSlots_sameIds _ id _ _) <;> exact fun _ => rfl
  · exact .refl w

theorem takeSlot_sameIds {id : Int} (taken : w.takeSlot id = some (it, w')) : SameIds w w' := by
  obtain ⟨head, -, same⟩ := Option.map_eq_some_iff.mp taken
  cases same
  refine (setHeader_sameIds w it ?_ ?_).trans (setSlots_sameIds _ id _ _) <;> exact fun _ => rfl

theorem takeChunk_sameIds {id : Int} {found : Option Chunk}
    (taken : w.takeChunk id = some (found, w')) : SameIds w w' := by
  rcases w.takeChunk_cases taken with ⟨-, it, -, slot⟩ | ⟨-, it, -, slot⟩ | ⟨-, rfl⟩
  · exact takeSlot_sameIds slot
  · have cells := w.takeRemoteSlot_cells slot
    refine ⟨takeChunk_samePages taken, fun page y => by rw [cells], fun page y => by rw [cells], ?_⟩
    obtain ⟨r, rest, -, -, rfl⟩ := w.takeRemoteSlot_eq slot
    rfl
  · exact .refl _

/-! ### Removing a page -/

theorem lower_toNat {n : UInt16} (above : n.toNat = k + 1) :
    (if n > 0 then n - 1 else n).toNat = k := by
  have positive : n > 0 := by
    change (0 : UInt16).toNat < n.toNat
    rw [above]
    exact Nat.succ_pos k
  have one : (1 : UInt16) ≤ n := by
    change (1 : UInt16).toNat ≤ n.toNat
    rw [above]
    exact Nat.succ_le_succ (Nat.zero_le k)
  rw [if_pos positive, UInt16.toNat_sub_of_le _ _ one, above]
  rfl

theorem renumber_elsewhere (cfg : Config) {id x : Int} (other : (w.pages id).slabList x ≠ some page)
    (y : Nat) : (w.renumber cfg id x).header (.cell page y) = w.header (.cell page y) ∧
      (w.renumber cfg id x).remote ⟨page, y⟩ = w.remote ⟨page, y⟩ := by
  simp only [World.renumber]
  split
  · exact ⟨if_neg fun both => other both.1, rfl⟩
  · exact ⟨rfl, if_neg fun both => other both.1⟩

theorem renumber_rIt (id x : Int) (page y : Nat) :
    ((w.renumber cfg id x).header (.cell page y)).rIt = (w.header (.cell page y)).rIt := by
  simp only [World.renumber]
  split
  · simp only
    split <;> rfl
  · rfl

theorem renumber_right {id x : Int}
    (even : ∀ page ∈ (w.pages id).slabList x, w.cut page ≤ cfg.perslab id)
    (right : NumberedAs cfg w id (k + 1) ((w.pages id).entry x)) :
    NumberedAs cfg (w.renumber cfg id x) id k ((w.pages id).entry x) := by
  intro page has
  have chunks := even page has
  obtain ⟨own, foreign⟩ := right page has
  have listed : (w.pages id).slabList x = some page := has
  have cut : (w.renumber cfg id x).cut = w.cut := by
    simp only [World.renumber]
    split <;> rfl
  refine ⟨fun isLocal y inside => ?_, fun conn isRemote y inside => ?_⟩
  · have isLocal' : (w.pages id).conn x = none := isLocal
    rw [cut] at inside
    simp only [World.renumber, isLocal', if_true, listed, true_and,
      if_pos (lt_of_lt_of_le inside chunks)]
    exact lower_toNat (own isLocal y inside)
  · have isRemote' : (w.pages id).conn x = some conn := isRemote
    rw [cut] at inside ⊢
    have some_ : ¬ (w.pages id).conn x = none := by rw [isRemote']; simp
    simp only [World.renumber, some_, if_false, listed, true_and,
      if_pos (lt_of_lt_of_le inside chunks)]
    obtain ⟨number, origin⟩ := foreign conn isRemote y inside
    exact ⟨lower_toNat number, origin⟩

/-- The state of the loop that closes the gap in the page list: entry `x` is free to be
overwritten, and all others up to `last` have the number of their place. -/
structure Gap (cfg : Config) (w : World) (s : Int) (x last : Nat) : Prop where
  right : ∀ i ≤ last, i ≠ x → NumberedAs cfg w s i ((w.pages s).entry i)
  apart : ∀ i j page, i ≤ last → j ≤ last → i ≠ x → j ≠ x →
    (w.pages s).slabList i = some page → (w.pages s).slabList j = some page → i = j
  even : ∀ i ≤ last, i ≠ x → ∀ page ∈ (w.pages s).slabList i, w.cut page ≤ cfg.perslab s

theorem Gap.round {x last : Nat} (gap : Gap cfg w s x last) (inside : x < last) :
    Gap cfg ((w.setPages s (·.copyDown x)).renumber cfg s x) s (x + 1) last := by
  set copied := w.setPages s (·.copyDown x) with copied_eq
  -- where the entry that is at place `i` after the round was before it
  let was : Nat → Nat := fun i => if i = x then x + 1 else i
  have entry : ∀ i : Nat, (copied.pages s).entry i = (w.pages s).entry (was i) := by
    intro i
    rw [World.setPages_pages, if_pos rfl, PageTable.copyDown_entry]
    by_cases here : i = x
    · simp only [was, here, if_true, Nat.cast_add, Nat.cast_one]
    · simp only [was, here, if_false, Nat.cast_inj]
  have slabList : ∀ i : Nat, (copied.pages s).slabList i = (w.pages s).slabList (was i) :=
    fun i => congrArg Entry.page (entry i)
  have bounds : ∀ i ≤ last, i ≠ x + 1 → was i ≤ last ∧ was i ≠ x := by
    intro i short gapped
    simp only [was]
    split <;> omega
  have after : (copied.renumber cfg s x).pages s = copied.pages s := World.renumber_pages ..
  have cut : (copied.renumber cfg s x).cut = w.cut := by
    simp only [World.renumber]
    split <;> rfl
  refine ⟨fun i short gapped => ?_, fun i j page short short' gapped gapped' one two => ?_,
    fun i short gapped page has => ?_⟩
  · obtain ⟨low, other⟩ := bounds i short gapped
    have before := gap.right (was i) low other
    rw [after]
    by_cases here : i = x
    · -- the entry that came down is renumbered
      have above : was i = i + 1 := by simp only [was, here, if_true]
      rw [above] at before
      subst here
      refine renumber_right (fun page has => ?_) ?_
      · exact gap.even _ low other page (slabList i ▸ has)
      · rw [entry, above]
        exact before.congr rfl rfl rfl (fun _ _ => rfl) (fun _ _ _ => rfl) (fun _ _ _ => rfl)
    · -- the others are left alone, since their page is another one
      have same : was i = i := if_neg here
      rw [entry, same]
      rw [same] at before
      have elsewhere : ∀ p ∈ ((w.pages s).entry i).page, (copied.pages s).slabList x ≠ some p := by
        intro p has down
        rw [slabList] at down
        have := gap.apart i (was x) p short (bounds x (by omega) (by omega)).1 here
          (bounds x (by omega) (by omega)).2 has down
        simp only [was, if_true] at this
        omega
      exact before.congr rfl rfl rfl (fun p _ => by rw [cut])
        (fun p has y => congrArg Header.pageId (renumber_elsewhere cfg (elsewhere p has) y).1)
        (fun p has y => (renumber_elsewhere cfg (elsewhere p has) y).2)
  · rw [after, slabList] at one two
    obtain ⟨low, other⟩ := bounds i short gapped
    obtain ⟨low', other'⟩ := bounds j short' gapped'
    have same := gap.apart _ _ page low low' other other' one two
    simp only [was] at same
    split at same <;> split at same <;> omega
  · rw [after, slabList] at has
    obtain ⟨low, other⟩ := bounds i short gapped
    rw [cut]
    exact gap.even _ low other page has

theorem Gap.shift {x last : Nat} (gap : Gap cfg w s x last) (rounds : x + n = last) :
    Gap cfg (w.shiftPages cfg s x n) s last last := by
  induction n generalizing w x with
  | zero => rw [← rounds] at gap ⊢; exact gap
  | succ n ih =>
    have next := gap.round (by omega)
    have := ih next (by omega)
    rw [World.shiftPages]
    exact_mod_cast this

theorem shiftPages_elsewhere {x : Nat}
    (other : ∀ j, x < j → j ≤ x + n → (w.pages s).slabList j ≠ some page) (y : Nat) :
    (w.shiftPages cfg s x n).header (.cell page y) = w.header (.cell page y) ∧
      (w.shiftPages cfg s x n).remote ⟨page, y⟩ = w.remote ⟨page, y⟩ := by
  induction n generalizing w x with
  | zero => exact ⟨rfl, rfl⟩
  | succ n ih =>
    set copied := w.setPages s (·.copyDown x) with copied_eq
    have slabList : ∀ i : Int, (copied.pages s).slabList i =
        if i = x then (w.pages s).slabList (x + 1) else (w.pages s).slabList i := by
      intro i
      rw [World.setPages_pages, if_pos rfl]
      exact Function.update_apply ..
    have here : (copied.pages s).slabList x ≠ some page := by
      rw [slabList, if_pos rfl]
      exact_mod_cast other (x + 1) (by omega) (by omega)
    have later : ∀ j, x + 1 < j → j ≤ x + 1 + n →
        ((copied.renumber cfg s x).pages s).slabList j ≠ some page := by
      intro j above below
      rw [World.renumber_pages, slabList, if_neg (by omega)]
      exact other j (by omega) (by omega)
    obtain ⟨header, remote⟩ := ih later
    obtain ⟨header', remote'⟩ := renumber_elsewhere cfg here y
    rw [World.shiftPages]
    push_cast at header remote
    exact ⟨header.trans header', remote.trans remote'⟩

theorem shiftPages_rIt (s : Int) (x : Int) (n : Nat) (page y : Nat) :
    ((w.shiftPages cfg s x n).header (.cell page y)).rIt = (w.header (.cell page y)).rIt := by
  induction n generalizing w x with
  | zero => rfl
  | succ n ih =>
    rw [World.shiftPages, ih, renumber_rIt]
    rfl

theorem Numbered.remove (numbered : Numbered cfg w) (layout : Layout cfg w) {idx : Nat}
    (inside : idx < (w.pages s).slabs) : Numbered cfg (w.removePage cfg s idx) := by
  have fewer : decr (w.pages s).slabs = (w.pages s).slabs - 1 := if_neg (by omega)
  have rounds : PageTable.rounds (w.pages s).slabs idx = (w.pages s).slabs - 1 - idx := by
    rw [PageTable.rounds, fewer, asUnsigned, if_neg (by omega), Int.toNat_natCast]
  set last := (w.pages s).slabs - 1 with last_eq
  set counted := w.setPages s fun t => { t with slabs := decr (w.pages s).slabs } with counted_eq
  have tables : ∀ id, (counted.pages id).slabList = (w.pages id).slabList ∧
      (counted.pages id).entry = (w.pages id).entry := by
    intro id
    rw [World.setPages_pages]
    split
    next here => rw [here]; exact ⟨rfl, rfl⟩
    next => exact ⟨rfl, rfl⟩
  have removed : w.removePage cfg s idx =
      (counted.shiftPages cfg s idx (last - idx)).setPages s (·.clear last) := by
    simp only [World.removePage, rounds, counted_eq, fewer]
  refine ⟨fun {id} isClass i inUse => ?_, fun page y => ?_⟩
  · rw [World.removePage_pages] at inUse
    rw [removed, World.setPages_pages]
    by_cases here : id = s
    · subst here
      rw [if_pos rfl, PageTable.remove_slabs, fewer] at inUse
      -- before the first round the page that goes is the gap
      have start : Gap cfg counted id idx last := by
        refine ⟨fun i short _ => ?_, fun i j page short short' _ _ one two => ?_,
          fun i short _ page has => ?_⟩
        · rw [(tables id).2]
          exact (numbered.right isClass i (by omega)).congr rfl rfl rfl (fun _ _ => rfl)
            (fun _ _ _ => rfl) (fun _ _ _ => rfl)
        · rw [(tables id).1] at one two
          exact (layout.apart ⟨by omega, one⟩ ⟨by omega, two⟩).2
        · rw [(tables id).1] at has
          exact (layout.even isClass ⟨by omega, has⟩).le
      have done := (start.shift (Nat.add_sub_cancel' (by omega))).right i (by omega) (by omega)
      rw [if_pos rfl, PageTable.clear_entry, if_neg (by omega)]
      exact done.congr rfl rfl rfl (fun _ _ => rfl) (fun _ _ _ => rfl) (fun _ _ _ => rfl)
    · rw [if_neg here] at inUse ⊢
      rw [World.shiftPages_pages, if_neg here, (tables id).2]
      have elsewhere : ∀ p ∈ ((w.pages id).entry i).page, ∀ j, idx < j → j ≤ idx + (last - idx) →
          (counted.pages s).slabList j ≠ some p := by
        intro p has j above below listed
        rw [(tables s).1] at listed
        exact here (layout.apart ⟨inUse, has⟩ ⟨by omega, listed⟩).1
      exact (numbered.right isClass i inUse).congr rfl rfl rfl
        (fun p _ => congrFun (shiftPages_cut s idx _).1 p)
        (fun p has y => congrArg Header.pageId (shiftPages_elsewhere (elsewhere p has) y).1)
        (fun p has y => (shiftPages_elsewhere (elsewhere p has) y).2)
  · rw [removed]
    exact (shiftPages_rIt s idx _ page y).trans (numbered.plain page y)

/-! ### Attaching a page -/

theorem attach_entry (t : PageTable) (page : Option Nat) (rkey : Nat) (conn : Option Nat)
    (i : Nat) : (t.attach page rkey conn).entry i =
      if i = t.slabs then ⟨page, t.hits i, rkey, conn⟩ else t.entry i := by
  simp only [PageTable.entry, PageTable.attach, PageTable.place, Function.update_apply,
    Nat.cast_inj]
  split <;> rfl

section

variable (numbered : Numbered cfg w) (fresh : Fresh w page)
include numbered fresh

variable {id : Int}

theorem Numbered.attach {rkey : Nat} {conn : Option Nat}
    (pages : ∀ other, w'.pages other =
      if other = id then (w.pages id).attach (some page) rkey conn else w.pages other)
    (cut : ∀ p, p ≠ page → w'.cut p = w.cut p)
    (header : ∀ p, p ≠ page → ∀ y, w'.header (.cell p y) = w.header (.cell p y))
    (remote : ∀ p, p ≠ page → ∀ y, w'.remote ⟨p, y⟩ = w.remote ⟨p, y⟩)
    (plain : ∀ y, (w'.header (.cell page y)).rIt = none)
    (new : cfg.isClass id = true → ∀ hits,
      NumberedAs cfg w' id (w.pages id).slabs ⟨some page, hits, rkey, conn⟩) : Numbered cfg w' where
  right {other} isClass i inUse := by
    have old : ∀ {other : Int}, cfg.isClass other = true → ∀ i < (w.pages other).slabs,
        NumberedAs cfg w' other i ((w.pages other).entry i) := by
      intro other isClass i inUse
      have different : ∀ p ∈ ((w.pages other).entry i).page, p ≠ page :=
        fun p has same => fresh.free other i ⟨inUse, same ▸ has⟩
      exact (numbered.right isClass i inUse).congr rfl rfl rfl (fun p has => cut p (different p has))
        (fun p has y => by rw [header p (different p has) y])
        (fun p has y => remote p (different p has) y)
    rw [pages] at inUse ⊢
    by_cases here : other = id
    · subst here
      rw [if_pos rfl] at inUse ⊢
      change i < (w.pages other).slabs + 1 at inUse
      rw [attach_entry]
      split
      next last => rw [last]; exact new isClass _
      next before => exact old isClass i (by omega)
    · rw [if_neg here] at inUse ⊢
      exact old isClass i inUse
  plain p y := by
    by_cases here : p = page
    · rw [here]; exact plain y
    · rw [header p here y]; exact numbered.plain p y

theorem Numbered.addsLocal (adds : AddsLocal cfg w w' id page n number)
    (own : cfg.isClass id = true → number.toNat = (w.pages id).slabs) : Numbered cfg w' := by
  have stamped : ∀ y, (w'.header (.cell page y)).rIt = none ∧
      (y < n → (w'.header (.cell page y)).pageId = number) := by
    intro y
    rw [adds.cells]
    by_cases inside : y < n
    · rw [if_pos inside]
      cases cfg.isClass id <;> exact ⟨rfl, fun _ => rfl⟩
    · rw [if_neg inside]
      exact ⟨rfl, fun inside' => absurd inside' inside⟩
  refine numbered.attach fresh adds.pages ?_ ?_ ?_ (fun y => (stamped y).1) fun isClass hits => ?_
  · intro p other; rw [adds.cut, Function.update_of_ne other]
  · intro p other y; exact adds.others _ fun y' same => other (by cases same; rfl)
  · intro p _ y; rw [adds.remote]
  · intro p has
    cases has
    refine ⟨fun _ y inside => ?_, fun conn has => (by cases has)⟩
    rw [adds.cut, Function.update_self] at inside
    rw [(stamped y).2 inside, own isClass]

theorem Numbered.addsRemote {conn : Nat} {mr : Mr}
    (adds : AddsRemote cfg w w' id page n number conn mr)
    (own : cfg.isClass id = true → number.toNat = (w.pages id).slabs) : Numbered cfg w' := by
  refine numbered.attach fresh adds.pages ?_ ?_ ?_ ?_ fun isClass hits => ?_
  · intro p other; rw [adds.cut, Function.update_of_ne other]
  · intro p _ y; rw [adds.header]
  · intro p other y; rw [adds.remote, if_neg fun both => other both.1]
  · intro y; rw [adds.header]; exact numbered.plain page y
  · intro p has
    cases has
    refine ⟨fun none_ => (by cases none_), fun c has y inside => ?_⟩
    cases has
    rw [adds.cut, Function.update_self] at inside ⊢
    rw [adds.remote, if_pos ⟨rfl, inside⟩]
    refine ⟨own isClass, (conn, mr), rfl, rfl, rfl, Nat.le_add_right _ _, ?_⟩
    -- chunk `y` ends where the next one begins
    have : (y + 1) * cfg.size id ≤ n * cfg.size id := Nat.mul_le_mul_right _ inside
    change mr.addr + y * cfg.size id + cfg.size id ≤ mr.addr + n * cfg.size id
    rw [Nat.add_mul, Nat.one_mul] at this
    omega

end

/-! ### Runs -/

theorem newslab_quiet_of_refused {id : Int} (refuses : RefusesPage cfg w id)
    (called : w.doSlabsNewslab cfg id = some w') : Quiet w w' := by
  have refreshed := Quiet.refreshed cfg w
  have reached_ : w.account.memLimitReached = false → (w.refreshed cfg).limitHit cfg id = false →
      cfg.prealloc = true ∧ (w.pages 0).slabs = 0 ∧ cfg.len id > (w.refreshed cfg).account.memAvail := by
    intro open_ passes
    rcases refuses with reached | hit | exhausted
    · rw [open_] at reached; cases reached
    · rw [passes] at hit; cases hit
    · exact exhausted
  have pages : (w.refreshed cfg).pages 0 = w.pages 0 := by
    obtain ⟨a, -, -, same⟩ := w.refreshed_eq cfg
    rw [same]
    rfl
  cases w.doSlabsNewslab_newslab cfg called with
  | refused hit => exact refreshed.setAccount _
  | reached before => exact .refl w
  | pooled open_ passes pool =>
    obtain ⟨-, empty, -⟩ := reached_ open_ passes
    rcases World.getPageFromGlobalPool_eq _ pool with ⟨none_, -⟩ | ⟨some_, -⟩
    · cases none_
    · rw [pages] at some_; exact absurd empty some_
  | exhausted pool memory =>
    exact (refreshed.trans (.getPageFromGlobalPool pool)).trans (memoryAllocate_names memory).1
  | mapped open_ passes pool memory =>
    obtain ⟨prealloc, empty, large⟩ := reached_ open_ passes
    rcases World.getPageFromGlobalPool_eq _ pool with ⟨-, rfl, -⟩ | ⟨some_, -⟩
    · simp [World.memoryAllocate, prealloc, large] at memory
    · rw [pages] at some_; exact absurd empty some_

theorem emptyChunk_sameIds {found : World.Found}
    (keeps : found = .alive → (w.cls w.rebal.sClsid).slCurr = 0)
    (called : w.emptyChunk cfg it found = some w') : SameIds w w' := by
  have busy : ∀ w₁ : World, SameIds w₁ w₁.markBusy :=
    fun w₁ => ⟨⟨fun _ => rfl, rfl, rfl⟩, fun _ _ => rfl, fun _ _ => rfl, rfl⟩
  have evicts : SameIds w (w.evict cfg it) := (doSlabsFree_sameIds cfg w it _).trans (busy _)
  simp only [World.emptyChunk] at called
  split at called
  case h_1 => cases called; exact .refl _
  case h_2 =>
    cases called
    exact (setSlots_sameIds w _ _ _).trans (setHeader_sameIds _ it (fun _ => rfl) (fun _ => rfl))
  case h_3 => cases called; exact busy w
  case h_4 =>
    cases found with
    | busy => cases called; exact busy w
    | expired => cases called; exact evicts
    | alive =>
      have none_ : w.slabRebalanceAlloc cfg (cfg.perslab w.rebal.sClsid) = some (none, w) := by
        cases cfg.perslab w.rebal.sClsid with
        | zero => rfl
        | succ tries => rw [World.slabRebalanceAlloc, if_pos (keeps rfl)]
      simp only [none_] at called
      cases called
      exact evicts

theorem move_sameIds {found : World.Found}
    (keeps : found = .alive → (w.cls w.rebal.sClsid).slCurr = 0)
    (called : w.slabRebalanceMove cfg found = some w') : SameIds w w' := by
  obtain ⟨-, rfl | ⟨it, w₁, emptied, rfl⟩⟩ := slabRebalanceMove_cases called
  · exact ⟨⟨fun _ => rfl, rfl, rfl⟩, fun _ _ => rfl, fun _ _ => rfl, rfl⟩
  · refine (emptyChunk_sameIds keeps emptied).trans ?_
    exact ⟨⟨fun _ => rfl, rfl, rfl⟩, fun _ _ => rfl, fun _ _ => rfl, rfl⟩

theorem Numbered.finish (numbered : Numbered cfg w) (layout : Layout cfg w) (pick : PickInv cfg w)
    (keeps : KeepsNumbers cfg w .finish) (called : w.slabRebalanceFinish cfg = some w') :
    Numbered cfg w' := by
  have own : ∀ {w₁ : World}, Quiet w w₁ → (w.pages w.rebal.dClsid).slabs < 65536 →
      cfg.isClass w.rebal.dClsid = true → (UInt16.ofNat (w.pages w.rebal.dClsid).slabs).toNat =
        (w₁.pages w.rebal.dClsid).slabs := by
    intro w₁ quiet small isClass
    simp only [Config.isClass, decide_eq_true_eq] at isClass
    rw [quiet.slabs _ (by omega), UInt16.toNat_ofNat']
    exact Nat.mod_eq_of_lt small
  obtain ⟨done, ⟨source, picked, moving, quiet⟩ | ⟨-, quiet⟩ | ⟨source, w₁, w₂, quiet, fresh, adds, after⟩ |
    ⟨source, w₁, w₂, conn, quiet, fresh, adds, after⟩⟩ := finish_cases layout pick called
  · obtain ⟨idx, toRelease, inside, -⟩ := picked.inside
    rw [toRelease] at quiet
    exact (numbered.remove layout inside).quiet quiet
  · exact numbered.quiet quiet
  · obtain ⟨small, -⟩ := keeps done (by rw [source]; simp)
    exact ((numbered.quiet quiet).addsLocal fresh adds (own quiet small)).quiet after
  · obtain ⟨small, first⟩ := keeps done (by rw [source]; simp)
    rw [if_pos (first source)] at adds
    exact ((numbered.quiet quiet).addsRemote fresh adds (own quiet small)).quiet after

/-- The page numbers stay right in every class. -/
theorem numbered_step (numbered : Numbered cfg w) (layout : Layout cfg w) (pick : PickInv cfg w)
    {action : Action} (keeps : KeepsNumbers cfg w action) (called : step cfg w action = some w') :
    Numbered cfg w' := by
  by_cases quiet : action.touchesChunks = false
  · exact numbered.quiet (quiet_step quiet called)
  cases action <;> simp only [Action.touchesChunks, not_true_eq_false] at quiet
  case preallocate id =>
    obtain ⟨-, called⟩ := Option.ite_none_right_eq_some.mp called
    exact numbered.quiet (newslab_quiet_of_refused keeps called)
  case alloc id noNewPage =>
    obtain ⟨⟨found, after⟩, alloc, rfl⟩ := Option.map_eq_some_iff.mp called
    simp only [World.doSlabsAlloc] at alloc
    split at alloc
    next isClass =>
      split at alloc
      next fill =>
        obtain ⟨w₁, newslab, taken⟩ := Option.bind_eq_some_iff.mp alloc
        have refused := newslab_quiet_of_refused (keeps isClass fill.1 fill.2) newslab
        exact (numbered.quiet refused).sameIds (takeChunk_sameIds taken)
      next => exact numbered.sameIds (takeChunk_sameIds alloc)
    · cases alloc
      exact numbered
  case link c =>
    obtain ⟨-, ⟨⟩⟩ := Option.ite_none_right_eq_some.mp called
    exact numbered.sameIds (setHeader_sameIds w c (fun _ => rfl) (fun _ => rfl))
  case itemFree c =>
    obtain ⟨-, ⟨⟩⟩ := Option.ite_none_right_eq_some.mp called
    refine numbered.sameIds ((doSlabsFree_sameIds cfg w c (w.header c).clsid).trans ?_)
    exact ⟨⟨fun _ => rfl, rfl, rfl⟩, fun _ _ => rfl, fun _ _ => rfl, rfl⟩
  case storeRemote c =>
    simp only [step, World.storeRemote] at called
    split at called
    · cases called
    next r stands =>
      split at called <;> cases called
      -- only a temporary item stands for a remote slot
      have other : ∀ page y, Chunk.cell page y ≠ c := by
        rintro page y rfl
        simp [numbered.plain] at stands
      have cells : ∀ page y, (w.setHeader c fun _ => {}).header (.cell page y) =
          w.header (.cell page y) :=
        fun page y => (w.setHeader_header ..).trans (if_neg (other page y))
      exact numbered.sameIds ⟨⟨fun _ => rfl, rfl, rfl⟩, fun page y => congrArg Header.pageId (cells page y),
        fun page y => congrArg Header.rIt (cells page y), rfl⟩
  case releaseFreeRemote =>
    obtain ⟨-, called⟩ := Option.ite_none_right_eq_some.mp called
    obtain ⟨w₁, newslab, rfl⟩ := Option.map_eq_some_iff.mp called
    have refused := newslab_quiet_of_refused keeps newslab
    exact numbered.quiet ((refused.setRebal _).trans (.reassign ..))
  case move found => exact numbered.sameIds (move_sameIds keeps called)
  case finish => exact numbered.finish layout pick keeps called

end Numbered

/-- What holds in every state: pages are removed where they were picked, different entries
have different pages, and the numbers are right. -/
structure NumbersInv (cfg : Config) (w : World) : Prop where
  pick : PickInv cfg w
  layout : Layout cfg w
  numbered : Numbered cfg w

theorem numbersInv_step (w' : World) (inv : NumbersInv cfg w) (safe : NumbersSafe cfg w action)
    (called : step cfg w action = some w') : NumbersInv cfg w' where
  pick := pickInv_step cfg w action w' inv.pick safe.1 called
  layout := layout_step inv.layout inv.pick safe.2.1 called
  numbered := numbered_step inv.numbered inv.layout inv.pick safe.2.2 called

theorem numbersInv_initial (limit : Nat) (t : Tracker) (junk : Int → PageTable) :
    NumbersInv cfg (.initial cfg limit t junk) where
  pick := pickInv_initial cfg limit t junk
  layout := layout_initial cfg limit t junk
  numbered := ⟨fun _ i inUse => absurd inUse (Nat.not_lt_zero i), fun _ _ => rfl⟩

/-- In every run in which no new page is taken, only pages that were picked are removed, no
item is copied by the mover and received pages are split evenly, every chunk and every
remote item names the entry of its page. -/
theorem page_ids_right_of_safe (cfg : Config) (limit : Nat) (t : Tracker) (junk : Int → PageTable)
    (run : List Action)
    (safe : Run.Along (step cfg) (NumbersSafe cfg) (.initial cfg limit t junk) run) :
    Run.Always (step cfg) (PageIdsRight cfg) (.initial cfg limit t junk) run := by
  have always := Run.always_of_invariant (numbersInv_step cfg)
    (numbersInv_initial cfg limit t junk) safe
  exact Run.always_mono (fun _ inv => inv.numbered.pageIdsRight) always

/-! ### A tenant that lives on received pages -/

/-- The tenant at the start, with page arrays that happen to contain addresses. -/
def littered (bytes : Nat) : World :=
  .initial cfg 0 (quarterOf bytes) fun _ => { slabList := fun _ => some 1000 }

/-- Another tenant releases a page of class `id`, and this one takes it. -/
def receivePage (id : Int) : List Action :=
  [.other (.setSpareMem 0 1052672 id 1), .receiveLocal, .start, .move .busy, .finish]

/-- A remote tenant lends a region. -/
def receiveRegion (conn : Nat) (mr : Mr) : List Action :=
  [.copyMr conn mr, .other (.receiveRemoteMem conn 1052672 0), .receiveRemote, .start, .move .busy,
    .finish]

/-- Class 2 receives eleven pages and a region, and releases its second page. -/
def receiveAndRelease : List Action :=
  [.reassign 1000 2] ++ (List.replicate 11 (receivePage 2)).flatten ++ receiveRegion 7 ⟨5000, 99⟩ ++
    [.endWaiting, .alloc 2 false, .releasePage 2 1 false, .start, .move .busy, .move .busy, .finish]

theorem page_ids_right_when_received :
    Run.Along (step (halves true)) (NumbersSafe (halves true)) (littered (halves true) 4000000)
      receiveAndRelease ∧
    Run.Always (step (halves true)) (PageIdsRight (halves true)) (littered (halves true) 4000000)
      receiveAndRelease ∧
    (Run.exec (step (halves true)) (littered (halves true) 4000000) receiveAndRelease).map
      (fun w => ((w.pages 2).slabs, (w.pages 2).conn 10)) = some (11, some 7) :=
  ⟨by decide +kernel, page_ids_right_of_safe _ _ _ _ _ (by decide +kernel), by decide +kernel⟩

/-- The chunks of the first page of a class have the number 65535. -/
theorem first_page_misnumbered :
    ¬ Run.Always (step (halves true)) (PageIdsRight (halves true)) (blank (halves true) 96000000)
      [.alloc 2 false] ∧
    (Run.exec (step (halves true)) (blank (halves true) 96000000) [.alloc 2 false]).map
      (fun w => ((w.pages 2).slabList 0, (w.header (.cell 0 0)).pageId)) = some (some 0, 65535) := by
  decide +kernel

end MemExchange.Slabs
