import MemExchange.Lib.Best
import MemExchange.Slabs.Scoring

/-!
# The page that is given away

`calculate_scores` looks for the page with the fewest hits. It leaves out the class that gave away a
page last, the last nine pages of each class and those that are remote, and stops at a page without
hits. The counters are an array of 4000 entries, whatever number of pages a class has.
-/
namespace MemExchange.Slabs

/-! ### The search -/

variable (t : PageTable) (w : World) (i : Int) (j : Nat) (cfg : Config)

/-- `hits[j]` -/
def PageTable.hitsAt : Option Nat :=
  if j < 4000 then some (t.hits j) else none

/-- `conn[j]`. The array has room for all pages of the class. -/
def PageTable.connAt : Option (Option Nat) :=
  if j < t.slabs then some (t.conn j) else none

/-- `lowest_mu`, with `cls_id2` and `page_id2` -/
structure Lowest where
  mu : Nat := 1000000000
  release : Scoring.Release := .nothing
  deriving DecidableEq, Repr

/-- The next `n` pages of a class, from index `j` on. The result is `none` when an index is outside of
its array. -/
def scanPages (avail : Nat) (t : PageTable) (id : Int) : (n j : Nat) → Lowest → Option Lowest
  | 0, _, l => some l
  | n + 1, j, l =>
    if avail > 2000000 then some ⟨0, .freeSpace⟩
    else (t.hitsAt j).bind fun hits =>
      if hits < l.mu then (t.connAt j).bind fun conn =>
        if conn = none then
          if hits = 0 then some ⟨hits, .page id j⟩
          else scanPages avail t id n (j + 1) ⟨hits, .page id j⟩
        else scanPages avail t id n (j + 1) l
      else scanPages avail t id n (j + 1) l

/-- The pages of class `i`, up to index `slabs - 10` -/
def World.scanClass (l : Lowest) : Option Lowest :=
  if i ≠ w.rebal.prevVictim ∧ (w.pages i).slabs > 10 then
    scanPages w.account.memAvail (w.pages i) i ((w.pages i).slabs - 9) 0 l
  else some l

/-- The next `n` classes, from class `i` on -/
def World.scanClasses (w : World) : (n : Nat) → Int → Lowest → Option Lowest
  | 0, _, l => some l
  | n + 1, i, l => (w.scanClass i l).bind fun l =>
    if l.mu = 0 ∨ l.release = .freeSpace then some l else w.scanClasses n (i + 1) l

/-- The second loop of `calculate_scores` -/
def World.lowestMu (w : World) : Option Lowest :=
  w.scanClasses cfg.powerLargest.toNat 1 {}

/-! ### What is looked for -/

structure PageAt where
  cls : Int
  index : Nat
  deriving DecidableEq, Repr

variable (p : PageAt)

def World.hitsOf : Nat := (w.pages p.cls).hits p.index

/-- A local page that is not among the last nine of its class, in a class that is not spared -/
structure Loose (w : World) (p : PageAt) : Prop where
  other : p.cls ≠ w.rebal.prevVictim
  many : (w.pages p.cls).slabs > 10
  index : p.index ≤ (w.pages p.cls).slabs - 10
  isLocal : (w.pages p.cls).conn p.index = none

structure Eligible (cfg : Config) (w : World) (p : PageAt) : Prop extends Loose w p where
  isClass : 1 ≤ p.cls ∧ p.cls ≤ cfg.powerLargest

/-- The search stays inside the arrays, and finds an eligible page with the fewest hits. -/
def PicksLowest (w : World) : Prop :=
  ∃ p, w.lowestMu cfg = some ⟨w.hitsOf p, .page p.cls p.index⟩ ∧ Eligible cfg w p ∧
    ∀ q, Eligible cfg w q → w.hitsOf p ≤ w.hitsOf q

/-- In front of the end of the counters of a class with more pages than that, in it or in a class
before, there is an eligible page without hits. -/
def StopsInTime (w : World) : Prop :=
  ∀ i, 1 ≤ i → i ≤ cfg.powerLargest → i ≠ w.rebal.prevVictim → 4010 ≤ (w.pages i).slabs →
    ∃ p, Eligible cfg w p ∧ p.cls ≤ i ∧ p.index < 4000 ∧ w.hitsOf p = 0

/-! ### The search keeps the lowest -/

/-- The result of a search as that of the library's, in the order of fewer hits -/
def Lowest.of (b : Best.Leader PageAt ℕᵒᵈ) : Lowest where
  mu := OrderDual.ofDual b.key
  release := match b.candidate with
    | none => .nothing
    | some p => .page p.cls p.index

def World.few : ℕᵒᵈ := OrderDual.toDual (w.hitsOf p)

/-- The local pages among `n` pages of class `i`, from index `j` on -/
def World.localPages (n j : Nat) : List PageAt :=
  ((List.range' j n).filter fun k : Nat => (w.pages i).conn k = none).map fun k => ⟨i, k⟩

section Search

variable {w}

theorem World.localPages_succ (i : Int) (n j : Nat) : w.localPages i (n + 1) j =
      if (w.pages i).conn j = none then ⟨i, j⟩ :: w.localPages i n (j + 1)
      else w.localPages i n (j + 1) := by
  unfold World.localPages
  rw [List.range'_succ, List.filter_cons]
  split
  · next isLocal =>
    rw [if_pos (by simpa using isLocal)]
    rfl
  · next isRemote => rw [if_neg (by simpa using isRemote)]

variable {i j p} {n : Nat} {b : Best.Leader PageAt ℕᵒᵈ} {l : Lowest}

theorem World.mem_localPages : p ∈ w.localPages i n j ↔ p.cls = i ∧ j ≤ p.index ∧ p.index < j + n ∧
      (w.pages i).conn p.index = none := by
  simp only [World.localPages, List.mem_map, List.mem_filter, List.mem_range'_1, decide_eq_true_eq]
  constructor
  · rintro ⟨k, ⟨⟨low, high⟩, isLocal⟩, rfl⟩
    exact ⟨rfl, low, high, isLocal⟩
  · rintro ⟨rfl, low, high, isLocal⟩
    exact ⟨p.index, ⟨⟨low, high⟩, isLocal⟩, rfl⟩

/-- The loop over the pages is the search among the local ones: after a page without hits there is
nothing to be found. -/
theorem scanPages_eq (short : w.account.memAvail ≤ 2000000)
    (found : scanPages w.account.memAvail (w.pages i) i n j (.of b) = some l) :
    l = .of (Best.scan w.few b (w.localPages i n j)) := by
  induction n generalizing j b with
  | zero =>
    cases found
    rfl
  | succ n ih =>
    rw [scanPages, if_neg (by omega)] at found
    obtain ⟨hits, read, found⟩ := Option.bind_eq_some_iff.mp found
    obtain ⟨-, ⟨⟩⟩ := Option.ite_none_right_eq_some.mp read
    rw [w.localPages_succ]
    split at found
    · next fewer =>
      obtain ⟨conn, read, found⟩ := Option.bind_eq_some_iff.mp found
      obtain ⟨-, ⟨⟩⟩ := Option.ite_none_right_eq_some.mp read
      have better : b.key < w.few ⟨i, j⟩ := fewer
      split at found
      · next isLocal =>
        rw [if_pos isLocal, Best.scan_cons, Best.consider_of_lt better]
        split at found
        · next none =>
          cases found
          rw [Best.scan_of_le]
          · rfl
          · intro p _
            show (w.pages i).hits j ≤ w.hitsOf p
            rw [none]
            exact Nat.zero_le _
        · exact ih found
      · next isRemote =>
        rw [if_neg isRemote]
        exact ih found
    · next more =>
      have worse : w.few ⟨i, j⟩ ≤ b.key := not_lt.mp more
      split
      · rw [Best.scan_cons, Best.consider_of_le worse]
        exact ih found
      · exact ih found

/-- The loop over the pages stays inside the arrays if they are long enough, or if it comes to a page
without hits before. -/
theorem scanPages_isSome_iff {avail : Nat} (short : avail ≤ 2000000) {t : PageTable} {id : Int}
    (room : j + n ≤ t.slabs) (inside : j ≤ 4000) (some : 0 < l.mu) :
    (scanPages avail t id n j l).isSome = true ↔
      j + n ≤ 4000 ∨ ∃ k, j ≤ k ∧ k < j + n ∧ k < 4000 ∧ t.conn k = none ∧ t.hits k = 0 := by
  induction n generalizing j l with
  | zero => simp [scanPages, inside]
  | succ n ih =>
    rw [scanPages, if_neg (by omega)]
    by_cases last : j < 4000
    · have read : t.hitsAt j = Option.some (t.hits j) := if_pos last
      have readConn : t.connAt j = Option.some (t.conn j) := if_pos (by omega)
      -- the page at `j` ends the search, or it is as if it had not been there
      have later : ¬ (t.conn j = none ∧ t.hits j = 0) →
          ((j + 1 + n ≤ 4000 ∨
              ∃ k, j + 1 ≤ k ∧ k < j + 1 + n ∧ k < 4000 ∧ t.conn k = none ∧ t.hits k = 0) ↔
            (j + (n + 1) ≤ 4000 ∨
              ∃ k, j ≤ k ∧ k < j + (n + 1) ∧ k < 4000 ∧ t.conn k = none ∧ t.hits k = 0)) := by
        intro other
        have arith : j + 1 + n = j + (n + 1) := by omega
        rw [arith]
        refine or_congr_right ⟨?_, ?_⟩
        · rintro ⟨k, low, high, small, isLocal, zero⟩
          exact ⟨k, by omega, high, small, isLocal, zero⟩
        · rintro ⟨k, low, high, small, isLocal, zero⟩
          have apart : k ≠ j := fun same => other (same ▸ ⟨isLocal, zero⟩)
          exact ⟨k, by omega, high, small, isLocal, zero⟩
      rw [read, Option.bind_some]
      by_cases fewer : t.hits j < l.mu
      · rw [if_pos fewer, readConn, Option.bind_some]
        by_cases isLocal : t.conn j = none
        · rw [if_pos isLocal]
          by_cases zero : t.hits j = 0
          · rw [if_pos zero]
            simp only [Option.isSome_some, true_iff]
            exact .inr ⟨j, le_rfl, by omega, last, isLocal, zero⟩
          · rw [if_neg zero, ih (by omega) (by omega) (by dsimp only; omega)]
            exact later fun both => zero both.2
        · rw [if_neg isLocal, ih (by omega) (by omega) some]
          exact later fun both => isLocal both.1
      · rw [if_neg fewer, ih (by omega) (by omega) some]
        exact later fun both => fewer (by rw [both.2]; exact some)
    · have read : t.hitsAt j = none := if_neg last
      rw [read]
      simp only [Option.bind_none, Option.isSome_none, Bool.false_eq_true, false_iff]
      rintro (fits | ⟨k, low, -, small, -⟩)
      · omega
      · omega

/-- The pages of class `i` that may be given away -/
def World.loosePages (w : World) (i : Int) : List PageAt :=
  if i ≠ w.rebal.prevVictim ∧ (w.pages i).slabs > 10 then w.localPages i ((w.pages i).slabs - 9) 0
  else []

theorem World.mem_loosePages : p ∈ w.loosePages i ↔ p.cls = i ∧ Loose w p := by
  unfold World.loosePages
  split
  · next searched =>
    rw [w.mem_localPages]
    constructor
    · rintro ⟨rfl, -, high, isLocal⟩
      exact ⟨rfl, searched.1, searched.2, by omega, isLocal⟩
    · rintro ⟨rfl, loose⟩
      have := loose.index
      exact ⟨rfl, Nat.zero_le _, by omega, loose.isLocal⟩
  · next skipped =>
    refine ⟨fun mem => (nomatch mem), ?_⟩
    rintro ⟨rfl, loose⟩
    exact absurd ⟨loose.other, loose.many⟩ skipped

/-- The pages of `n` classes from class `i` on that may be given away -/
def World.loosePagesFrom (w : World) : Nat → Int → List PageAt
  | 0, _ => []
  | n + 1, i => w.loosePages i ++ w.loosePagesFrom n (i + 1)

theorem World.mem_loosePagesFrom :
    p ∈ w.loosePagesFrom n i ↔ i ≤ p.cls ∧ p.cls < i + n ∧ Loose w p := by
  induction n generalizing i with
  | zero =>
    refine ⟨fun mem => (nomatch mem), ?_⟩
    rintro ⟨low, high, -⟩
    omega
  | succ n ih =>
    rw [World.loosePagesFrom, List.mem_append, w.mem_loosePages, ih]
    constructor
    · rintro (⟨rfl, loose⟩ | ⟨low, high, loose⟩)
      · exact ⟨le_rfl, by omega, loose⟩
      · exact ⟨by omega, by push_cast; omega, loose⟩
    · rintro ⟨low, high, loose⟩
      by_cases here : p.cls = i
      · exact .inl ⟨here, loose⟩
      · exact .inr ⟨by omega, by push_cast at high; omega, loose⟩

theorem scanClass_eq (short : w.account.memAvail ≤ 2000000)
    (found : w.scanClass i (.of b) = some l) : l = .of (Best.scan w.few b (w.loosePages i)) := by
  unfold World.scanClass at found
  unfold World.loosePages
  split at found
  · next searched =>
    rw [if_pos searched]
    exact scanPages_eq short found
  · next skipped =>
    rw [if_neg skipped]
    cases found
    rfl

theorem Lowest.of_release (b : Best.Leader PageAt ℕᵒᵈ) : (Lowest.of b).release ≠ .freeSpace := by
  unfold Lowest.of
  split <;> simp

theorem scanClasses_eq (short : w.account.memAvail ≤ 2000000)
    (found : w.scanClasses n i (.of b) = some l) :
    l = .of (Best.scan w.few b (w.loosePagesFrom n i)) := by
  induction n generalizing i b with
  | zero =>
    cases found
    rfl
  | succ n ih =>
    obtain ⟨_, class_, found⟩ := Option.bind_eq_some_iff.mp found
    cases scanClass_eq short class_
    rw [World.loosePagesFrom, Best.scan_append]
    split at found
    · next stops =>
      cases found
      have zero := stops.resolve_right (Lowest.of_release _)
      have rest : ∀ p ∈ w.loosePagesFrom n (i + 1),
          w.few p ≤ (Best.scan w.few b (w.loosePages i)).key := by
        intro p _
        show (Lowest.of _).mu ≤ w.hitsOf p
        rw [zero]
        exact Nat.zero_le _
      rw [Best.scan_of_le rest]
    · exact ih found

/-! ### Where the search ends -/

/-- A page at which the search stops, if it gets there -/
structure Stop (w : World) (p : PageAt) : Prop extends Loose w p where
  counted : p.index < 4000
  unused : w.hitsOf p = 0

section

variable (short : w.account.memAvail ≤ 2000000)
include short

theorem scanClass_isSome_iff (some : 0 < l.mu) : (w.scanClass i l).isSome = true ↔
      (i ≠ w.rebal.prevVictim → 4010 ≤ (w.pages i).slabs → ∃ p, p.cls = i ∧ Stop w p) := by
  unfold World.scanClass
  split
  · next searched =>
    rw [scanPages_isSome_iff short (by omega) (by omega) some]
    constructor
    · rintro (fits | ⟨k, -, high, counted, isLocal, unused⟩) - big
      · omega
      · exact ⟨⟨i, k⟩, rfl, ⟨searched.1, searched.2, by dsimp only; omega, isLocal⟩, counted, unused⟩
    · intro stops
      by_cases big : 4010 ≤ (w.pages i).slabs
      · obtain ⟨p, rfl, stop⟩ := stops searched.1 big
        have := stop.index
        exact .inr ⟨p.index, Nat.zero_le _, by omega, stop.counted, stop.isLocal, stop.unused⟩
      · exact .inl (by omega)
  · next skipped =>
    simp only [Option.isSome_some, true_iff]
    intro other big
    exact absurd ⟨other, by omega⟩ skipped

/-- After a class that was searched to its end the lowest number of hits is zero exactly if the class
has a page to stop at. -/
theorem scanClass_zero_iff (some : 0 < (Lowest.of b).mu)
    (found : w.scanClass i (.of b) = Option.some l) : l.mu = 0 ↔ ∃ p, p.cls = i ∧ Stop w p := by
  have searched := (scanClass_isSome_iff short some).mp (by rw [found]; rfl)
  cases scanClass_eq short found
  constructor
  · intro zero
    rcases Best.scan_cases w.few b (w.loosePages i) with stays | ⟨p, mem, picked⟩
    · rw [stays] at zero
      omega
    · obtain ⟨here, loose⟩ := w.mem_loosePages.mp mem
      rw [picked] at zero
      by_cases big : 4010 ≤ (w.pages i).slabs
      · exact searched (here ▸ loose.other) big
      · have index := loose.index
        rw [here] at index
        exact ⟨p, here, loose, by omega, zero⟩
  · rintro ⟨p, here, stop⟩
    have lowest : (Lowest.of (Best.scan w.few b (w.loosePages i))).mu ≤ w.hitsOf p :=
      Best.key_le_scan w.few b (w.mem_loosePages.mpr ⟨here, stop.toLoose⟩)
    rw [stop.unused] at lowest
    omega

theorem scanClasses_isSome_iff (some : 0 < (Lowest.of b).mu) :
    (w.scanClasses n i (.of b)).isSome = true ↔
      ∀ x, i ≤ x → x < i + n → x ≠ w.rebal.prevVictim → 4010 ≤ (w.pages x).slabs →
        ∃ p, i ≤ p.cls ∧ p.cls ≤ x ∧ Stop w p := by
  induction n generalizing i b with
  | zero =>
    simp only [World.scanClasses, Option.isSome_some, true_iff]
    intro x low high
    omega
  | succ n ih =>
    rw [World.scanClasses]
    cases found : w.scanClass i (.of b) with
    | none =>
      -- the search leaves the counters of class `i`
      have outside := (scanClass_isSome_iff short some).not.mp (by rw [found]; simp)
      simp only [Option.bind_none, Option.isSome_none, Bool.false_eq_true, false_iff]
      intro stops
      refine outside fun other big => ?_
      obtain ⟨p, low, high, stop⟩ := stops i le_rfl (by push_cast; omega) other big
      exact ⟨p, by omega, stop⟩
    | some l =>
      have searched := (scanClass_isSome_iff short some).mp (by rw [found]; rfl)
      have zero := scanClass_zero_iff short some found
      cases scanClass_eq short found
      rw [Option.bind_some]
      split
      · next ends =>
        obtain ⟨p, here, stop⟩ := zero.mp (ends.resolve_right (Lowest.of_release _))
        simp only [Option.isSome_some, true_iff]
        intro x low _ _ _
        exact ⟨p, by omega, by omega, stop⟩
      · next goesOn =>
        have none : ¬ ∃ p, p.cls = i ∧ Stop w p := fun stop => goesOn (.inl (zero.mpr stop))
        rw [ih (Nat.pos_of_ne_zero fun zero => goesOn (.inl zero))]
        constructor
        · intro stops x low high other big
          by_cases here : x = i
          · rw [here] at other big
            exact absurd (searched other big) none
          · obtain ⟨p, above, below, stop⟩ := stops x (by omega) (by push_cast at high; omega) other big
            exact ⟨p, by omega, below, stop⟩
        · intro stops x low high other big
          obtain ⟨p, above, below, stop⟩ := stops x (by omega) (by push_cast; omega) other big
          have apart : p.cls ≠ i := fun here => none ⟨p, here, stop⟩
          exact ⟨p, by omega, below, stop⟩

theorem lowestMu_isSome_iff : (w.lowestMu cfg).isSome = true ↔ StopsInTime cfg w := by
  have start : ({} : Lowest) = .of ⟨OrderDual.toDual 1000000000, none⟩ := rfl
  rw [World.lowestMu, start, scanClasses_isSome_iff short (by decide)]
  constructor
  · intro stops i low high other big
    obtain ⟨p, above, below, stop⟩ := stops i low (by omega) other big
    exact ⟨p, ⟨stop.toLoose, above, by omega⟩, below, stop.counted, stop.unused⟩
  · intro stops x low high other big
    obtain ⟨p, eligible, below, counted, unused⟩ := stops x low (by omega) other big
    exact ⟨p, eligible.isClass.1, below, eligible.toLoose, counted, unused⟩

end

theorem World.mem_loosePagesFrom_one :
    p ∈ w.loosePagesFrom cfg.powerLargest.toNat 1 ↔ Eligible cfg w p := by
  rw [w.mem_loosePagesFrom]
  constructor
  · rintro ⟨low, high, loose⟩
    exact ⟨loose, low, by omega⟩
  · rintro ⟨loose, low, high⟩
    exact ⟨low, by omega, loose⟩

end Search

/-- If memory is short and some page that may be given away has less than `10^9` hits, the search
finds one with the fewest hits exactly if it stops before it leaves the counters. -/
theorem lowest_page_picked_iff (cfg : Config) (w : World) (short : w.account.memAvail ≤ 2000000)
    (some : ∃ p, Eligible cfg w p ∧ w.hitsOf p < 1000000000) :
    PicksLowest cfg w ↔ StopsInTime cfg w := by
  rw [← lowestMu_isSome_iff cfg short]
  constructor
  · rintro ⟨p, picked, -⟩
    rw [picked]
    rfl
  · intro searched
    obtain ⟨l, found⟩ := Option.isSome_iff_exists.mp searched
    have start : ({} : Lowest) = .of ⟨OrderDual.toDual 1000000000, none⟩ := rfl
    have picks := found
    rw [World.lowestMu, start] at picks
    cases scanClasses_eq short picks
    obtain ⟨q, eligible, few⟩ := some
    obtain ⟨p, mem, best, least⟩ := Best.scan_picks w.few ⟨OrderDual.toDual 1000000000, none⟩
      ⟨q, (w.mem_loosePagesFrom_one cfg).mpr eligible, few⟩
    refine ⟨p, ?_, (w.mem_loosePagesFrom_one cfg).mp mem, fun r other => ?_⟩
    · rw [found, best]
      rfl
    · exact least r ((w.mem_loosePagesFrom_one cfg).mpr other)

/-- A tenant that has pages only in class 2 -/
def onlyClass2 : World :=
  { cls := fun id => if id = 2 then { pages := t } else {}
    account := { memLimit := 0 }
    tracker := quarterOf 0 }

/-- Twelve pages, the third of which has the fewest hits -/
def twelvePages : World := onlyClass2 { slabs := 12, hits := fun j => if j = 2 then 5 else 9 }

theorem few_pages_lowest_picked : twelvePages.account.memAvail ≤ 2000000 ∧
      (∃ p, Eligible (halves true) twelvePages p ∧ twelvePages.hitsOf p < 1000000000) ∧
      PicksLowest (halves true) twelvePages ∧
      twelvePages.lowestMu (halves true) = some ⟨5, .page 2 2⟩ := by
  have eligible : Eligible (halves true) twelvePages ⟨2, 2⟩ :=
    ⟨⟨by decide, by decide, by decide, by decide⟩, by decide, by decide⟩
  have some : ∃ p, Eligible (halves true) twelvePages p ∧ twelvePages.hitsOf p < 1000000000 :=
    ⟨⟨2, 2⟩, eligible, by decide⟩
  refine ⟨by decide, some, (lowest_page_picked_iff _ _ (by decide) some).mpr ?_, by decide⟩
  intro i _ _ _ big
  have small : (twelvePages.pages i).slabs ≤ 12 := by
    unfold twelvePages onlyClass2 World.pages
    dsimp only
    split <;> decide
  omega

/-- More pages than counters: 256 local ones that were hit once each, and the others remote -/
def manyPages : World :=
  onlyClass2
    { slabs := 4010
      hits := fun j => if j < 256 then 1 else 0
      conn := fun j => if j < 256 then none else some 7 }

/-- The search reads the counter of page 4000. -/
theorem counters_overrun : manyPages.account.memAvail ≤ 2000000 ∧
      (∃ p, Eligible (halves true) manyPages p ∧ manyPages.hitsOf p < 1000000000) ∧
      manyPages.lowestMu (halves true) = none ∧ ¬ PicksLowest (halves true) manyPages := by
  have outside : manyPages.lowestMu (halves true) = none := by
    rw [← Option.not_isSome_iff_eq_none, lowestMu_isSome_iff (halves true) (by decide)]
    intro stops
    obtain ⟨p, eligible, -, -, unused⟩ := stops 2 (by decide) (by decide) (by decide) (by decide)
    have many := eligible.many
    have isLocal := eligible.isLocal
    by_cases here : p.cls = 2
    · -- a local page of class 2 has been hit
      have first : (p.index : Int) < 256 := by
        by_contra remote
        simp [manyPages, onlyClass2, World.pages, here, remote] at isLocal
      simp [World.hitsOf, manyPages, onlyClass2, World.pages, here, first] at unused
    · simp [manyPages, onlyClass2, World.pages, here] at many
  refine ⟨by decide, ⟨⟨2, 0⟩, ⟨⟨by decide, by decide, by decide, by decide⟩, by decide, by decide⟩,
    by decide⟩, outside, ?_⟩
  rintro ⟨p, picked, -⟩
  simp [outside] at picked

end MemExchange.Slabs
