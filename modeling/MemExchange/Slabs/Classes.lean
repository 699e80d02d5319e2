import MemExchange.Slabs.Pages

/-!
# The slab classes

`slabs_init` makes a class for each size of `slab_sizes`, or for sizes that grow by the
growth factor, and gives each a tree and a capacity for its shadow queue. The last class, of
chunks of `slab_chunk_size_max`, is set up after the loop and has neither. It is the one that
`slabs_clsid` returns for every size above the classes of the loop, so all classes in use are
complete only if some class of the loop takes items of `item_size_max`.
-/
namespace MemExchange.Slabs

/-- The checks of `_parse_slab_sizes`, on the numbers between the dashes. All are unsigned,
`lo` is `chunk_size` and `hi` is `slab_chunk_size_max`. -/
def parseSlabSizes (lo hi : Nat) (last i : Nat) : List Nat → Bool
  | [] => true
  | size :: rest => lo ≤ size ∧ size ≤ hi ∧ last < size ∧ (last + 8) % 2 ^ 32 < size ∧ i + 1 < 63 ∧
      parseSlabSizes lo hi size (i + 1) rest

/-- An `int` that is converted to an `unsigned int`. -/
def toUnsigned (x : Int) : Nat := (x % 2 ^ 32).toNat

/-- What `main` checks of the settings below. -/
def Accepts (factor : ℚ) (chunkSize : Int) (itemSizeMax : Nat) (chunkMax : Int)
    (sizes : Option (List Nat)) : Prop :=
  1 < factor ∧ chunkSize ≠ 0 ∧ 1024 ≤ itemSizeMax ∧ itemSizeMax ≤ 2 ^ 30 ∧
    chunkMax ≤ itemSizeMax ∧ chunkMax ∣ itemSizeMax ∧ chunkMax ∣ 2 ^ 20 ∧
    ∀ l ∈ sizes, parseSlabSizes (toUnsigned chunkSize) (toUnsigned chunkMax) 0 0 l

/-- The settings that `slabs_init` reads besides the constant size of a page, `2 ^ 20`. -/
structure Sizing where
  factor : ℚ
  chunkSize : Int
  itemSizeMax : Nat
  slabChunkSizeMax : Int
  slabSizes : Option (List Nat)
  accepted : Accepts factor chunkSize itemSizeMax slabChunkSizeMax slabSizes

/-- What `slabs_init` writes to a `slabclass_t`. -/
structure ClassInit where
  size : Nat
  perslab : Nat
  tree : Bool
  shadowqMaxItems : Nat
  deriving DecidableEq, Repr

def alignUp (size : Nat) : Nat := if size % 8 ≠ 0 then size + (8 - size % 8) else size

/-- A class of the loop. The constant is `shadowq_size`, a negative `int` that is converted for
the division. -/
def ClassInit.ofSize (size : Nat) : ClassInit := ⟨size, 2 ^ 20 / size, true, 4194304000 / size⟩

/-- Rounding up an `unsigned int` can make it 0, and then it is divided by. -/
def initClass (size : Nat) : Option ClassInit :=
  if size % 2 ^ 32 = 0 then none else some (.ofSize size)

namespace Sizing

variable (s : Sizing)

/-- The size of the next class before it is rounded, if there is one. -/
def next (size : Nat) (list : List Nat) : Option Nat :=
  match s.slabSizes with
  | some _ => list.head?.filter (· ≠ 0)
  | none => if s.slabChunkSizeMax / s.factor ≤ size then none else some size

/-- `size *= factor`. With what `main` checks, the product is far from `2 ^ 32`. -/
def grow (size : Nat) : Nat := ⌊size * s.factor⌋₊

/-- `n` rounds of the loop; `none` if one divides by zero. -/
def initLoop : (n size : Nat) → List Nat → Option (List ClassInit)
  | 0, _, _ => some []
  | n + 1, size, list =>
    match s.next size list with
    | none => some []
    | some size => (initClass (alignUp size)).bind fun c =>
        (initLoop n (s.grow (alignUp size)) list.tail).map (c :: ·)

/-- `sizeof(item) + settings.chunk_size`. -/
def start : Nat := toUnsigned (56 + s.chunkSize)

/-- Class `power_largest`. -/
def largest : ClassInit :=
  ⟨toUnsigned s.slabChunkSizeMax, toUnsigned ((2 ^ 20 : Int).tdiv s.slabChunkSizeMax), false, 0⟩

/-- `slabs_init`: the classes from 1 to `power_largest`. -/
def slabsInit : Option (List ClassInit) :=
  (s.initLoop 62 s.start (s.slabSizes.getD [])).map (· ++ [s.largest])

end Sizing

/-- The loop of `slabs_clsid` from class `res` on. -/
def seekClass (size res : Nat) : List ClassInit → Nat
  | [] => res
  | [_] => res
  | c :: rest => if c.size < size then seekClass size (res + 1) rest else res

def slabsClsid (s : Sizing) (classes : List ClassInit) (size : Nat) : Nat :=
  if size = 0 ∨ s.itemSizeMax < size then 0 else seekClass size 1 classes

/-- Class `id` is the least one for items of the size, or the last one if there is none, and
an item that is evicted from it can be put into its shadow queue. -/
def ClassFor (classes : List ClassInit) (size id : Nat) : Prop :=
  1 ≤ id ∧ (∀ d ∈ classes.take (id - 1), d.size < size) ∧
    ∃ c, classes[id - 1]? = some c ∧ (size ≤ c.size ∨ id = classes.length) ∧
      c.tree = true ∧ 0 < c.shadowqMaxItems

/-- `slabs_init` returns, and every class in use is initialised. -/
def FullyInitialised (s : Sizing) : Prop :=
  ∃ classes, s.slabsInit = some classes ∧
    (classes.map (·.size)).Pairwise (· ≤ ·) ∧
    classes.getLast?.map (·.size) = some (toUnsigned s.slabChunkSizeMax) ∧
    (∀ c ∈ classes, 1 ≤ c.perslab) ∧
    ∀ size, 1 ≤ size → size ≤ s.itemSizeMax →
      ClassFor classes size (slabsClsid s classes size)

/-- The sizes that the growth factor leads to, before they are rounded. -/
def Sizing.term (s : Sizing) : Nat → Nat
  | 0 => s.start
  | k + 1 => s.grow (alignUp (s.term k))

/-- Some class of the loop takes items of `item_size_max`: the last of `slab_sizes`, or one of
the first 62 sizes that the growth factor leads to. -/
def ReachesMax (s : Sizing) : Prop :=
  match s.slabSizes with
  | some sizes => ∃ last ∈ sizes.getLast?, last ≤ 2 ^ 20 ∧ s.itemSizeMax ≤ alignUp last
  | none => s.slabChunkSizeMax = s.itemSizeMax ∧ ∃ k < 62,
      s.term k < s.slabChunkSizeMax / s.factor ∧ alignUp (s.term k) = s.itemSizeMax

/-! ### Lookups -/

/-- The first class that is large enough, or the last one. -/
theorem seekClass_spec (size res : Nat) (classes : List ClassInit) (some_ : classes ≠ []) :
    ∃ before c after, classes = before ++ c :: after ∧
      seekClass size res classes = res + before.length ∧
      (∀ d ∈ before, d.size < size) ∧ (size ≤ c.size ∨ after = []) := by
  induction classes generalizing res with
  | nil => exact absurd rfl some_
  | cons c rest ih =>
    cases rest with
    | nil => exact ⟨[], c, [], rfl, rfl, by simp, .inr rfl⟩
    | cons d rest =>
      rw [seekClass]
      split
      next small =>
        obtain ⟨before, e, after, eq, found, less, fits⟩ := ih (res + 1) (by simp)
        refine ⟨c :: before, e, after, by rw [eq]; rfl, ?_, ?_, fits⟩
        · rw [found, List.length_cons]; omega
        · simpa using ⟨small, less⟩
      next fits => exact ⟨[], c, d :: rest, rfl, rfl, by simp, .inl (by omega)⟩
      · simp

theorem seekClass_classFor {size : Nat} {sizes : List Nat} {l : ClassInit}
    (enough : ∃ r ∈ sizes, size ≤ r) (small : ∀ r ∈ sizes, 0 < r ∧ r ≤ 2 ^ 20) :
    ClassFor (sizes.map .ofSize ++ [l]) size (seekClass size 1 (sizes.map .ofSize ++ [l])) := by
  obtain ⟨before, c, after, eq, found, less, fits⟩ :=
    seekClass_spec size 1 (sizes.map ClassInit.ofSize ++ [l]) (by simp)
  rw [found, eq]
  have here : c ∈ sizes.map ClassInit.ofSize := by
    rcases List.eq_nil_or_concat after with rfl | ⟨after, d, rfl⟩
    · -- All classes of the loop would be too small.
      obtain ⟨rfl, -⟩ := List.append_inj' eq rfl
      obtain ⟨r, member, le⟩ := enough
      have := less _ (List.mem_map_of_mem member)
      simp only [ClassInit.ofSize] at this
      omega
    · rw [List.concat_eq_append, ← List.cons_append, ← List.append_assoc] at eq
      rw [(List.append_inj' eq rfl).1]
      simp
  refine ⟨by omega, by simpa using less, c, by simp, ?_, ?_⟩
  · rcases fits with fits | rfl
    · exact .inl fits
    · exact .inr (by simp; omega)
  · obtain ⟨r, member, rfl⟩ := List.mem_map.mp here
    obtain ⟨pos, le⟩ := small r member
    exact ⟨rfl, Nat.div_pos (le.trans (by norm_num)) pos⟩

theorem exists_le_of_classFor {size : Nat} {sizes : List Nat} {l : ClassInit}
    (noTree : l.tree = false)
    (serves : ClassFor (sizes.map .ofSize ++ [l]) size
      (seekClass size 1 (sizes.map .ofSize ++ [l]))) : ∃ r ∈ sizes, size ≤ r := by
  obtain ⟨pos, -, c, found, fits, tree, -⟩ := serves
  rw [List.getElem?_append] at found
  split at found
  next inside =>
    obtain ⟨r, member, rfl⟩ := List.mem_map.mp (List.mem_of_getElem? found)
    rcases fits with fits | last
    · exact ⟨r, member, fits⟩
    · simp at last inside; omega
  next outside =>
    have : c = l := by
      have := List.mem_of_getElem? found
      simpa using this
    simp [this, noTree] at tree

/-! ### The loop -/

theorem alignUp_mono {a b : Nat} (le : a ≤ b) : alignUp a ≤ alignUp b := by
  unfold alignUp
  split <;> split <;> omega

theorem le_alignUp (a : Nat) : a ≤ alignUp a := by
  unfold alignUp
  split <;> omega

theorem alignUp_le {a b : Nat} (dvd : 8 ∣ b) (le : a ≤ b) : alignUp a ≤ b := by
  unfold alignUp
  split <;> omega

/-- The classes that sizes lead to, if none of them is rounded to 0. -/
def initAll (sizes : List Nat) : Option (List ClassInit) :=
  if ∀ r ∈ sizes, alignUp r % 2 ^ 32 ≠ 0 then some ((sizes.map alignUp).map .ofSize) else none

theorem initAll_cons (r : Nat) (sizes : List Nat) :
    initAll (r :: sizes) =
      (initClass (alignUp r)).bind fun c => (initAll sizes).map (c :: ·) := by
  rw [initAll, initAll, initClass]
  simp only [List.forall_mem_cons, List.map_cons]
  by_cases zero : alignUp r % 2 ^ 32 = 0
  · rw [if_pos zero, if_neg fun all => all.1 zero]
    rfl
  · rw [if_neg zero]
    split
    next all => rw [if_pos all.2]; rfl
    next some_ => rw [if_neg fun all => some_ ⟨zero, all⟩]; rfl

namespace Sizing

variable {s : Sizing}

theorem initLoop_list {l : List Nat} (listed : s.slabSizes = some l) (n size : Nat)
    (list : List Nat) (short : list.length ≤ n) (nonzero : ∀ r ∈ list, r ≠ 0) :
    s.initLoop n size list = initAll list := by
  induction n generalizing size list with
  | zero => simp_all [initLoop, initAll]
  | succ n ih =>
    cases list with
    | nil => simp [initLoop, next, listed, initAll]
    | cons r list =>
      obtain ⟨here, rest⟩ := List.forall_mem_cons.mp nonzero
      rw [initLoop, next, listed, initAll_cons]
      simp only [List.head?_cons, List.tail_cons]
      rw [Option.filter_some, if_pos (by simpa using here)]
      simp only [ih _ list (by simpa using short) rest]

/-- The sizes of the rounds from `k` on, up to the first that is too large. -/
def grownFrom (s : Sizing) (k n : Nat) : List Nat :=
  ((List.range' k n).map s.term).takeWhile fun r => ¬ s.slabChunkSizeMax / s.factor ≤ (r : ℚ)

theorem initLoop_factor (grown : s.slabSizes = none) (n k : Nat) :
    s.initLoop n (s.term k) [] = initAll (s.grownFrom k n) := by
  induction n generalizing k with
  | zero => simp [initLoop, initAll, grownFrom]
  | succ n ih =>
    rw [initLoop, next, grown, grownFrom, List.range'_succ, List.map_cons, List.takeWhile_cons]
    by_cases large : s.slabChunkSizeMax / s.factor ≤ s.term k
    · simp [large, initAll]
    · simp only [large, if_false, not_false_eq_true, decide_true, if_true, List.tail_nil,
        initAll_cons]
      rw [← grownFrom, ← ih (k + 1)]
      rfl

end Sizing

/-! ### Complete classes -/

variable {s : Sizing}

theorem largest_perslab (s : Sizing) : 1 ≤ s.largest.perslab := by
  obtain ⟨-, -, -, -, -, -, ⟨q, eq⟩, -⟩ := s.accepted
  have max : s.slabChunkSizeMax ≠ 0 := by rintro zero; simp [zero] at eq
  have quotient : (2 ^ 20 : Int).tdiv s.slabChunkSizeMax = q := by
    rw [eq, Int.mul_tdiv_cancel_left _ max]
  have bound : q.natAbs ∣ 2 ^ 20 := ⟨s.slabChunkSizeMax.natAbs, by
    rw [mul_comm, ← Int.natAbs_mul, ← eq]; rfl⟩
  have := Nat.le_of_dvd (by norm_num) bound
  have := Nat.pos_of_dvd_of_pos bound (by norm_num)
  simp only [Sizing.largest, quotient, toUnsigned]
  omega

theorem alignUp_le_page {r : Nat} : 0 < r ∧ r ≤ 2 ^ 20 ↔
    alignUp r % 2 ^ 32 ≠ 0 ∧ 1 ≤ 2 ^ 20 / alignUp r := by
  constructor
  · rintro ⟨pos, le⟩
    have lower := le_alignUp r
    have upper := alignUp_le (by norm_num) le
    exact ⟨by omega, Nat.div_pos upper (by omega)⟩
  · rintro ⟨nonzero, one⟩
    have lower := le_alignUp r
    have upper := (Nat.le_div_iff_mul_le (Nat.pos_of_ne_zero (by omega))).mp one
    refine ⟨Nat.pos_of_ne_zero ?_, by omega⟩
    rintro rfl
    exact nonzero rfl

theorem fullyInitialised_iff {raw : List Nat}
    (inits : s.slabsInit = (initAll raw).map (· ++ [s.largest])) :
    FullyInitialised s ↔ (∀ r ∈ raw, 0 < r ∧ r ≤ 2 ^ 20) ∧
      (raw.map alignUp ++ [toUnsigned s.slabChunkSizeMax]).Pairwise (· ≤ ·) ∧
      ∃ r ∈ raw, s.itemSizeMax ≤ alignUp r := by
  obtain ⟨-, -, low, -⟩ := s.accepted
  have sizes : (((raw.map alignUp).map ClassInit.ofSize ++ [s.largest]).map (·.size)) =
      raw.map alignUp ++ [toUnsigned s.slabChunkSizeMax] := by
    simp [ClassInit.ofSize, Sizing.largest]
  constructor
  · rintro ⟨classes, made, sorted, -, perslab, serves⟩
    rw [inits, initAll] at made
    split at made
    next nonzero =>
      cases made
      rw [sizes] at sorted
      have served := serves s.itemSizeMax (by omega) le_rfl
      rw [slabsClsid, if_neg (by omega)] at served
      refine ⟨fun r member => alignUp_le_page.mpr ⟨nonzero r member, ?_⟩, sorted, ?_⟩
      · exact perslab (.ofSize (alignUp r)) (by simp; exact .inl ⟨r, member, rfl⟩)
      · simpa using exists_le_of_classFor rfl served
    next => cases made
  · rintro ⟨small, sorted, r, member, enough⟩
    have small' := fun r member => alignUp_le_page.mp (small r member)
    refine ⟨_, by rw [inits, initAll, if_pos fun r member => (small' r member).1]; rfl,
      sizes ▸ sorted, by simp [Sizing.largest], ?_, fun size one le => ?_⟩
    · simp only [List.mem_append, List.mem_map, List.mem_singleton]
      rintro c (⟨_, ⟨r, member, rfl⟩, rfl⟩ | rfl)
      · exact (small' r member).2
      · exact largest_perslab s
    · rw [slabsClsid, if_neg (by omega)]
      refine seekClass_classFor ⟨_, List.mem_map_of_mem member, by omega⟩ fun q aligned => ?_
      obtain ⟨r, member, rfl⟩ := List.mem_map.mp aligned
      have := small r member
      have := le_alignUp r
      exact ⟨by omega, alignUp_le (by norm_num) (small r member).2⟩

/-! ### Lists of sizes -/

theorem parseSlabSizes_spec {lo hi last i : Nat} {l : List Nat}
    (parsed : parseSlabSizes lo hi last i l = true) :
    (last :: l).Pairwise (· < ·) ∧ i + l.length ≤ max i 62 ∧ ∀ r ∈ l, r ≤ hi := by
  induction l generalizing last i with
  | nil => simp
  | cons r l ih =>
    simp only [parseSlabSizes, decide_eq_true_eq] at parsed
    obtain ⟨-, le, less, -, few, rest⟩ := parsed
    obtain ⟨sorted, short, bounded⟩ := ih rest
    refine ⟨?_, ?_, by simpa using ⟨le, bounded⟩⟩
    · rw [List.pairwise_cons]
      refine ⟨fun q member => ?_, sorted⟩
      rcases List.mem_cons.mp member with rfl | member
      · exact less
      · exact less.trans (List.rel_of_pairwise_cons sorted member)
    · simp only [List.length_cons]; omega

theorem natAbs_max_dvd (s : Sizing) : s.slabChunkSizeMax.natAbs ∣ 2 ^ 20 := by
  obtain ⟨-, -, -, -, -, -, dvd, -⟩ := s.accepted
  exact Int.natAbs_dvd_natAbs.mpr dvd

/-- A negative `slab_chunk_size_max` is very large when it is converted. -/
theorem toUnsigned_max (s : Sizing) :
    (0 < s.slabChunkSizeMax → (toUnsigned s.slabChunkSizeMax : Int) = s.slabChunkSizeMax) ∧
      (¬ 0 < s.slabChunkSizeMax → 2 ^ 20 ≤ toUnsigned s.slabChunkSizeMax) := by
  have := Nat.le_of_dvd (by norm_num) (natAbs_max_dvd s)
  have := Nat.pos_of_dvd_of_pos (natAbs_max_dvd s) (by norm_num)
  simp only [toUnsigned]
  omega

theorem eight_dvd (s : Sizing) (large : 8 ≤ s.slabChunkSizeMax) :
    8 ∣ toUnsigned s.slabChunkSizeMax := by
  obtain ⟨k, -, eq⟩ := (Nat.dvd_prime_pow Nat.prime_two).mp (natAbs_max_dvd s)
  have three : 3 ≤ k := (Nat.pow_le_pow_iff_right (by norm_num : 1 < 2)).mp (by omega)
  have same : toUnsigned s.slabChunkSizeMax = 2 ^ k := by
    have := (toUnsigned_max s).1 (by omega)
    omega
  rw [same]
  exact pow_dvd_pow 2 three

theorem fullyInitialised_list {sizes : List Nat} (listed : s.slabSizes = some sizes) :
    FullyInitialised s ↔
      ∃ last ∈ sizes.getLast?, last ≤ 2 ^ 20 ∧ s.itemSizeMax ≤ alignUp last := by
  obtain ⟨-, -, low, -, -, -, -, parsed⟩ := s.accepted
  obtain ⟨sorted, short, bounded⟩ := parseSlabSizes_spec (parsed sizes listed)
  obtain ⟨positive, sorted⟩ := List.pairwise_cons.mp sorted
  have inits : s.slabsInit = (initAll sizes).map (· ++ [s.largest]) := by
    rw [Sizing.slabsInit, listed, Option.getD_some, Sizing.initLoop_list listed _ _ _ (by omega)
      fun r member => (positive r member).ne']
  rw [fullyInitialised_iff inits]
  rcases List.eq_nil_or_concat sizes with rfl | ⟨others, last, rfl⟩
  · simp
  simp only [List.concat_eq_append] at *
  have le_last : ∀ r ∈ others ++ [last], r ≤ last := by
    intro r member
    rcases List.mem_append.mp member with member | member
    · exact ((List.pairwise_append.mp sorted).2.2 r member last (by simp)).le
    · simp at member; omega
  constructor
  · rintro ⟨small, -, r, member, enough⟩
    exact ⟨last, by simp, (small last (by simp)).2,
      enough.trans (alignUp_mono (le_last r member))⟩
  · rintro ⟨_, isLast, page, enough⟩
    obtain rfl : last = _ := by simpa using isLast
    refine ⟨fun r member => ⟨positive r member, (le_last r member).trans page⟩, ?_,
      last, by simp, enough⟩
    have top : alignUp last ≤ toUnsigned s.slabChunkSizeMax := by
      have := bounded last (by simp)
      by_cases pos : 0 < s.slabChunkSizeMax
      · have same := (toUnsigned_max s).1 pos
        refine alignUp_le (eight_dvd s ?_) this
        by_contra few
        have := alignUp_le (b := 8) (by norm_num) (show last ≤ 8 by omega)
        omega
      · exact (alignUp_le (by norm_num) page).trans ((toUnsigned_max s).2 pos)
    refine List.pairwise_append.mpr ⟨?_, by simp, ?_⟩
    · rw [List.pairwise_map]
      exact sorted.imp fun less => alignUp_mono less.le
    · simp only [List.mem_map, List.mem_singleton]
      rintro _ ⟨r, member, rfl⟩ _ rfl
      exact (alignUp_mono (le_last r member)).trans top

/-! ### Growing sizes -/

theorem alignUp_term_le (s : Sizing) (k : Nat) : alignUp (s.term k) ≤ s.term (k + 1) := by
  obtain ⟨grows, -⟩ := s.accepted
  exact Nat.le_floor (le_mul_of_one_le_right (by positivity) grows.le)

theorem term_mono (s : Sizing) : Monotone s.term :=
  monotone_nat_of_le_succ fun k => (le_alignUp _).trans (alignUp_term_le s k)

theorem mem_grownFrom (s : Sizing) (k n r : Nat) :
    r ∈ s.grownFrom k n ↔
      ∃ i < n, s.term (k + i) < s.slabChunkSizeMax / s.factor ∧ s.term (k + i) = r := by
  induction n generalizing k with
  | zero => simp [Sizing.grownFrom]
  | succ n ih =>
    rw [Sizing.grownFrom, List.range'_succ, List.map_cons, List.takeWhile_cons,
      ← Sizing.grownFrom]
    split
    next small =>
      rw [List.mem_cons, ih, Nat.exists_lt_succ_left]
      simp only [decide_eq_true_eq, not_le] at small
      simp [small, eq_comm, add_assoc, add_comm 1]
    next large =>
      simp only [decide_eq_true_eq, not_le, not_lt] at large
      simp only [List.not_mem_nil, false_iff]
      rintro ⟨i, -, less, -⟩
      exact absurd less (not_lt.mpr (large.trans (by exact_mod_cast term_mono s (by omega))))

theorem term_of_zero (zero : s.start = 0) (k : Nat) : s.term k = 0 := by
  induction k with
  | zero => exact zero
  | succ k ih => simp [Sizing.term, ih, Sizing.grow, alignUp]

theorem fullyInitialised_factor (grown : s.slabSizes = none) :
    FullyInitialised s ↔ s.slabChunkSizeMax = s.itemSizeMax ∧ ∃ k < 62,
      s.term k < s.slabChunkSizeMax / s.factor ∧ alignUp (s.term k) = s.itemSizeMax := by
  obtain ⟨grows, -, low, -, le, -, dvd, -⟩ := s.accepted
  have inits : s.slabsInit = (initAll (s.grownFrom 0 62)).map (· ++ [s.largest]) := by
    rw [Sizing.slabsInit, grown, Option.getD_none, ← Sizing.initLoop_factor grown]
    rfl
  have below : ∀ {k}, (s.term k : ℚ) < s.slabChunkSizeMax / s.factor →
      (s.term k : Int) < s.slabChunkSizeMax := by
    intro k less
    rw [lt_div_iff₀ (by linarith)] at less
    have : (s.term k : ℚ) ≤ s.term k * s.factor := le_mul_of_one_le_right (by positivity) grows.le
    exact_mod_cast this.trans_lt less
  have member : ∀ r, r ∈ s.grownFrom 0 62 ↔
      ∃ k < 62, s.term k < s.slabChunkSizeMax / s.factor ∧ s.term k = r := by
    simpa only [zero_add] using mem_grownFrom s 0 62
  rw [fullyInitialised_iff inits]
  constructor
  · rintro ⟨-, sorted, r, here, enough⟩
    have top := (List.pairwise_append.mp sorted).2.2 _ (List.mem_map_of_mem here) _
      (List.mem_singleton_self _)
    obtain ⟨k, small, less, rfl⟩ := (member r).mp here
    have := below less
    have := (toUnsigned_max s).1 (by omega)
    exact ⟨by omega, k, small, less, by omega⟩
  · rintro ⟨max, k, small, less, reached⟩
    have same := (toUnsigned_max s).1 (by omega)
    have page := Nat.le_of_dvd (by norm_num) (natAbs_max_dvd s)
    have positive : 0 < s.start := by
      refine Nat.pos_of_ne_zero fun zero => ?_
      rw [term_of_zero zero] at reached
      simp [alignUp] at reached
      omega
    refine ⟨fun r here => ?_, List.pairwise_append.mpr ⟨?_, by simp, ?_⟩, _,
      (member _).mpr ⟨k, small, less, rfl⟩, reached.ge⟩
    · obtain ⟨j, -, less, rfl⟩ := (member r).mp here
      have := below less
      exact ⟨positive.trans_le (term_mono s (Nat.zero_le j)), by omega⟩
    · rw [List.pairwise_map]
      refine List.Pairwise.sublist (List.takeWhile_sublist _) ?_
      rw [List.pairwise_map]
      exact (List.pairwise_lt_range' _).imp fun less => alignUp_mono (term_mono s less.le)
    · simp only [List.mem_map, List.mem_singleton]
      rintro _ ⟨r, here, rfl⟩ _ rfl
      obtain ⟨j, -, less, rfl⟩ := (member r).mp here
      have := below less
      exact alignUp_le (eight_dvd s (by omega)) (by omega)

/-- **All classes in use are complete exactly if the loop gets to `item_size_max`.** For all
settings that `main` accepts: the class sizes do not decrease and end with
`slab_chunk_size_max`, every class has a chunk to a page, and `slabs_clsid` finds for every
size up to `item_size_max` the least class, which has a tree and a capacity, if and only if
the last of `slab_sizes`, or one of the first 62 sizes of the growth, is rounded to
`item_size_max`. -/
theorem classes_complete_iff (s : Sizing) : FullyInitialised s ↔ ReachesMax s := by
  cases listed : s.slabSizes with
  | none => simpa only [ReachesMax, listed] using fullyInitialised_factor listed
  | some sizes => simpa only [ReachesMax, listed] using fullyInitialised_list listed

def defaultSizing : Sizing where
  factor := 5 / 4
  chunkSize := 48
  itemSizeMax := 1048576
  slabChunkSizeMax := 1048576
  slabSizes := none
  accepted := by norm_num [Accepts]; simp

/-- Items of 900000 bytes are in class 41, which has no tree: to put one that is evicted into
the shadow queue, `insert_shadowq_item` locks a tree at address 0. -/
theorem last_class_is_incomplete :
    (defaultSizing.slabsInit.map fun classes =>
      (classes.length, slabsClsid defaultSizing classes 900000, classes[40]?)) =
        some (41, 41, some ⟨1048576, 1, false, 0⟩) ∧ ¬ FullyInitialised defaultSizing := by
  rw [fullyInitialised_factor rfl]
  decide +kernel

end MemExchange.Slabs
