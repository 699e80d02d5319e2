import Mathlib

/-!
# Page tables of slab classes

A slab class keeps its pages in four parallel arrays, of which the first `slabs` entries are in use.
Indexes are `int`s, and one of them is -1 while no page has been picked, so the arrays are functions
on `Int`: index -1 is the word in front of the array. Pages have numbers, one for each mapping and
one for each array of remote items.
-/
namespace MemExchange.Slabs

open Function (update_apply update)

/-- `n--` on an `unsigned int`. -/
def decr (n : Nat) : Nat := if n = 0 then 2 ^ 32 - 1 else n - 1

/-- An `int` as C compares it with an `unsigned int`. -/
def asUnsigned (x : Int) : Nat := if x < 0 then (2 ^ 32 + x).toNat else x.toNat

/-- The page arrays of `slabclass_t`. -/
structure PageTable where
  slabs : Nat := 0
  slabList : Int → Option Nat := fun _ => none
  hits : Int → Nat := fun _ => 0
  rkey : Int → Nat := fun _ => 0
  conn : Int → Option Nat := fun _ => none

structure Entry where
  page : Option Nat
  hits : Nat
  rkey : Nat
  conn : Option Nat
  deriving DecidableEq, Repr

namespace PageTable

def entry (t : PageTable) (i : Int) : Entry := ⟨t.slabList i, t.hits i, t.rkey i, t.conn i⟩

def entries (t : PageTable) : List Entry := (List.range t.slabs).map fun i : Nat => t.entry i

/-- `slab_list[slabs++] = page`, and nothing else: a page that is moved between classes
finds in the other arrays what was there. -/
def place (t : PageTable) (page : Option Nat) : PageTable :=
  { t with slabs := t.slabs + 1, slabList := update t.slabList t.slabs page }

/-- The same with `rkey` and `conn` of the new entry. -/
def attach (t : PageTable) (page : Option Nat) (rkey : Nat) (conn : Option Nat) : PageTable :=
  { t.place page with
    rkey := update t.rkey t.slabs rkey
    conn := update t.conn t.slabs conn }

/-- Entry `x` becomes entry `x + 1`. -/
def copyDown (t : PageTable) (x : Int) : PageTable :=
  { t with
    slabList := update t.slabList x (t.slabList (x + 1))
    hits := update t.hits x (t.hits (x + 1))
    rkey := update t.rkey x (t.rkey (x + 1))
    conn := update t.conn x (t.conn (x + 1)) }

/-- `n` rounds of the loop that closes the gap, from entry `x` on. -/
def shift (t : PageTable) (x : Int) : Nat → PageTable
  | 0 => t
  | n + 1 => (t.copyDown x).shift (x + 1) n

def clear (t : PageTable) (x : Int) : PageTable :=
  { t with
    slabList := update t.slabList x none
    hits := update t.hits x 0
    rkey := update t.rkey x 0
    conn := update t.conn x none }

/-- How often the loop runs when entry `idx` of a table that had `slabs` entries is taken
out. The loop compares its `int` with the `unsigned` count, so from -1 it does not run. -/
def rounds (slabs : Nat) (idx : Int) : Nat := decr slabs - asUnsigned idx

/-- The page removal of `slab_rebalance_finish`. -/
def remove (t : PageTable) (idx : Int) : PageTable :=
  ({ t with slabs := decr t.slabs }.shift idx (rounds t.slabs idx)).clear (decr t.slabs)

section Entries

variable (t : PageTable) {idx : Nat} (x : Int) (n : Nat) (i : Int)

theorem copyDown_entry : (t.copyDown x).entry i = if i = x then t.entry (x + 1) else t.entry i := by
  simp only [entry, copyDown, update_apply]
  split <;> rfl

theorem clear_entry : (t.clear x).entry i = if i = x then ⟨none, 0, 0, none⟩ else t.entry i := by
  simp only [entry, clear, update_apply]
  split <;> rfl

@[simp] theorem shift_slabs : (t.shift x n).slabs = t.slabs := by
  induction n generalizing t x with
  | zero => rfl
  | succ n ih => exact ih (t.copyDown x) (x + 1)

/-- The loop moves down what stands above its range, once. -/
theorem shift_entry :
    (t.shift x n).entry i = if x ≤ i ∧ i < x + n then t.entry (i + 1) else t.entry i := by
  induction n generalizing t x with
  | zero =>
    rw [shift, if_neg (by omega)]
  | succ n ih =>
    rw [shift, ih, copyDown_entry, copyDown_entry]
    -- round `x` writes entry `x`, and no later round reads or writes it
    by_cases here : i = x
    · rw [if_neg (by omega), if_pos here, if_pos (by push_cast; omega), here]
    · rw [if_neg here]
      by_cases inside : x + 1 ≤ i ∧ i < x + 1 + n
      · rw [if_pos inside, if_neg (by omega), if_pos (by push_cast; omega)]
      · rw [if_neg inside, if_neg (by push_cast; omega)]

@[simp] theorem remove_slabs (idx : Int) : (t.remove idx).slabs = decr t.slabs :=
  shift_slabs _ _ _

theorem length_entries : t.entries.length = t.slabs := by simp [entries]

theorem getElem_entries (i : Nat) (inside : i < t.entries.length) : t.entries[i] = t.entry i := by
  simp [entries]

theorem remove_entry {i : Nat} (inside : idx < t.slabs) (bound : i < t.slabs - 1) :
    (t.remove idx).entry i = if i < idx then t.entry i else t.entry ((i + 1 : Nat) : Int) := by
  have last : decr t.slabs = t.slabs - 1 := if_neg (by omega)
  have count : rounds t.slabs idx = t.slabs - 1 - idx := by
    rw [rounds, last, asUnsigned, if_neg (by omega), Int.toNat_natCast]
  rw [remove, clear_entry, if_neg (by omega), shift_entry, count]
  by_cases before : i < idx
  · rw [if_neg (by omega), if_pos before]; rfl
  · rw [if_pos (by omega), if_neg before]; push_cast; rfl

theorem entries_remove (inside : idx < t.slabs) :
    (t.remove idx).entries = t.entries.eraseIdx idx := by
  have last : decr t.slabs = t.slabs - 1 := if_neg (by omega)
  refine List.ext_getElem ?_ fun i short long => ?_
  · rw [length_entries, remove_slabs, last, List.length_eraseIdx, length_entries, if_pos inside]
  · have bound : i < t.slabs - 1 := by rw [length_entries, remove_slabs, last] at short; exact short
    rw [getElem_entries, t.remove_entry inside bound, List.getElem_eraseIdx]
    split <;> rw [getElem_entries]

end Entries

end PageTable

end MemExchange.Slabs
