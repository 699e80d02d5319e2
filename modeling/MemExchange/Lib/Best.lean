import Mathlib

/-!
# Keeping the best so far

A loop looks at one candidate after the other and remembers the first one with the highest key. It
starts with a key that a candidate has to exceed, and nothing remembered.
-/
namespace Best

variable {α κ : Type} [LinearOrder κ]

structure Leader (α κ : Type) where
  key : κ
  candidate : Option α := none
  deriving DecidableEq

def consider (key : α → κ) (b : Leader α κ) (x : α) : Leader α κ :=
  if b.key < key x then ⟨key x, some x⟩ else b

def scan (key : α → κ) (b : Leader α κ) (xs : List α) : Leader α κ := xs.foldl (consider key) b

section Scan

variable {key : α → κ} {b : Leader α κ} {x : α} {xs ys : List α}

@[simp] theorem scan_nil : scan key b [] = b := rfl

@[simp] theorem scan_cons : scan key b (x :: xs) = scan key (consider key b x) xs := rfl

theorem scan_append : scan key b (xs ++ ys) = scan key (scan key b xs) ys := List.foldl_append

theorem consider_of_lt (better : b.key < key x) : consider key b x = ⟨key x, some x⟩ := if_pos better

theorem consider_of_le (worse : key x ≤ b.key) : consider key b x = b := if_neg (not_lt.mpr worse)

theorem scan_of_le (worse : ∀ x ∈ xs, key x ≤ b.key) : scan key b xs = b := by
  induction xs with
  | nil => rfl
  | cons x xs ih =>
    rw [scan_cons, consider_of_le (worse x List.mem_cons_self)]
    exact ih fun y mem => worse y (List.mem_cons_of_mem x mem)

theorem le_consider : b.key ≤ (consider key b x).key := by
  by_cases better : b.key < key x
  · rw [consider_of_lt better]
    exact le_of_lt better
  · rw [consider_of_le (not_lt.mp better)]

theorem key_le_consider : key x ≤ (consider key b x).key := by
  by_cases better : b.key < key x
  · rw [consider_of_lt better]
  · rw [consider_of_le (not_lt.mp better)]
    exact not_lt.mp better

theorem le_scan : b.key ≤ (scan key b xs).key := by
  induction xs generalizing b with
  | nil => exact le_rfl
  | cons x xs ih => exact le_trans le_consider ih

theorem key_le_scan (key : α → κ) (b : Leader α κ) (mem : x ∈ xs) : key x ≤ (scan key b xs).key := by
  induction xs generalizing b with
  | nil => cases mem
  | cons y xs ih =>
    rcases List.mem_cons.mp mem with rfl | later
    · exact le_trans key_le_consider le_scan
    · exact ih _ later

theorem scan_cases (key : α → κ) (b : Leader α κ) (xs : List α) :
    scan key b xs = b ∨ ∃ x ∈ xs, scan key b xs = ⟨key x, some x⟩ := by
  induction xs generalizing b with
  | nil => exact .inl rfl
  | cons x xs ih =>
    rcases ih (consider key b x) with stays | ⟨y, mem, found⟩
    · by_cases better : b.key < key x
      · rw [consider_of_lt better] at stays
        refine .inr ⟨x, List.mem_cons_self, ?_⟩
        rwa [scan_cons, consider_of_lt better]
      · rw [consider_of_le (not_lt.mp better)] at stays
        refine .inl ?_
        rwa [scan_cons, consider_of_le (not_lt.mp better)]
    · exact .inr ⟨y, List.mem_cons_of_mem x mem, found⟩

/-- If some candidate exceeds the key of the start, the leader is a candidate with the highest key of
all. -/
theorem scan_picks (key : α → κ) (b : Leader α κ) (exceeds : ∃ x ∈ xs, b.key < key x) :
    ∃ x ∈ xs, scan key b xs = ⟨key x, some x⟩ ∧ ∀ y ∈ xs, key y ≤ key x := by
  obtain ⟨z, mem, better⟩ := exceeds
  rcases scan_cases key b xs with stays | ⟨x, own, found⟩
  · have := key_le_scan key b mem
    rw [stays] at this
    exact absurd better (not_lt.mpr this)
  · refine ⟨x, own, found, fun y other => ?_⟩
    have := key_le_scan key b other
    rwa [found] at this

end Scan

end Best
