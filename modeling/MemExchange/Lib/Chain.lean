import Mathlib

/-!
# Chained hash tables

An array of buckets, each a chain of entries. New entries go to the head of their chain
and a lookup answers the first entry with the key, so an older entry with the same key is
hidden, not replaced.
-/

theorem List.sum_map_modify {α : Type} (measure : α → Nat) (f : α → α) (l : List α) (i : Nat)
    (inside : i < l.length) :
    ((l.modify i f).map measure).sum + measure l[i] = (l.map measure).sum + measure (f l[i]) := by
  induction l generalizing i with
  | nil => simp at inside
  | cons a l ih =>
    cases i with
    | zero => simp only [List.modify_zero_cons, List.map_cons, List.sum_cons,
        List.getElem_cons_zero]; omega
    | succ i =>
      have below : i < l.length := by simpa using inside
      have tail := ih i below
      simp only [List.modify_succ_cons, List.map_cons, List.sum_cons, List.getElem_cons_succ]
      omega

/-- Apply `g` to the first element that satisfies `p`. -/
def List.modifyFirst {α : Type} (p : α → Bool) (g : α → α) : List α → List α
  | [] => []
  | a :: l => if p a then g a :: l else a :: modifyFirst p g l

/-- The array of buckets; it is never empty, so every hash has a bucket. -/
structure Chain (ε : Type) where
  buckets : List (List ε)
  nonempty : 0 < buckets.length

namespace Chain

variable {κ ε : Type} [DecidableEq κ] (hash : κ → Nat) (keyOf : ε → κ)

/-- A table of `n + 1` empty buckets. -/
def empty (n : Nat) : Chain ε := ⟨List.replicate (n + 1) [], by simp⟩

variable (t : Chain ε) (k : κ)

def slot : Nat := hash k % t.buckets.length

def chain : List ε := t.buckets.getD (slot hash t k) []

def alter (f : List ε → List ε) : Chain ε :=
  ⟨t.buckets.modify (slot hash t k) f, by simpa using t.nonempty⟩

/-- The first entry of the key's chain that has the key. -/
def find : Option ε := (chain hash t k).find? fun e => keyOf e = k

def insert (e : ε) : Chain ε := alter hash t (keyOf e) (e :: ·)

/-- Take the first entry with the key out of its chain. -/
def delete : Chain ε := alter hash t k (List.eraseP fun e => keyOf e = k)

/-- Rewrite the first entry with the key in place. -/
def update (g : ε → ε) : Chain ε :=
  alter hash t k (List.modifyFirst (fun e => keyOf e = k) g)

def copies : Nat := (chain hash t k).countP fun e => keyOf e = k

/-- How many entries of the whole table satisfy a test. -/
def total (p : ε → Bool) (t : Chain ε) : Nat := (t.buckets.map (List.countP p)).sum

/-! ### Chains of an altered table -/

section Alter

variable (f : List ε → List ε)

omit [DecidableEq κ] in
theorem slot_lt : slot hash t k < t.buckets.length := Nat.mod_lt _ t.nonempty

omit [DecidableEq κ] in
theorem chain_alter (k' : κ) : chain hash (alter hash t k f) k'
      = if slot hash t k' = slot hash t k then f (chain hash t k') else chain hash t k' := by
  have same : slot hash (alter hash t k f) k' = slot hash t k' := by simp [slot, alter]
  have inside := slot_lt hash t k'
  rw [chain, same, chain, List.getD_eq_getElem?_getD, List.getD_eq_getElem?_getD]
  by_cases here : slot hash t k' = slot hash t k
  · simp [alter, here, here ▸ inside]
  · simp [alter, here, Ne.symm here]

omit [DecidableEq κ] in
theorem chain_alter_self : chain hash (alter hash t k f) k = f (chain hash t k) := by
  simp [chain_alter]

omit [DecidableEq κ] in
theorem chain_eq_getElem : chain hash t k = t.buckets.get ⟨slot hash t k, slot_lt hash t k⟩ := by
  simp [chain, List.getD_eq_getElem?_getD, List.getElem?_eq_getElem (slot_lt hash t k)]

omit [DecidableEq κ] in
theorem chain_mem : chain hash t k ∈ t.buckets := by
  rw [chain_eq_getElem]
  exact List.getElem_mem _

omit [DecidableEq κ] in
/-- Only what is done to the chain itself counts. -/
theorem alter_congr {f g : List ε → List ε} (same : f (chain hash t k) = g (chain hash t k)) :
    alter hash t k f = alter hash t k g := by
  unfold alter
  congr 1
  refine List.ext_getElem? fun i => ?_
  rw [List.getElem?_modify, List.getElem?_modify]
  split
  next here =>
    subst here
    rw [chain_eq_getElem] at same
    rw [List.getElem?_eq_getElem (slot_lt hash t k)]
    exact congrArg some same
  next => rfl

omit [DecidableEq κ] in
theorem total_alter (p : ε → Bool) : total p (alter hash t k f) + (chain hash t k).countP p
      = total p t + (f (chain hash t k)).countP p := by
  rw [chain_eq_getElem]
  exact List.sum_map_modify (List.countP p) f t.buckets (slot hash t k) (slot_lt hash t k)

end Alter

/-! ### What the operations do to a chain -/

section Chains

variable {keyOf} (l : List ε) (q : ε → Bool)

theorem find?_eraseP_other {k k' : κ} (other : k' ≠ k) :
    (l.eraseP fun e => keyOf e = k).find? (fun e => keyOf e = k')
      = l.find? (fun e => keyOf e = k') := by
  induction l with
  | nil => rfl
  | cons e l ih =>
    by_cases here : keyOf e = k
    · simp [here, Ne.symm other]
    · rw [List.eraseP_cons_of_neg (by simpa using here), List.find?_cons, List.find?_cons, ih]

theorem find?_modifyFirst (k k' : κ) {g : ε → ε} (keeps : ∀ e, keyOf (g e) = keyOf e) :
    (l.modifyFirst (fun e => keyOf e = k) g).find? (fun e => keyOf e = k')
      = if k' = k then (l.find? fun e => keyOf e = k).map g
        else l.find? fun e => keyOf e = k' := by
  induction l with
  | nil => simp [List.modifyFirst]
  | cons e l ih =>
    by_cases here : keyOf e = k
    · by_cases same : k' = k
      · simp [List.modifyFirst, here, same, keeps]
      · simp [List.modifyFirst, here, same, keeps, Ne.symm same]
    · by_cases same : k' = k
      · simpa [List.modifyFirst, here, same] using ih.trans (if_pos same)
      · by_cases found : keyOf e = k'
        · simp [List.modifyFirst, same, found]
        · simpa [List.modifyFirst, here, same, found] using ih.trans (if_neg same)

theorem countP_eraseP (p q : ε → Bool) :
    (l.eraseP q).countP p + (if (l.find? q).any p then 1 else 0) = l.countP p := by
  induction l with
  | nil => simp
  | cons e l ih =>
    cases here : q e with
    | true => simp [here, List.countP_cons]
    | false =>
      rw [List.eraseP_cons_of_neg (by simp [here]), List.find?_cons_of_neg (by simp [here]),
        List.countP_cons, List.countP_cons]
      omega

theorem countP_modifyFirst (p q : ε → Bool) (g : ε → ε) :
    (l.modifyFirst q g).countP p + (if (l.find? q).any p then 1 else 0)
      = l.countP p + (if (l.find? q).any (p ∘ g) then 1 else 0) := by
  induction l with
  | nil => simp [List.modifyFirst]
  | cons e l ih =>
    cases here : q e with
    | true => simp only [List.modifyFirst, here, if_true, List.find?_cons, List.countP_cons,
        Option.any_some, Function.comp]; omega
    | false =>
      simp only [List.modifyFirst, here, List.find?_cons, List.countP_cons]
      simp only [Bool.false_eq_true, if_false, List.countP_cons]
      omega

theorem find?_isSome_iff_countP : (l.find? q).isSome ↔ 0 < l.countP q := by
  rw [List.find?_isSome, List.countP_pos_iff]

theorem any_find?_self : (l.find? q).any q = (l.find? q).isSome := by
  cases found : l.find? q with
  | none => rfl
  | some e => simpa using List.find?_some found

end Chains

/-! ### Lookups, copies and totals after an operation -/

section Operations

variable {t k} {hash keyOf} {e : ε} {g : ε → ε} {p : ε → Bool}

theorem find_key (found : find hash keyOf t k = some e) : keyOf e = k := by
  simpa using List.find?_some found

theorem mem_of_find (found : find hash keyOf t k = some e) :
    ∃ bucket ∈ t.buckets, e ∈ bucket := by
  exact ⟨chain hash t k, chain_mem hash t k, List.mem_of_find?_eq_some found⟩

theorem find_eq_none_iff : find hash keyOf t k = none ↔ copies hash keyOf t k = 0 := by
  have counted := find?_isSome_iff_countP (chain hash t k) fun e => keyOf e = k
  rw [← Option.not_isSome_iff_eq_none, find, counted, copies]
  omega

theorem find_insert (t : Chain ε) (e : ε) (k : κ) : find hash keyOf (insert hash keyOf t e) k
      = if keyOf e = k then some e else find hash keyOf t k := by
  rw [find, insert, chain_alter]
  by_cases here : keyOf e = k
  · simp [here]
  · by_cases bucket : slot hash t k = slot hash t (keyOf e) <;> simp [bucket, here, find]

theorem copies_insert (t : Chain ε) (e : ε) (k : κ) : copies hash keyOf (insert hash keyOf t e) k
      = copies hash keyOf t k + if keyOf e = k then 1 else 0 := by
  rw [copies, insert, chain_alter]
  by_cases here : keyOf e = k
  · simp [here, copies]
  · by_cases bucket : slot hash t k = slot hash t (keyOf e) <;> simp [bucket, here, copies]

omit [DecidableEq κ] in
theorem total_insert (hash : κ → Nat) (keyOf : ε → κ) (p : ε → Bool) (t : Chain ε) (e : ε) :
    total p (insert hash keyOf t e) = total p t + if p e then 1 else 0 := by
  have altered := total_alter hash t (keyOf e) (e :: ·) p
  rw [List.countP_cons] at altered
  rw [insert]
  omega

theorem find_delete_of_ne (t : Chain ε) {k' : κ} (other : k' ≠ k) :
    find hash keyOf (delete hash keyOf t k) k' = find hash keyOf t k' := by
  rw [find, delete, chain_alter]
  split
  · exact find?_eraseP_other _ other
  · rfl

theorem copies_delete_self (t : Chain ε) (k : κ) :
    copies hash keyOf (delete hash keyOf t k) k = copies hash keyOf t k - 1 := by
  rw [copies, delete, chain_alter_self, copies]
  have erased := countP_eraseP (chain hash t k) (fun e => keyOf e = k) (fun e => keyOf e = k)
  have counted := find?_isSome_iff_countP (chain hash t k) fun e => keyOf e = k
  rw [any_find?_self] at erased
  split at erased
  · omega
  · next missing =>
    have := mt counted.mpr missing
    omega

theorem copies_delete_le (t : Chain ε) (k k' : κ) :
    copies hash keyOf (delete hash keyOf t k) k' ≤ copies hash keyOf t k' := by
  rw [copies, delete, chain_alter]
  split
  · exact List.Sublist.countP_le List.eraseP_sublist
  · exact Nat.le_refl _

theorem find_delete_self (single : copies hash keyOf t k ≤ 1) :
    find hash keyOf (delete hash keyOf t k) k = none := by
  rw [find_eq_none_iff, copies_delete_self]
  omega

theorem find_delete_of_none (k' : κ) (none_ : find hash keyOf t k = none) :
    find hash keyOf (delete hash keyOf t k') k = none := by
  rw [find_eq_none_iff] at none_ ⊢
  have less : copies hash keyOf (delete hash keyOf t k') k ≤ copies hash keyOf t k :=
    copies_delete_le t k' k
  omega

theorem total_delete (hash : κ → Nat) (keyOf : ε → κ) (p : ε → Bool) (t : Chain ε) (k : κ) :
    total p (delete hash keyOf t k) + (if (find hash keyOf t k).any p then 1 else 0)
      = total p t := by
  have altered := total_alter hash t k (List.eraseP fun e => keyOf e = k) p
  have erased := countP_eraseP (chain hash t k) p fun e => keyOf e = k
  rw [delete, find]
  omega

theorem find_update (t : Chain ε) (k k' : κ) (keeps : ∀ e, keyOf (g e) = keyOf e) :
    find hash keyOf (update hash keyOf t k g) k'
      = if k' = k then (find hash keyOf t k).map g else find hash keyOf t k' := by
  rw [find, update, chain_alter]
  by_cases bucket : slot hash t k' = slot hash t k
  · rw [if_pos bucket, find?_modifyFirst _ k k' keeps]
    by_cases same : k' = k
    · subst same; rfl
    · rw [if_neg same, if_neg same]; rfl
  · have other : k' ≠ k := fun same => bucket (same ▸ rfl)
    rw [if_neg bucket, if_neg other]
    rfl

theorem copies_update (t : Chain ε) (k k' : κ) (keeps : ∀ e, keyOf (g e) = keyOf e) :
    copies hash keyOf (update hash keyOf t k g) k' = copies hash keyOf t k' := by
  rw [copies, update, chain_alter]
  split
  · have modified := countP_modifyFirst (chain hash t k') (fun e => keyOf e = k')
      (fun e => keyOf e = k) g
    simp only [Function.comp_def, keeps] at modified
    rw [copies]
    omega
  · rfl

theorem total_update (hash : κ → Nat) (keyOf : ε → κ) (p : ε → Bool) (t : Chain ε) (k : κ)
    (keeps : ∀ e, p (g e) = p e) : total p (update hash keyOf t k g) = total p t := by
  have altered := total_alter hash t k
    (List.modifyFirst (fun e => keyOf e = k) g) p
  have modified := countP_modifyFirst (chain hash t k) p (fun e => keyOf e = k) g
  rw [show p ∘ g = p from funext keeps] at modified
  rw [update]
  omega

theorem total_eq_zero_iff : total p t = 0 ↔ ∀ bucket ∈ t.buckets, ∀ e ∈ bucket, p e = false := by
  rw [total, List.sum_eq_zero_iff_forall_eq_nat]
  simp

theorem total_mono {q : ε → Bool}
    (weaker : ∀ bucket ∈ t.buckets, ∀ e ∈ bucket, p e = true → q e = true) :
    total p t ≤ total q t :=
  List.sum_le_sum fun bucket inside => List.countP_mono_left (weaker bucket inside)

theorem total_ne_zero_of_find (found : find hash keyOf t k = some e) (passes : p e = true) :
    total p t ≠ 0 := by
  have deleted := total_delete hash keyOf p t k
  rw [found, Option.any_some, if_pos passes] at deleted
  omega

theorem find_empty (n : Nat) (k : κ) : find hash keyOf (empty n : Chain ε) k = none := by
  have bare : chain hash (empty n : Chain ε) k = [] := by
    rw [chain, List.getD_eq_getElem?_getD]
    exact List.getElem?_getD_replicate_default_eq ..
  rw [find, bare, List.find?_nil]

end Operations

end Chain
