import MemExchange.Lib.Run

/-!
# The hash table of items

`assoc_expand` makes an empty table of twice the size the primary one, and the maintenance thread
moves the old table into it one bucket at a time. The bucket an item is moved to is an `int`: with
more than `2 ^ 31` buckets an item whose hash has the highest bit set is moved to memory in front
of the array.
-/
namespace MemExchange.Assoc

open Function (update_of_ne update_self update_apply update)

def hashsize (n : Nat) : Nat := 2 ^ n

/-- `hv & hashmask(n)`. -/
def masked (hv : UInt32) (n : Nat) : Nat := hv.toNat % hashsize n

/-- A value that is assigned to an `int`. -/
def toInt (n : Nat) : Int := (UInt32.ofNat n).toInt32.toInt

inductive Slot where
  | old (bucket : Int)
  | primary (bucket : Int)
  deriving DecidableEq, Repr

/-- The globals of `assoc.c`. A chain is the list of its items. -/
structure Table (ε : Type) where
  hashpower : Nat
  primaryHashtable : Int → List ε := fun _ => []
  oldHashtable : Int → List ε := fun _ => []
  hashItems : UInt32 := 0
  expanding : Bool := false
  startedExpanding : Bool := false
  expandBucket : UInt32 := 0

namespace Table

variable {κ ε : Type} [DecidableEq κ] (hash : κ → UInt32) (keyOf : ε → κ) (t : Table ε)

def chain : Slot → List ε
  | .old bucket => t.oldHashtable bucket
  | .primary bucket => t.primaryHashtable bucket

def setChain : Slot → List ε → Table ε
  | .old bucket, l => { t with oldHashtable := update t.oldHashtable bucket l }
  | .primary bucket, l => { t with primaryHashtable := update t.primaryHashtable bucket l }

def slot (hv : UInt32) : Slot :=
  if t.expanding ∧ t.expandBucket.toNat ≤ masked hv (t.hashpower - 1) then
    .old (masked hv (t.hashpower - 1))
  else .primary (masked hv t.hashpower)

/-- `assoc_find`. -/
def find (k : κ) : Option ε := (t.chain (t.slot (hash k))).find? fun e => keyOf e = k

/-- `assoc_insert`. -/
def insert (e : ε) : Table ε :=
  let s := t.slot (hash (keyOf e))
  let t := t.setChain s (e :: t.chain s)
  let t := { t with hashItems := t.hashItems + 1 }
  if t.expanding = false ∧ t.hashItems.toNat > hashsize t.hashpower * 3 / 2 then
    { t with startedExpanding := true }
  else t

/-- `assoc_delete` of a key that is there. -/
def delete (k : κ) : Table ε :=
  let s := t.slot (hash k)
  { t.setChain s ((t.chain s).eraseP fun e => keyOf e = k) with hashItems := t.hashItems - 1 }

/-- `assoc_expand`, which may get no memory. -/
def expand (memory : Bool) : Table ε :=
  if memory then
    { t with
      oldHashtable := t.primaryHashtable
      primaryHashtable := fun _ => []
      hashpower := t.hashpower + 1
      expanding := true
      expandBucket := 0 }
  else { t with startedExpanding := false }

/-- One item moves to its bucket of the primary table. -/
def moveItem (e : ε) : Table ε :=
  let bucket := toInt (masked (hash (keyOf e)) t.hashpower)
  { t with
    primaryHashtable :=
      update t.primaryHashtable bucket (e :: t.primaryHashtable bucket) }

/-- One round of `assoc_maintenance_thread` that gets the lock of its bucket. -/
def migrate : Table ε :=
  let bucket : Int := t.expandBucket.toNat
  let t := (t.oldHashtable bucket).foldl (moveItem hash keyOf) t
  let t := { t with
    oldHashtable := update t.oldHashtable bucket []
    expandBucket := t.expandBucket + 1 }
  if t.expandBucket.toNat = hashsize (t.hashpower - 1) then
    { t with expanding := false, startedExpanding := false }
  else t

end Table

/-! ### Runs -/

variable {κ ε : Type} [DecidableEq κ]

/-- The table, and the item that was inserted last for each key and not deleted since. -/
structure World (κ ε : Type) where
  table : Table ε
  live : κ → Option ε := fun _ => none

inductive Action (κ ε : Type) where
  | insert (e : ε)
  | delete (k : κ)
  | expand (memory : Bool)
  | migrate

/-- Keys are inserted while they are not present and deleted while they are; the maintenance thread
expands a table that is not expanding and migrates one that is. -/
def step (hash : κ → UInt32) (keyOf : ε → κ) (w : World κ ε) : Action κ ε → Option (World κ ε)
  | .insert e =>
    if (w.live (keyOf e)).isNone then
      some ⟨w.table.insert hash keyOf e, update w.live (keyOf e) (some e)⟩
    else none
  | .delete k =>
    if (w.live k).isSome then some ⟨w.table.delete hash keyOf k, update w.live k none⟩
    else none
  | .expand memory =>
    if w.table.expanding = false then some { w with table := w.table.expand memory } else none
  | .migrate => if w.table.expanding then some { w with table := w.table.migrate hash keyOf } else none

def World.initial (κ : Type) {ε : Type} (hashpower : Nat) : World κ ε := { table := { hashpower } }

/-- A lookup finds what is there; every item that is there is in one chain, once, and nothing else
is in any; and outside an expansion each item is in its primary bucket. -/
structure IsMap (hash : κ → UInt32) (keyOf : ε → κ) (w : World κ ε) : Prop where
  found : ∀ k, w.table.find hash keyOf k = w.live k
  once : ∀ k e, w.live k = some e → ∃ s, (w.table.chain s).countP (fun e' => keyOf e' = k) = 1 ∧
    e ∈ w.table.chain s ∧ ∀ s', s' ≠ s → (w.table.chain s').countP (fun e' => keyOf e' = k) = 0
  gone : ∀ k, w.live k = none → ∀ s, (w.table.chain s).countP (fun e => keyOf e = k) = 0
  settled : w.table.expanding = false → ∀ k e, w.live k = some e →
    e ∈ w.table.primaryHashtable (masked (hash k) w.table.hashpower)

/-- The condition on a step: the table that results from an expansion has at most `2 ^ 31` buckets. -/
def Indexable (w : World κ ε) : Action κ ε → Prop
  | .expand true => w.table.hashpower ≤ 30
  | _ => True

/-! ### The invariant -/

/-- Every item is in the chain in which it is looked for, once, and in no other. -/
structure Inv (hash : κ → UInt32) (keyOf : ε → κ) (w : World κ ε) : Prop where
  located : ∀ s, ∀ e ∈ w.table.chain s, w.table.slot (hash (keyOf e)) = s
  holds : ∀ k, (w.table.chain (w.table.slot (hash k))).filter (fun e => keyOf e = k) = (w.live k).toList
  small : w.table.expanding = true → 1 ≤ w.table.hashpower ∧ w.table.hashpower ≤ 31 ∧
    w.table.expandBucket.toNat < hashsize (w.table.hashpower - 1)

/-! ### Chains after an operation -/

section Lists

variable {p q : ε → Bool} {l : List ε}

theorem filter_eraseP_self (p : ε → Bool) (l : List ε) :
    (l.eraseP p).filter p = (l.filter p).tail := by
  induction l with
  | nil => rfl
  | cons a l ih =>
    cases here : p a with
    | true => rw [List.eraseP_cons_of_pos here, List.filter_cons_of_pos here, List.tail_cons]
    | false =>
      have off : ¬ p a = true := by rw [here]; simp
      rw [List.eraseP_cons_of_neg off, List.filter_cons_of_neg off, List.filter_cons_of_neg off, ih]

theorem filter_eraseP_of_disjoint (disjoint : ∀ e, p e = true → q e = false) (l : List ε) :
    (l.eraseP p).filter q = l.filter q := by
  induction l with
  | nil => rfl
  | cons a l ih =>
    cases here : p a with
    | true =>
      have off : ¬ q a = true := by rw [disjoint a here]; simp
      rw [List.eraseP_cons_of_pos here, List.filter_cons_of_neg off]
    | false =>
      have off : ¬ p a = true := by rw [here]; simp
      rw [List.eraseP_cons_of_neg off, List.filter_cons, List.filter_cons, ih]

theorem filter_reverse_filter (p q : ε → Bool) (l : List ε) :
    ((l.filter q).reverse).filter p = ((l.filter p).filter q).reverse := by
  rw [List.filter_reverse, List.filter_comm]

end Lists

namespace Table

variable (hash : κ → UInt32) (keyOf : ε → κ) (t : Table ε)

omit [DecidableEq κ]

theorem chain_setChain (s s' : Slot) (l : List ε) :
    (t.setChain s l).chain s' = if s' = s then l else t.chain s' := by
  cases s <;> cases s' <;> simp [setChain, chain, update_apply]

theorem setChain_fields (s : Slot) (l : List ε) : (t.setChain s l).expanding = t.expanding ∧
    (t.setChain s l).hashpower = t.hashpower ∧ (t.setChain s l).expandBucket = t.expandBucket := by
  cases s <;> exact ⟨rfl, rfl, rfl⟩

theorem insert_fields (e : ε) : (t.insert hash keyOf e).expanding = t.expanding ∧
    (t.insert hash keyOf e).hashpower = t.hashpower ∧
    (t.insert hash keyOf e).expandBucket = t.expandBucket := by
  have fields := setChain_fields t (t.slot (hash (keyOf e))) (e :: t.chain (t.slot (hash (keyOf e))))
  unfold insert
  dsimp only
  split <;> exact fields

theorem delete_fields [DecidableEq κ] (k : κ) : (t.delete hash keyOf k).expanding = t.expanding ∧
    (t.delete hash keyOf k).hashpower = t.hashpower ∧
    (t.delete hash keyOf k).expandBucket = t.expandBucket :=
  setChain_fields t _ _

theorem slot_congr {t t' : Table ε} (same : t'.expanding = t.expanding ∧ t'.hashpower = t.hashpower ∧
    t'.expandBucket = t.expandBucket) (hv : UInt32) : t'.slot hv = t.slot hv := by
  unfold slot
  rw [same.1, same.2.1, same.2.2]

theorem chain_insert (e : ε) (s : Slot) : (t.insert hash keyOf e).chain s =
    if s = t.slot (hash (keyOf e)) then e :: t.chain s else t.chain s := by
  have added : (t.insert hash keyOf e).chain s =
      (t.setChain (t.slot (hash (keyOf e))) (e :: t.chain (t.slot (hash (keyOf e))))).chain s := by
    unfold insert
    dsimp only
    split <;> cases s <;> rfl
  rw [added, chain_setChain]
  split
  next here => rw [here]
  · rfl

theorem chain_delete [DecidableEq κ] (k : κ) (s : Slot) : (t.delete hash keyOf k).chain s =
    if s = t.slot (hash k) then (t.chain s).eraseP (fun e => keyOf e = k) else t.chain s := by
  have removed : (t.delete hash keyOf k).chain s = (t.setChain (t.slot (hash k))
      ((t.chain (t.slot (hash k))).eraseP fun e => keyOf e = k)).chain s := by
    cases s <;> rfl
  rw [removed, chain_setChain]
  split
  next here => rw [here]
  · rfl

/-- Items are moved to the front of their buckets, so they come out in reverse. -/
theorem moveItems_eq (l : List ε) : l.foldl (moveItem hash keyOf) t =
    { t with primaryHashtable := fun c =>
      (l.filter fun e => toInt (masked (hash (keyOf e)) t.hashpower) = c).reverse ++ t.primaryHashtable c } := by
  induction l generalizing t with
  | nil => rfl
  | cons e l ih =>
    rw [List.foldl_cons, ih]
    simp only [moveItem]
    congr 1
    funext c
    by_cases here : toInt (masked (hash (keyOf e)) t.hashpower) = c
    · subst here
      rw [update_self, List.filter_cons_of_pos (by simp), List.reverse_cons, List.append_assoc]
      rfl
    · rw [update_of_ne (Ne.symm here), List.filter_cons_of_neg (by simpa using here)]
      rfl

end Table

theorem toInt_of_lt {n : Nat} (small : n < 2 ^ 31) : toInt n = n := by
  have value : (UInt32.ofNat n).toBitVec.toNat = n :=
    UInt32.toNat_ofNat_of_lt (Nat.lt_trans small (by decide))
  change (UInt32.ofNat n).toBitVec.toInt = n
  rw [BitVec.toInt_eq_toNat_of_lt (by rw [value]; omega), value]

theorem masked_lt (hv : UInt32) (n : Nat) : masked hv n < 2 ^ n := Nat.mod_lt _ (Nat.two_pow_pos n)

/-! ### Migration of one bucket -/

section Migrate

variable (hash : κ → UInt32) (keyOf : ε → κ) {t : Table ε} (expanding : t.expanding = true)
  (small : t.hashpower ≤ 31) (inside : t.expandBucket.toNat < hashsize (t.hashpower - 1))

omit [DecidableEq κ]

namespace Table

theorem slot_old_iff (expanding : t.expanding = true) {hv : UInt32} {b : Int} : t.slot hv = .old b ↔
    t.expandBucket.toNat ≤ masked hv (t.hashpower - 1) ∧ (masked hv (t.hashpower - 1) : Int) = b := by
  unfold slot
  split
  next waits => simp [waits.2]
  next moved =>
    have : ¬ t.expandBucket.toNat ≤ masked hv (t.hashpower - 1) := fun waits => moved ⟨expanding, waits⟩
    simp [this]

theorem chain_migrate_old (b : Int) : (t.migrate hash keyOf).chain (.old b) =
    if b = t.expandBucket.toNat then [] else t.chain (.old b) := by
  have moved : (t.migrate hash keyOf).oldHashtable =
      update t.oldHashtable t.expandBucket.toNat [] := by
    simp only [migrate, moveItems_eq]
    split <;> rfl
  change (t.migrate hash keyOf).oldHashtable b = _
  rw [moved, update_apply]
  rfl

include small in
theorem chain_migrate_primary (b : Int) : (t.migrate hash keyOf).chain (.primary b) =
    ((t.chain (.old t.expandBucket.toNat)).filter fun e =>
      (masked (hash (keyOf e)) t.hashpower : Int) = b).reverse ++ t.chain (.primary b) := by
  have nonneg : ∀ e, toInt (masked (hash (keyOf e)) t.hashpower) = masked (hash (keyOf e)) t.hashpower :=
    fun e => toInt_of_lt (Nat.lt_of_lt_of_le (masked_lt _ _) (Nat.pow_le_pow_right (by decide) small))
  have moved : (t.migrate hash keyOf).primaryHashtable b =
      ((t.oldHashtable t.expandBucket.toNat).filter fun e =>
        toInt (masked (hash (keyOf e)) t.hashpower) = b).reverse ++ t.primaryHashtable b := by
    simp only [migrate, moveItems_eq]
    split <;> rfl
  simp only [nonneg] at moved
  exact moved

include expanding small inside

theorem migrate_fields : (t.migrate hash keyOf).hashpower = t.hashpower ∧
    (t.migrate hash keyOf).expandBucket.toNat = t.expandBucket.toNat + 1 ∧
    ((t.migrate hash keyOf).expanding = true ↔
      t.expandBucket.toNat + 1 ≠ hashsize (t.hashpower - 1)) := by
  have next : (t.expandBucket + 1).toNat = t.expandBucket.toNat + 1 := by
    have bound : hashsize (t.hashpower - 1) ≤ 2 ^ 31 := Nat.pow_le_pow_right (by decide) (by omega)
    rw [UInt32.toNat_add]
    exact Nat.mod_eq_of_lt (by change t.expandBucket.toNat + 1 < 2 ^ 32; omega)
  simp only [migrate, moveItems_eq, next]
  split
  next done => exact ⟨rfl, next, by simp [done]⟩
  next more => exact ⟨rfl, next, by simp [expanding, more]⟩

theorem slot_migrate (hv : UInt32) : (t.migrate hash keyOf).slot hv =
    if masked hv (t.hashpower - 1) = t.expandBucket.toNat then .primary (masked hv t.hashpower)
    else t.slot hv := by
  obtain ⟨power, bucket, goesOn⟩ := migrate_fields hash keyOf expanding small inside
  have below : masked hv (t.hashpower - 1) < hashsize (t.hashpower - 1) := masked_lt _ _
  unfold slot
  rw [power, bucket]
  by_cases here : masked hv (t.hashpower - 1) = t.expandBucket.toNat
  · rw [if_pos here, if_neg]
    rintro ⟨-, waits⟩
    omega
  · rw [if_neg here]
    refine if_congr ?_ rfl rfl
    rw [goesOn]
    constructor
    · rintro ⟨-, waits⟩
      exact ⟨expanding, by omega⟩
    · rintro ⟨-, waits⟩
      exact ⟨by omega, by omega⟩

end Table

end Migrate

/-! ### Steps -/

section Steps

variable {hash : κ → UInt32} {keyOf : ε → κ} {w : World κ ε}

section

variable (inv : Inv hash keyOf w)
include inv

theorem Inv.slot_eq {s : Slot} {e : ε} {k : κ} (member : e ∈ w.table.chain s)
    (has : keyOf e = k) : w.table.slot (hash k) = s := by
  rw [← has]
  exact inv.located s e member

theorem Inv.filter_elsewhere {s : Slot} {k : κ}
    (elsewhere : w.table.slot (hash k) ≠ s) : (w.table.chain s).filter (fun e => keyOf e = k) = [] := by
  rw [List.filter_eq_nil_iff]
  intro e member has
  exact elsewhere (inv.slot_eq member (of_decide_eq_true has))

theorem Inv.insert {e : ε} (new : w.live (keyOf e) = none) :
    Inv hash keyOf ⟨w.table.insert hash keyOf e, update w.live (keyOf e) (some e)⟩ := by
  refine ⟨fun s x member => ?_, fun k => ?_, ?_⟩
  · rw [Table.chain_insert] at member
    rw [Table.slot_congr (Table.insert_fields ..)]
    split at member
    next here =>
      rcases List.mem_cons.mp member with rfl | old
      · exact here.symm
      · exact inv.located s x old
    · exact inv.located s x member
  · dsimp only
    rw [Table.slot_congr (Table.insert_fields ..), Table.chain_insert]
    have before := inv.holds k
    by_cases same : k = keyOf e
    · subst same
      rw [if_pos rfl, List.filter_cons_of_pos (by simp), before, new, update_self]
      rfl
    · rw [update_of_ne same, ← before]
      split
      · rw [List.filter_cons_of_neg (by simpa using Ne.symm same)]
      · rfl
  · obtain ⟨expanding, power, bucket⟩ := w.table.insert_fields hash keyOf e
    dsimp only
    rw [expanding, power, bucket]
    exact inv.small

theorem Inv.delete {k : κ} {e : ε} (there : w.live k = some e) :
    Inv hash keyOf ⟨w.table.delete hash keyOf k, update w.live k none⟩ := by
  refine ⟨fun s x member => ?_, fun k' => ?_, ?_⟩
  · rw [Table.chain_delete] at member
    rw [Table.slot_congr (Table.delete_fields ..)]
    split at member
    · exact inv.located s x (List.mem_of_mem_eraseP member)
    · exact inv.located s x member
  · dsimp only
    rw [Table.slot_congr (Table.delete_fields ..), Table.chain_delete]
    have before := inv.holds k'
    by_cases same : k' = k
    · subst same
      rw [if_pos rfl, filter_eraseP_self, before, there, update_self]
      rfl
    · rw [update_of_ne same, ← before]
      split
      · refine filter_eraseP_of_disjoint (fun x mine => ?_) _
        have mine : keyOf x = k := by simpa using mine
        simpa [mine] using Ne.symm same
      · rfl
  · obtain ⟨expanding, power, bucket⟩ := w.table.delete_fields hash keyOf k
    dsimp only
    rw [expanding, power, bucket]
    exact inv.small

theorem Inv.expand (memory : Bool) (idle : w.table.expanding = false)
    (indexable : memory = true → w.table.hashpower ≤ 30) :
    Inv hash keyOf { w with table := w.table.expand memory } := by
  cases memory with
  | false => exact ⟨inv.located, inv.holds, inv.small⟩
  | true =>
    have primary : ∀ hv, w.table.slot hv = .primary (masked hv w.table.hashpower) := fun hv => by
      simp [Table.slot, idle]
    have old : ∀ hv, (w.table.expand true).slot hv = .old (masked hv w.table.hashpower) := fun hv => by
      simp [Table.slot, Table.expand]
    refine ⟨fun s e member => ?_, fun k => ?_, fun _ => ⟨?_, ?_, ?_⟩⟩
    · rw [old]
      cases s with
      | primary b => cases member
      | old b =>
        -- the old table is the one that was primary
        have located := inv.located (.primary b) e member
        rw [primary] at located
        cases located
        rfl
    · dsimp only
      rw [old]
      have before := inv.holds k
      rwa [primary] at before
    · exact Nat.succ_le_succ (Nat.zero_le _)
    · exact Nat.succ_le_succ (indexable rfl)
    · exact Nat.two_pow_pos _

theorem Inv.migrate (expanding : w.table.expanding = true) :
    Inv hash keyOf { w with table := w.table.migrate hash keyOf } := by
  obtain ⟨positive, small, inside⟩ := inv.small expanding
  have slot := Table.slot_migrate hash keyOf expanding small inside
  -- the keys of the bucket are those that are looked for in it
  have mine : ∀ {hv}, masked hv (w.table.hashpower - 1) = w.table.expandBucket.toNat ↔
      w.table.slot hv = .old w.table.expandBucket.toNat := by
    intro hv
    rw [Table.slot_old_iff expanding]
    constructor
    · intro here
      exact ⟨by omega, by rw [here]⟩
    · rintro ⟨-, here⟩
      exact Int.ofNat_inj.mp here
  refine ⟨fun s e member => ?_, fun k => ?_, fun goesOn => ?_⟩
  · dsimp only at member ⊢
    rw [slot]
    cases s with
    | old b =>
      rw [Table.chain_migrate_old] at member
      split at member
      · cases member
      next other =>
        have located := inv.located (.old b) e member
        rwa [if_neg fun here => other (Slot.old.inj (located.symm.trans (mine.mp here)))]
    | primary b =>
      rw [Table.chain_migrate_primary hash keyOf small, List.mem_append, List.mem_reverse, List.mem_filter] at member
      rcases member with ⟨moved, goes⟩ | stays
      · have located := inv.located (.old w.table.expandBucket.toNat) e moved
        rw [if_pos (mine.mpr located)]
        exact congrArg Slot.primary (of_decide_eq_true goes)
      · have located := inv.located (.primary b) e stays
        rwa [if_neg fun here => by rw [mine.mp here] at located; cases located]
  · dsimp only
    have before := inv.holds k
    rw [slot]
    by_cases here : masked (hash k) (w.table.hashpower - 1) = w.table.expandBucket.toNat
    · have was := mine.mp here
      rw [was] at before
      rw [if_pos here, Table.chain_migrate_primary hash keyOf small, List.filter_append,
        inv.filter_elsewhere (by rw [was]; simp), List.append_nil, filter_reverse_filter, before]
      -- whatever has the key goes to the bucket of the key
      cases there : w.live k with
      | none => rfl
      | some e =>
        have member : e ∈ (w.table.chain (.old w.table.expandBucket.toNat)).filter fun e => keyOf e = k := by
          rw [before, there]
          exact List.mem_singleton_self e
        have has : keyOf e = k := of_decide_eq_true (List.mem_filter.mp member).2
        rw [Option.toList_some, List.filter_cons_of_pos (by simp [has]), List.filter_nil]
        rfl
    · have other : w.table.slot (hash k) ≠ .old w.table.expandBucket.toNat := fun was => here (mine.mpr was)
      rw [if_neg here]
      cases there : w.table.slot (hash k) with
      | old b =>
        rw [there] at before other
        rw [Table.chain_migrate_old, if_neg fun same => other (congrArg Slot.old same), before]
      | primary b =>
        have stay : (w.table.chain (.old w.table.expandBucket.toNat)).filter (fun e => keyOf e = k) = [] :=
          inv.filter_elsewhere other
        rw [there] at before
        rw [Table.chain_migrate_primary hash keyOf small, List.filter_append, filter_reverse_filter,
          stay, before]
        rfl
  · obtain ⟨power, next, more⟩ := Table.migrate_fields hash keyOf expanding small inside
    have notDone := more.mp goesOn
    dsimp only
    rw [power, next]
    exact ⟨positive, small, by omega⟩

end

/-- Every step keeps the items in the bucket of their hash, during an expansion too. -/
theorem inv_step (w : World κ ε) (action : Action κ ε) (w' : World κ ε) (inv : Inv hash keyOf w)
    (indexable : Indexable w action) (called : step hash keyOf w action = some w') :
    Inv hash keyOf w' := by
  cases action with
  | insert e =>
    obtain ⟨new, ⟨⟩⟩ := Option.ite_none_right_eq_some.mp called
    exact inv.insert (Option.isNone_iff_eq_none.mp new)
  | delete k =>
    obtain ⟨there, ⟨⟩⟩ := Option.ite_none_right_eq_some.mp called
    obtain ⟨e, there⟩ := Option.isSome_iff_exists.mp there
    exact inv.delete there
  | expand memory =>
    obtain ⟨idle, ⟨⟩⟩ := Option.ite_none_right_eq_some.mp called
    exact inv.expand memory idle (by rintro rfl; exact indexable)
  | migrate =>
    obtain ⟨expanding, ⟨⟩⟩ := Option.ite_none_right_eq_some.mp called
    exact inv.migrate expanding

theorem Inv.initial (hash : κ → UInt32) (keyOf : ε → κ) (hashpower : Nat) :
    Inv hash keyOf (World.initial κ hashpower) where
  located s e member := by cases s <;> cases member
  holds k := by rfl
  small expanding := by cases expanding

/-! ### The table is a map -/

theorem Inv.isMap (inv : Inv hash keyOf w) : IsMap hash keyOf w where
  found k := by
    have holds := congrArg List.head? (inv.holds k)
    rw [List.head?_filter] at holds
    rw [Table.find, holds]
    cases w.live k <;> rfl
  once k e there := by
    have holds := inv.holds k
    rw [there, Option.toList_some] at holds
    have member : e ∈ (w.table.chain (w.table.slot (hash k))).filter fun e => keyOf e = k := by
      rw [holds]
      exact List.mem_singleton_self e
    refine ⟨w.table.slot (hash k), ?_, (List.mem_filter.mp member).1, fun s other => ?_⟩
    · rw [List.countP_eq_length_filter, holds]
      rfl
    · rw [List.countP_eq_length_filter, inv.filter_elsewhere (Ne.symm other)]
      rfl
  gone k away s := by
    rw [List.countP_eq_length_filter]
    by_cases here : w.table.slot (hash k) = s
    · rw [← here, inv.holds, away]
      rfl
    · rw [inv.filter_elsewhere here]
      rfl
  settled idle k e there := by
    have primary : w.table.slot (hash k) = .primary (masked (hash k) w.table.hashpower) := by
      simp [Table.slot, idle]
    have holds := inv.holds k
    rw [primary, there] at holds
    have member : e ∈ (w.table.chain (.primary (masked (hash k) w.table.hashpower))).filter
        fun e => keyOf e = k := by
      rw [holds]
      exact List.mem_singleton_self e
    exact (List.mem_filter.mp member).1

end Steps

/-- **The hash table is a map through its expansions**, as long as each leads to at most `2 ^ 31`
buckets. -/
theorem table_is_map_of_indexable (hash : κ → UInt32) (keyOf : ε → κ) (hashpower : Nat)
    (run : List (Action κ ε)) (indexable : Run.Along (step hash keyOf) Indexable (.initial κ hashpower) run) :
    Run.Always (step hash keyOf) (IsMap hash keyOf) (.initial κ hashpower) run :=
  Run.always_mono (fun _ inv => inv.isMap)
    (Run.always_of_invariant inv_step (.initial hash keyOf hashpower) indexable)

instance (w : World κ ε) (action : Action κ ε) : Decidable (Indexable w action) := by
  cases action with
  | expand memory => cases memory <;> unfold Indexable <;> infer_instance
  | _ => unfold Indexable; infer_instance

/-- Keys are numbers and their own hash values; an item is its key and its value. -/
def numbers : Nat → UInt32 := UInt32.ofNat

/-- Two buckets become four while items come and go: bucket 0 has moved, bucket 1 has not. -/
def growing : List (Action Nat (Nat × String)) :=
  [.insert (1, "one"), .insert (2, "two"), .insert (3, "three"), .insert (4, "four"), .expand true,
    .migrate, .insert (5, "five"), .delete 2, .delete 3, .insert (6, "six"), .migrate, .insert (3, "again")]

theorem growing_table_is_map :
    (Run.exec (step numbers Prod.fst) (.initial Nat 1) growing).map (fun w =>
        (w.table.expanding, [1, 2, 3, 4, 5, 6].map (w.table.find numbers Prod.fst)))
      = some (false, [some (1, "one"), none, some (3, "again"), some (4, "four"), some (5, "five"),
        some (6, "six")]) ∧
    Run.Always (step numbers Prod.fst) (IsMap numbers Prod.fst) (.initial Nat 1) growing :=
  ⟨by decide +kernel, table_is_map_of_indexable numbers Prod.fst 1 growing (by decide +kernel)⟩

/-- A table of `2 ^ 31` buckets doubles, and the bucket of one item moves. -/
def doubling : List (Action Nat (Nat × String)) := [.insert (2 ^ 31, "high"), .expand true, .migrate]

/-- The item was moved to bucket `-2 ^ 31` and is looked for in bucket `2 ^ 31`. -/
theorem migration_loses_item :
    ∃ w, Run.exec (step numbers Prod.fst) (.initial Nat 31) doubling = some w ∧
      w.live (2 ^ 31) = some (2 ^ 31, "high") ∧ w.table.find numbers Prod.fst (2 ^ 31) = none ∧
      w.table.primaryHashtable (-2 ^ 31) = [(2 ^ 31, "high")] ∧ ¬ IsMap numbers Prod.fst w := by
  refine ⟨_, rfl, rfl, by decide +kernel, by decide +kernel, fun isMap => ?_⟩
  exact absurd (isMap.found (2 ^ 31)) (by decide +kernel)

end MemExchange.Assoc
