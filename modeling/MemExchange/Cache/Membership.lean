import MemExchange.Cache.Segments

/-!
# Every linked item is in one LRU list

Each function of `items.c` keeps two facts. The lists hold the linked items, each in the list of its
`slabs_clsid`. And a reference count is the number of references, with one more for a linked item.
`tail_repair_time` breaks the second fact, and with it the first: a chunk that is freed under a
reference is freed once more when the reference is given up.
-/
namespace MemExchange.Segments

open Cache (Lru)
open Function (update_of_ne update_self update_eq_self update_idem update_eq_self_iff update)

variable {n : Nat}

/-- The lists hold the items that are `on` one, and are counted. -/
structure Filed (on : Fin n → Bool) (f : UInt8 → List (Fin n)) (s : Memory n) : Prop where
  rep : s.lists.Rep f
  mem : ∀ e i, e ∈ f i ↔ on e = true ∧ (s.items e).slabsClsid = i
  size : ∀ i, (s.sizes i).toNat = (f i).length
  bytes : ∀ i, (s.sizesBytes i).toNat = ((f i).map fun e => (s.items e).ntotal).sum

/-- References are counted, and free chunks have none. -/
structure Counted (refs : Fin n → Nat) (items : Fin n → Item) : Prop where
  count : ∀ e, (items e).refcount.toNat = (if (items e).flags.linked then 1 else 0) + refs e
  free : ∀ e, (items e).flags.slabbed = true → (items e).refcount = 0

structure Inv (refs : Fin n → Nat) (s : Memory n) : Prop where
  filed : ∃ f, Filed (fun e => (s.items e).flags.linked) f s
  counted : Counted refs s.items

theorem Item.ntotal_lt (it : Item) : it.ntotal < 2 ^ 32 := by
  have key := it.nkey.toNat_lt
  have suffix := it.nsuffix.toNat_lt
  have bytes := it.nbytes.isLt
  unfold ntotal
  split <;> omega

section Lists

variable {on on' : Fin n → Bool} {f : UInt8 → List (Fin n)} {s : Memory n} {e : Fin n}

theorem Filed.congr (filed : Filed on f s) (same : ∀ e, on' e = on e) : Filed on' f s :=
  ⟨filed.rep, fun e i => by rw [filed.mem, same], filed.size, filed.bytes⟩

theorem Filed.modify (filed : Filed on f s) {g : Item → Item}
    (keeps : on e = true → (g (s.items e)).slabsClsid = (s.items e).slabsClsid ∧
      (g (s.items e)).ntotal = (s.items e).ntotal) : Filed on f (s.modify e g) := by
  have same : ∀ x, on x = true → ((s.modify e g).items x).slabsClsid = (s.items x).slabsClsid ∧
      ((s.modify e g).items x).ntotal = (s.items x).ntotal := by
    intro x isOn
    by_cases equal : x = e
    · subst equal
      rw [Memory.modify_self]
      exact keeps isOn
    · rw [Memory.modify_of_ne s e equal]
      exact ⟨rfl, rfl⟩
  refine ⟨filed.rep, fun x i => ?_, filed.size, fun i => ?_⟩
  · rw [filed.mem]
    refine and_congr_right fun isOn => ?_
    rw [(same x isOn).1]
  · refine (filed.bytes i).trans (congrArg List.sum (List.map_congr_left fun x inside => ?_))
    exact (same x ((filed.mem x i).mp inside).1).2.symm

theorem Filed.rewire (filed : Filed on f s) (prev next : Fin n → Option (Fin n))
    (same : ∀ x, on x = true → prev x = s.lists.prev x ∧ next x = s.lists.next x) :
    Filed on f { s with lists := { s.lists with prev := prev, next := next } } := by
  refine ⟨filed.rep.congr rfl rfl fun i x inside => ?_, filed.mem, filed.size, filed.bytes⟩
  exact same x ((filed.mem x i).mp inside).1

variable {l : List (Fin n)}

theorem length_le_of_nodup (nodup : l.Nodup) : l.length ≤ n := by
  have bound := nodup.length_le_card
  rwa [Fintype.card_fin] at bound

theorem sum_ntotal_lt (items : Fin n → Item) (nodup : l.Nodup) (few : n < 2 ^ 32) :
    (l.map fun e => (items e).ntotal).sum < 2 ^ 64 := by
  have each : ∀ x ∈ l.map (fun e => (items e).ntotal), x ≤ 2 ^ 32 - 1 := by
    intro x inside
    obtain ⟨e, -, rfl⟩ := List.mem_map.mp inside
    exact Nat.le_pred_of_lt (items e).ntotal_lt
  have total := List.sum_le_card_nsmul _ _ each
  rw [List.length_map] at total
  calc (l.map fun e => (items e).ntotal).sum ≤ l.length * (2 ^ 32 - 1) := total
    _ ≤ (2 ^ 32 - 1) * (2 ^ 32 - 1) :=
        Nat.mul_le_mul_right _ ((length_le_of_nodup nodup).trans (Nat.le_pred_of_lt few))
    _ < 2 ^ 64 := by decide

theorem Filed.linkQ (filed : Filed on f s) (few : n < 2 ^ 32) (off : on e = false) :
    Filed (update on e true)
      (update f (s.items e).slabsClsid (e :: f (s.items e).slabsClsid)) (s.doItemLinkQ e) := by
  set c := (s.items e).slabsClsid with c_eq
  have new : ∀ i, e ∉ f i := fun i inside => by
    have isOn := ((filed.mem e i).mp inside).1
    simp [off] at isOn
  have nodup : (e :: f c).Nodup := List.nodup_cons.mpr ⟨new c, (filed.rep.list c).nodup⟩
  refine ⟨filed.rep.link new c, fun x i => ?_, fun i => ?_, fun i => ?_⟩
  · rw [Memory.doItemLinkQ_items]
    by_cases isE : x = e
    · subst isE
      rw [update_self]
      by_cases isC : i = c
      · rw [isC, update_self]
        simp [← c_eq]
      · rw [update_of_ne isC, ← c_eq]
        simp [new, Ne.symm isC]
    · rw [update_of_ne isE, ← filed.mem]
      by_cases isC : i = c
      · rw [isC, update_self]
        simp [isE]
      · rw [update_of_ne isC]
  · by_cases isC : i = c
    · rw [isC, update_self]
      have before := filed.size c
      have bound := length_le_of_nodup nodup
      change (update s.sizes c (s.sizes c + 1) c).toNat = _
      rw [update_self, UInt32.toNat_add, before, List.length_cons] at *
      exact Nat.mod_eq_of_lt (Nat.lt_of_le_of_lt bound few)
    · rw [update_of_ne isC, ← filed.size i]
      exact congrArg UInt32.toNat (update_of_ne isC ..)
  · by_cases isC : i = c
    · rw [isC, update_self]
      have bound := sum_ntotal_lt s.items nodup few
      change (update s.sizesBytes c (s.sizesBytes c + UInt64.ofNat (s.items e).ntotal) c).toNat = _
      have fits : (UInt64.ofNat (s.items e).ntotal).toNat = (s.items e).ntotal :=
        UInt64.toNat_ofNat_of_lt' (Nat.lt_trans (s.items e).ntotal_lt (by decide))
      rw [List.map_cons, List.sum_cons] at bound
      rw [update_self, UInt64.toNat_add, filed.bytes, fits, Memory.doItemLinkQ_items,
        List.map_cons, List.sum_cons, Nat.add_comm]
      exact Nat.mod_eq_of_lt bound
    · rw [update_of_ne isC, Memory.doItemLinkQ_items, ← filed.bytes i]
      exact congrArg UInt64.toNat (update_of_ne isC ..)

theorem Filed.unlinkQ (filed : Filed on f s) (isOn : on e = true) :
    Filed (update on e false)
      (update f (s.items e).slabsClsid ((f (s.items e).slabsClsid).erase e))
      (s.doItemUnlinkQ e) := by
  set c := (s.items e).slabsClsid with c_eq
  have member : e ∈ f c := (filed.mem e c).mpr ⟨isOn, rfl⟩
  have nodup := (filed.rep.list c).nodup
  refine ⟨filed.rep.unlink member, fun x i => ?_, fun i => ?_, fun i => ?_⟩
  · rw [Memory.doItemUnlinkQ_items]
    by_cases isE : x = e
    · subst isE
      rw [update_self]
      have out : x ∉ update f c ((f c).erase x) i := by
        by_cases isC : i = c
        · rw [isC, update_self]
          exact nodup.not_mem_erase
        · rw [update_of_ne isC]
          exact fun inside => isC (filed.rep.apart inside member)
      simp [out]
    · rw [update_of_ne isE, ← filed.mem]
      by_cases isC : i = c
      · rw [isC, update_self]
        exact List.mem_erase_of_ne isE
      · rw [update_of_ne isC]
  · by_cases isC : i = c
    · rw [isC, update_self]
      have before := filed.size c
      have some_ := List.length_pos_of_mem member
      change (update s.sizes c (s.sizes c - 1) c).toNat = _
      have one : (1 : UInt32) ≤ s.sizes c := by
        rwa [UInt32.le_iff_toNat_le, before]
      rw [update_self, UInt32.toNat_sub_of_le _ _ one, before, List.length_erase_of_mem member]
      rfl
    · rw [update_of_ne isC, ← filed.size i]
      exact congrArg UInt32.toNat (update_of_ne isC ..)
  · by_cases isC : i = c
    · rw [isC, update_self]
      have fits : (UInt64.ofNat (s.items e).ntotal).toNat = (s.items e).ntotal :=
        UInt64.toNat_ofNat_of_lt' (Nat.lt_trans (s.items e).ntotal_lt (by decide))
      have split : ((f c).map fun x => (s.items x).ntotal).sum =
          (s.items e).ntotal + (((f c).erase e).map fun x => (s.items x).ntotal).sum :=
        ((List.perm_cons_erase member).map _).sum_eq
      have before := filed.bytes c
      have covered : UInt64.ofNat (s.items e).ntotal ≤ s.sizesBytes c := by
        rw [UInt64.le_iff_toNat_le, fits, before, split]
        exact Nat.le_add_right ..
      change (update s.sizesBytes c (s.sizesBytes c - UInt64.ofNat (s.items e).ntotal) c).toNat = _
      rw [update_self, UInt64.toNat_sub_of_le _ _ covered, before, fits, split,
        Memory.doItemUnlinkQ_items]
      exact Nat.add_sub_cancel_left ..
    · rw [update_of_ne isC, Memory.doItemUnlinkQ_items, ← filed.bytes i]
      exact congrArg UInt64.toNat (update_of_ne isC ..)

end Lists

/-! ### Headers -/

section Headers

variable {refs refs' : Fin n → Nat} {items : Fin n → Item} {s : Memory n} {e : Fin n} {it : Item}

structure Adds (refs refs' : Fin n → Nat) (e : Fin n) : Prop where
  one : refs' e = refs e + 1
  others : ∀ x, x ≠ e → refs' x = refs x

theorem adds_update (refs : Fin n → Nat) (e : Fin n) :
    Adds refs (update refs e (refs e + 1)) e :=
  ⟨update_self .., fun _ other => update_of_ne other ..⟩

section

variable (counted : Counted refs items)
include counted

theorem Counted.set (others : ∀ x, x ≠ e → refs' x = refs x)
    (count : it.refcount.toNat = (if it.flags.linked then 1 else 0) + refs' e)
    (free : it.flags.slabbed = true → it.refcount = 0) :
    Counted refs' (update items e it) := by
  refine ⟨fun x => ?_, fun x slabbed => ?_⟩ <;> by_cases equal : x = e
  · rwa [equal, update_self]
  · rw [update_of_ne equal, others x equal]
    exact counted.count x
  · rw [equal, update_self] at slabbed ⊢
    exact free slabbed
  · rw [update_of_ne equal] at slabbed ⊢
    exact counted.free x slabbed

theorem Counted.of_slabbed (slabbed : (items e).flags.slabbed = true) :
    (items e).flags.linked = false ∧ refs e = 0 := by
  have count := counted.count e
  rw [counted.free e slabbed] at count
  cases linked : (items e).flags.linked with
  | false =>
    rw [linked] at count
    exact ⟨rfl, by simpa using count.symm⟩
  | true =>
    rw [linked, if_pos rfl] at count
    have zero : (0 : UInt16).toNat = 0 := rfl
    omega

theorem Counted.present (linked : (items e).flags.linked = true) :
    (items e).flags.slabbed = false := by
  cases slabbed : (items e).flags.slabbed with
  | false => rfl
  | true =>
    have not := (counted.of_slabbed slabbed).1
    simp [linked] at not

end

theorem linked_modify (s : Memory n) (e : Fin n) (g : Item → Item) :
    (fun x => ((s.modify e g).items x).flags.linked) =
      update (fun x => (s.items x).flags.linked) e (g (s.items e)).flags.linked := by
  funext x
  by_cases equal : x = e
  · rw [equal, Memory.modify_self, update_self]
  · rw [Memory.modify_of_ne s e equal, update_of_ne equal]

structure Alike (it it' : Item) : Prop where
  linked : it'.flags.linked = it.flags.linked
  slabbed : it'.flags.slabbed = it.flags.slabbed
  refcount : it'.refcount = it.refcount
  slabsClsid : it'.slabsClsid = it.slabsClsid
  ntotal : it'.ntotal = it.ntotal

theorem Inv.touch (inv : Inv refs s) {g : Item → Item} (alike : Alike (s.items e) (g (s.items e))) :
    Inv refs (s.modify e g) := by
  obtain ⟨f, filed⟩ := inv.filed
  refine ⟨⟨f, ?_⟩, inv.counted.set (fun _ _ => rfl) ?_ fun slabbed => ?_⟩
  · rw [linked_modify, alike.linked, update_eq_self]
    exact filed.modify fun _ => ⟨alike.slabsClsid, alike.ntotal⟩
  · rw [alike.refcount, alike.linked]
    exact inv.counted.count e
  · rw [alike.refcount]
    rw [alike.slabbed] at slabbed
    exact inv.counted.free e slabbed

theorem Inv.incr (inv : Inv refs s) (more : Adds refs refs' e)
    (present : (s.items e).flags.slabbed = false) (few : refs e + 2 < 2 ^ 16) :
    Inv refs' (s.refcountIncr e) := by
  obtain ⟨f, filed⟩ := inv.filed
  refine ⟨⟨f, ?_⟩, inv.counted.set more.others ?_ fun slabbed => ?_⟩
  · rw [Memory.refcountIncr, linked_modify, update_eq_self]
    exact filed.modify fun _ => ⟨rfl, rfl⟩
  · have count := inv.counted.count e
    rw [more.one, UInt16.toNat_add, count, ← Nat.add_assoc]
    refine Nat.mod_eq_of_lt ?_
    change _ + refs e + 1 < 2 ^ 16
    split <;> omega
  · simp [present] at slabbed

theorem Inv.remove (inv : Inv refs' s) (more : Adds refs refs' e) :
    Inv refs (s.doItemRemove e) := by
  obtain ⟨f, filed⟩ := inv.filed
  have count := inv.counted.count e
  have present : (s.items e).flags.slabbed = false := by
    cases slabbed : (s.items e).flags.slabbed with
    | false => rfl
    | true =>
      have none_ := (inv.counted.of_slabbed slabbed).2
      simp [more.one] at none_
  have others : ∀ x, x ≠ e → refs x = refs' x := fun x other => (more.others x other).symm
  have fewer : ((s.items e).refcount - 1).toNat = (if (s.items e).flags.linked then 1 else 0) + refs e := by
    have one : (1 : UInt16) ≤ (s.items e).refcount := by
      rw [UInt16.le_iff_toNat_le, count, more.one]
      exact Nat.le_add_left ..
    rw [UInt16.toNat_sub_of_le _ _ one, count, more.one]
    rfl
  have decremented : Inv refs (s.modify e fun it => { it with refcount := it.refcount - 1 }) := by
    refine ⟨⟨f, ?_⟩, inv.counted.set others fewer fun slabbed => ?_⟩
    · rw [linked_modify, update_eq_self]
      exact filed.modify fun _ => ⟨rfl, rfl⟩
    · simp [present] at slabbed
  unfold Memory.doItemRemove
  dsimp only
  split
  next last =>
    -- without references the item is not linked, so it is in no list
    rw [Memory.modify_self] at last
    have zero : (if (s.items e).flags.linked then 1 else 0) + refs e = 0 := by
      rw [← fewer]
      exact congrArg UInt16.toNat last
    have unlinked : (s.items e).flags.linked = false := by
      cases linked : (s.items e).flags.linked with
      | false => rfl
      | true =>
        rw [linked, if_pos rfl] at zero
        omega
    obtain ⟨f, filed⟩ := decremented.filed
    refine ⟨⟨f, ?_⟩, decremented.counted.set (fun _ _ => rfl) ?_ fun _ => ?_⟩
    · rw [Memory.itemFree, linked_modify, Memory.modify_self]
      have same : update (fun x => ((s.modify e fun it =>
          { it with refcount := it.refcount - 1 }).items x).flags.linked) e false =
          fun x => ((s.modify e fun it => { it with refcount := it.refcount - 1 }).items x).flags.linked := by
        rw [update_eq_self_iff, Memory.modify_self, unlinked]
      refine Filed.congr (filed.modify fun isOn => ?_) fun x => congrFun same x
      simp [Memory.modify_self, unlinked] at isOn
    · have nobody : refs e = 0 := Nat.eq_zero_of_add_eq_zero_left zero
      rw [Memory.modify_self, last, nobody]
      rfl
    · rw [Memory.modify_self, last]
  · exact decremented

end Headers

/-! ### The functions -/

section Functions

variable {refs refs' : Fin n → Nat} {s : Memory n} {e : Fin n} {now : UInt32}

section

variable (inv : Inv refs s)
include inv

theorem Inv.unlink (e : Fin n) : Inv refs (s.doItemUnlink e) := by
  unfold Memory.doItemUnlink
  split
  next linked =>
    refine Inv.remove ?_ (adds_update refs e)
    obtain ⟨f, filed⟩ := inv.filed
    have written := filed.modify (e := e) (g := fun it => { it with flags := { it.flags with linked := false } })
      fun _ => ⟨rfl, rfl⟩
    have unlisted := written.unlinkQ linked
    refine ⟨⟨_, unlisted.congr fun x => ?_⟩, inv.counted.set (adds_update refs e).others ?_
      fun slabbed => ?_⟩
    · rw [Memory.doItemUnlinkQ_items]
      exact congrFun (linked_modify s e _) x
    · have count := inv.counted.count e
      rw [linked, if_pos rfl] at count
      rw [(adds_update refs e).one, if_neg (by simp), count, Nat.zero_add, Nat.add_comm]
    · have present := inv.counted.present linked
      simp [present] at slabbed
  · exact inv

section

variable (few : n < 2 ^ 32)
include few

theorem Inv.link (loose : s.loose e = true) (room : refs e + 2 < 2 ^ 16) (now : UInt32) :
    Inv refs (s.doItemLink e now) := by
  obtain ⟨unlinked, present⟩ : (s.items e).flags.linked = false ∧ (s.items e).flags.slabbed = false := by
    simpa [Memory.loose] using loose
  obtain ⟨f, filed⟩ := inv.filed
  have written := filed.modify (e := e)
    (g := fun it => { it with flags := { it.flags with linked := true }, time := now })
    fun isOn => by rw [unlinked] at isOn; cases isOn
  have listed := written.linkQ few unlinked
  have counts := listed.modify (e := e) (g := fun it => { it with refcount := it.refcount + 1 })
    fun _ => ⟨rfl, rfl⟩
  -- the header is written twice, before it is linked and after
  have items : (s.doItemLink e now).items = update s.items e
      { s.items e with
        flags := { (s.items e).flags with linked := true }
        time := now
        refcount := (s.items e).refcount + 1 } := by
    change update (update s.items e _) e _ = _
    rw [update_idem]
    exact congrArg (update s.items e) (by rw [Memory.doItemLinkQ_items, Memory.modify_self])
  refine ⟨⟨_, counts.congr fun x => ?_⟩, ?_⟩
  · rw [items]
    by_cases equal : x = e
    · rw [equal, update_self, update_self]
    · rw [update_of_ne equal, update_of_ne equal]
  · rw [items]
    refine inv.counted.set (fun _ _ => rfl) ?_ fun slabbed => ?_
    · have count := inv.counted.count e
      rw [unlinked, if_neg (by simp), Nat.zero_add] at count
      rw [UInt16.toNat_add, count, if_pos rfl, Nat.add_comm]
      exact Nat.mod_eq_of_lt (by change 1 + refs e < 2 ^ 16; omega)
    · simp [present] at slabbed

theorem Inv.move (linked : (s.items e).flags.linked = true) {g : Item → Item}
    (keeps : ∀ it, (g it).flags.linked = it.flags.linked ∧
      (g it).flags.slabbed = it.flags.slabbed ∧ (g it).refcount = it.refcount) :
    Inv refs (((s.doItemUnlinkQ e).modify e g).doItemLinkQ e) := by
  obtain ⟨sameLinked, sameSlabbed, sameCount⟩ := keeps (s.items e)
  obtain ⟨f, filed⟩ := inv.filed
  have out := filed.unlinkQ linked
  have written := out.modify (e := e) (g := g) fun isOn => by
    simp [update_self] at isOn
  have back := written.linkQ few (update_self ..)
  refine ⟨⟨_, back.congr fun x => ?_⟩, inv.counted.set (fun _ _ => rfl) ?_ fun slabbed => ?_⟩
  · rw [update_idem, Memory.doItemLinkQ_items]
    by_cases equal : x = e
    · rw [equal, update_self, Memory.modify_self]
      exact sameLinked.trans linked
    · rw [update_of_ne equal, Memory.modify_of_ne _ _ equal]
      rfl
  · rw [Memory.doItemUnlinkQ_items, sameCount, sameLinked]
    exact inv.counted.count e
  · rw [Memory.doItemUnlinkQ_items, sameCount]
    rw [Memory.doItemUnlinkQ_items, sameSlabbed] at slabbed
    exact inv.counted.free e slabbed

theorem Inv.updateNolock (e : Fin n) (now : UInt32) : Inv refs (s.doItemUpdateNolock e now) := by
  unfold Memory.doItemUpdateNolock
  split
  next old => exact inv.move few old.2 fun _ => ⟨rfl, rfl, rfl⟩
  · exact inv

theorem Inv.itemUpdate (e : Fin n) (m : Moment n) : Inv refs (s.doItemUpdate e m) := by
  have timed : Inv refs (s.modify e fun it => { it with time := m.now }) := inv.touch ⟨rfl, rfl, rfl, rfl, rfl⟩
  have stays : (s.items e).flags.linked = true →
      ((s.modify e fun it => { it with time := m.now }).items e).flags.linked = true := by
    intro linked
    rwa [Memory.modify_self]
  unfold Memory.doItemUpdate
  dsimp only
  split
  · split
    next linked =>
      split
      · exact timed.move few (stays linked) fun _ => ⟨rfl, rfl, rfl⟩
      · split
        · exact timed
        · exact inv
    · exact inv
  · split
    next old =>
      -- back into the same list, with no header written in between
      have moved := timed.move (g := fun it => it) few (stays old.2) fun _ => ⟨rfl, rfl, rfl⟩
      rwa [Memory.modify, update_eq_self] at moved
    · exact inv

end

end

theorem Inv.bump (inv : Inv refs' s) (few : n < 2 ^ 32) (more : Adds refs refs' e) (m : Moment n) :
    Inv refs (s.bump e m) := (inv.itemUpdate few e m).remove more

/-- `do_item_get` has taken a reference for its caller if it returns the item, and one for a bump. -/
def Got (refs : Fin n → Nat) (e : Fin n) (r : Memory n × Bool × Bool) : Prop :=
  Inv (update refs e (refs e + r.2.1.toNat + r.2.2.toNat)) r.1

theorem Got.found (inv : Inv (update refs e (refs e + 1)) s) :
    Got refs e (s, true, false) := inv

theorem Inv.get (inv : Inv refs s) (few : n < 2 ^ 32) (linked : (s.items e).flags.linked = true)
    (room : refs e + 3 < 2 ^ 16) (m : Moment n) (doUpdate fits : Bool) :
    Got refs e (s.doItemGet e m doUpdate fits) := by
  have present := inv.counted.present linked
  have taken : Inv (update refs e (refs e + 1)) (s.refcountIncr e) :=
    inv.incr (adds_update refs e) present (by omega)
  have there : ((s.refcountIncr e).items e).flags.slabbed = false := by
    rwa [Memory.refcountIncr, Memory.modify_self]
  unfold Memory.doItemGet
  dsimp only
  split
  · -- flushed or expired: the reference is given up again
    have gone := (taken.unlink e).remove (adds_update refs e)
    have same : update refs e (refs e + false.toNat + false.toNat) = refs :=
      update_eq_self e refs
    rwa [Got, same]
  have fetched : Inv (update refs e (refs e + 1)) ((s.refcountIncr e).modify e fun it =>
      { it with flags := { it.flags with fetched := true } }) := taken.touch ⟨rfl, rfl, rfl, rfl, rfl⟩
  split
  · exact .found taken
  split
  · split
    · exact .found taken
    split
    · exact .found fetched
    have active : Inv (update refs e (refs e + 1)) ((s.refcountIncr e).modify e fun it =>
        { it with flags := { it.flags with active := true } }) := taken.touch ⟨rfl, rfl, rfl, rfl, rfl⟩
    split
    · exact .found (active.itemUpdate few e m)
    split
    · -- the buffer has a reference of its own
      refine active.incr ⟨?_, fun x other => ?_⟩ ?_ ?_
      · rw [update_self, update_self]
        rfl
      · rw [update_of_ne other, update_of_ne other]
      · rwa [Memory.modify_self]
      · rw [update_self]
        omega
    · have passive : Inv (update refs e (refs e + 1)) (((s.refcountIncr e).modify e fun it =>
          { it with flags := { it.flags with active := true } }).modify e fun it =>
          { it with flags := { it.flags with active := false } }) := active.touch ⟨rfl, rfl, rfl, rfl, rfl⟩
      exact .found passive
  · exact .found (fetched.itemUpdate few e m)

end Functions

/-! ### Pulling the tail -/

section Pull

variable {refs : Fin n → Nat} {s s' : Memory n} {e : Fin n} {now : UInt32}

/-- Only the header of one item is written, and its time is left or set to now. -/
structure Writes (e : Fin n) (now : UInt32) (s s' : Memory n) : Prop where
  others : ∀ x, x ≠ e → s'.items x = s.items x
  time : (s'.items e).time = (s.items e).time ∨ (s'.items e).time = now

theorem Writes.trans {s'' : Memory n} (first : Writes e now s s') (second : Writes e now s' s'') :
    Writes e now s s'' := by
  refine ⟨fun x other => (second.others x other).trans (first.others x other), ?_⟩
  rcases second.time with same | new
  · rw [same]
    exact first.time
  · exact .inr new

theorem writes_modify (s : Memory n) {g : Item → Item}
    (time : (g (s.items e)).time = (s.items e).time ∨ (g (s.items e)).time = now) :
    Writes e now s (s.modify e g) :=
  ⟨fun _ other => Memory.modify_of_ne s e other g, by rwa [Memory.modify_self]⟩

theorem writes_remove (s : Memory n) (e : Fin n) (now : UInt32) :
    Writes e now s (s.doItemRemove e) := by
  unfold Memory.doItemRemove
  dsimp only
  split
  · exact (writes_modify s (.inl rfl)).trans (writes_modify _ (.inl rfl))
  · exact writes_modify s (.inl rfl)

theorem writes_unlink (s : Memory n) (e : Fin n) (now : UInt32) :
    Writes e now s (s.doItemUnlink e) := by
  unfold Memory.doItemUnlink
  split
  · have written : Writes e now s (s.modify e fun it =>
        { it with flags := { it.flags with linked := false } }) := writes_modify s (.inl rfl)
    have unlisted : Writes e now s ((s.modify e fun it =>
        { it with flags := { it.flags with linked := false } }).doItemUnlinkQ e) :=
      ⟨written.others, written.time⟩
    exact unlisted.trans (writes_remove _ e now)
  · exact ⟨fun _ _ => rfl, .inl rfl⟩

theorem writes_updateNolock (s : Memory n) (e : Fin n) (now : UInt32) :
    Writes e now s (s.doItemUpdateNolock e now) := by
  unfold Memory.doItemUpdateNolock
  split
  · have written : Writes e now (s.doItemUnlinkQ e) ((s.doItemUnlinkQ e).modify e fun it =>
        { it with time := now }) := writes_modify _ (.inr rfl)
    exact ⟨written.others, written.time⟩
  · exact ⟨fun _ _ => rfl, .inl rfl⟩

theorem Inv.settle_move {refs' : Fin n → Nat} (inv : Inv refs' s) (few : n < 2 ^ 32)
    (linked : (s.items e).flags.linked = true) (added : Adds refs refs' e) (lru : Lru) :
    Inv refs ((s.doItemUnlinkQ e).settle e (some lru)) := by
  have moved : Inv refs' (((s.doItemUnlinkQ e).modify e fun it =>
      { it with slabsClsid := it.clsid ||| bits lru }).doItemLinkQ e) :=
    inv.move few linked fun _ => ⟨rfl, rfl, rfl⟩
  exact moved.remove added

/-- What is left of the invariant when the walk goes on, and when it ends with the item. -/
def Visit.Keeps (refs : Fin n → Nat) (e : Fin n) (now : UInt32) (s : Memory n) : Visit n → Prop
  | .goOn s' _ => Inv refs s' ∧ Writes e now s s'
  | .stop s' moveTo _ => Inv refs (s'.settle e moveTo)

theorem Inv.visit (inv : Inv refs s) (few : n < 2 ^ 32) (linked : (s.items e).flags.linked = true)
    (room : refs e + 2 < 2 ^ 16) {m : Moment n} (p : Pull)
    (fresh : m.settings.tailRepairTime ≠ 0 → 0 < refs e →
      ¬ (s.items e).time + m.settings.tailRepairTime < m.now) :
    (s.visit m p e).Keeps refs e m.now s := by
  have added := adds_update refs e
  have taken : Inv (update refs e (refs e + 1)) (s.refcountIncr e) :=
    inv.incr added (inv.counted.present linked) room
  have stays : ((s.refcountIncr e).items e).flags.linked = true := by
    rwa [Memory.refcountIncr, Memory.modify_self]
  have ends : Inv refs ((s.refcountIncr e).settle e none) := taken.remove added
  have passive : Inv (update refs e (refs e + 1)) ((s.refcountIncr e).modify e fun it =>
      { it with flags := { it.flags with active := false } }) := taken.touch ⟨rfl, rfl, rfl, rfl, rfl⟩
  have passive_stays : (((s.refcountIncr e).modify e fun it =>
      { it with flags := { it.flags with active := false } }).items e).flags.linked = true := by
    rwa [Memory.modify_self]
  have begun : Writes e m.now s (s.refcountIncr e) := writes_modify s (.inl rfl)
  have relinked : Visit.Keeps refs e m.now s (.goOn ((((s.refcountIncr e).modify e fun it =>
      { it with flags := { it.flags with active := false } }).doItemUpdateNolock e m.now).doItemRemove e)
      0) :=
    ⟨(passive.updateNolock few e m.now).remove added, begun.trans ((writes_modify _ (.inl rfl)).trans
      ((writes_updateNolock _ e _).trans (writes_remove _ e _)))⟩
  unfold Memory.visit
  dsimp only
  split
  next repair =>
    -- the item has a reference besides the one that was just taken
    obtain ⟨counts, on_, old⟩ := repair
    have count := taken.counted.count e
    rw [stays, if_pos rfl, added.one] at count
    have same : ((s.refcountIncr e).items e).time = (s.items e).time := by
      rw [Memory.refcountIncr, Memory.modify_self]
    rw [same] at old
    refine absurd old (fresh on_ (Nat.pos_of_ne_zero fun none_ => counts ?_))
    rw [none_] at count
    exact UInt16.toNat_inj.mp count
  split
  · exact ⟨(taken.unlink e).remove added, begun.trans ((writes_unlink _ e _).trans (writes_remove _ e _))⟩
  split
  · -- hot
    split
    · split
      · exact relinked
      · exact passive.settle_move few passive_stays added .warm
    split
    · exact taken.settle_move few stays added .cold
    · exact ends
  · -- warm
    split
    · exact relinked
    split
    · exact taken.settle_move few stays added .cold
    · exact ends
  · -- cold
    split
    · split
      · exact (taken.unlink e).remove added
      · exact ends
    split
    · exact passive.settle_move few passive_stays added .warm
    · exact ends
  · -- temp
    exact ends

/-- The items of the list that somebody has a reference to are not old enough to be repaired. -/
def Fresh (refs : Fin n → Nat) (m : Moment n) (i : UInt8) (s : Memory n) : Prop :=
  m.settings.tailRepairTime ≠ 0 → ∀ x, (s.items x).slabsClsid = i → 0 < refs x →
    ¬ (s.items x).time + m.settings.tailRepairTime < m.now

def Memory.isIn (s : Memory n) (e : Fin n) (i : UInt8) : Prop :=
  (s.items e).flags.linked = true ∧ (s.items e).slabsClsid = i

theorem Inv.pullLoop (inv : Inv refs s) (few : n < 2 ^ 32) (room : ∀ x, refs x + 2 < 2 ^ 16)
    {m : Moment n} {p : Pull} (fresh : Fresh refs m p.id s)
    (ahead : m.settings.tailRepairTime ≠ 0 → ¬ m.now + m.settings.tailRepairTime < m.now)
    (fuel tries : Nat) (search : Option (Fin n)) (isIn : ∀ x, search = some x → s.isIn x p.id)
    (removed : Nat) : Inv refs (Memory.pullLoop m p fuel tries search s removed).1 := by
  induction fuel generalizing tries search s removed with
  | zero => exact inv
  | succ fuel ih =>
    cases tries with
    | zero => exact inv
    | succ tries =>
      cases search with
      | none => exact inv
      | some search =>
        obtain ⟨linked, clsid⟩ := isIn search rfl
        have next : ∀ x, s.lists.prev search = some x → x ≠ search ∧ s.isIn x p.id := by
          intro x before
          obtain ⟨f, filed⟩ := inv.filed
          have member : search ∈ f p.id := (filed.mem search p.id).mpr ⟨linked, clsid⟩
          obtain ⟨other, -, inside, -⟩ := (filed.rep.list p.id).neighbours member
          refine ⟨fun same => other ?_, (filed.mem x p.id).mp (inside x before)⟩
          rw [← same]
          exact same ▸ before
        rw [Memory.pullLoop]
        split
        · split
          · exact inv
          · exact ih inv fresh _ _ (fun x before => (next x before).2) _
        split
        · exact ih inv fresh _ _ (fun x before => (next x before).2) _
        have visited := inv.visit few linked (room search) p fun on_ => fresh on_ search clsid
        split
        next s' more outcome =>
          rw [outcome] at visited
          obtain ⟨inv', writes⟩ := visited
          refine ih inv' (fun on_ x inList referenced => ?_) _ _ (fun x before => ?_) _
          · by_cases equal : x = search
            · subst equal
              rcases writes.time with same | now
              · rw [same]
                exact fresh on_ x clsid referenced
              · rw [now]
                exact ahead on_
            · rw [writes.others x equal] at inList ⊢
              exact fresh on_ x inList referenced
          · obtain ⟨other, listed⟩ := next x before
            rwa [Memory.isIn, writes.others x other]
        next s' moveTo more outcome =>
          rwa [outcome] at visited

theorem Inv.pull (inv : Inv refs s) (few : n < 2 ^ 32) (room : ∀ x, refs x + 2 < 2 ^ 16)
    {m : Moment n} {p : Pull} (fresh : Fresh refs m p.id s)
    (ahead : m.settings.tailRepairTime ≠ 0 → ¬ m.now + m.settings.tailRepairTime < m.now)
    (fuel : Nat) : Inv refs (s.lruPullTail m p fuel).1 := by
  unfold Memory.lruPullTail
  split
  · exact inv
  · refine inv.pullLoop few room fresh ahead fuel 5 _ (fun x last => ?_) 0
    obtain ⟨f, filed⟩ := inv.filed
    have back : (f p.id).getLast? = some x := (filed.rep.list p.id).tail.symm.trans last
    exact (filed.mem x p.id).mp (List.mem_of_getLast? back)

end Pull

/-! ### Runs -/

section Runs

variable {w w' : World n} {s : Memory n} {refs : Fin n → Nat} {e : Fin n}

theorem Inv.fill (inv : Inv refs s) (slabbed : (s.items e).flags.slabbed = true)
    {refs' : Fin n → Nat} {g : Item → Item} (others : ∀ x, x ≠ e → refs' x = refs x)
    (unlinked : (g (s.items e)).flags.linked = false)
    (count : (g (s.items e)).refcount.toNat = refs' e)
    (present : (g (s.items e)).flags.slabbed = false) : Inv refs' { s.modify e g with
      lists := { s.lists with
        prev := update s.lists.prev e none
        next := update s.lists.next e none } } := by
  obtain ⟨notLinked, -⟩ := inv.counted.of_slabbed slabbed
  obtain ⟨f, filed⟩ := inv.filed
  have off : ∀ {x : Fin n}, (s.items x).flags.linked = true → x ≠ e := by
    rintro x isOn rfl
    simp [notLinked] at isOn
  have written := filed.modify (e := e) (g := g) fun isOn => absurd rfl (off isOn)
  have relinked := written.rewire (update s.lists.prev e none)
    (update s.lists.next e none) fun x isOn =>
      ⟨update_of_ne (off isOn) .., update_of_ne (off isOn) ..⟩
  refine ⟨⟨f, relinked.congr fun x => ?_⟩, inv.counted.set others ?_ fun again => ?_⟩
  · refine (congrFun (linked_modify s e g) x).trans ?_
    rw [unlinked, ← notLinked]
    exact congrFun (update_eq_self e fun x => (s.items x).flags.linked) x
  · rwa [unlinked, if_neg (by simp), Nat.zero_add]
  · simp [present] at again

theorem World.refs_got (w : World n) (e : Fin n) (mem : Memory n) (found bumped : Bool) :
    World.refs ⟨mem, if found then update w.held e (w.held e + 1) else w.held,
      if bumped then w.bumps ++ [e] else w.bumps⟩ =
      update w.refs e (w.refs e + found.toNat + bumped.toNat) := by
  funext x
  by_cases equal : x = e
  · subst equal
    cases found <;> cases bumped <;> simp [World.refs] <;> omega
  · have other : ¬ e = x := fun same => equal same.symm
    cases found <;> cases bumped <;> simp [World.refs, equal, other]

/-- A careful step keeps the lists and the counts of references. -/
theorem inv_step (few : n < 2 ^ 32) (w : World n) (action : Action n) (w' : World n)
    (inv : Inv w.refs w.mem) (careful : Careful w action) (called : step w action = some w') :
    Inv w'.refs w'.mem := by
  obtain ⟨counts, unrepaired⟩ := careful
  have room : ∀ x, w.refs x + 2 < 2 ^ 16 := by
    intro x
    have count := inv.counted.count x
    have bound := counts x
    omega
  cases action with
  | alloc e m r =>
    obtain ⟨slabbed, ⟨⟩⟩ := Option.ite_none_right_eq_some.mp called
    obtain ⟨unlinked, nobody⟩ := inv.counted.of_slabbed slabbed
    obtain ⟨nobodyHolds, nobodyBumps⟩ := Nat.add_eq_zero_iff.mp nobody
    refine inv.fill slabbed (fun x other => ?_) unlinked ?_ rfl
    · simp only [World.refs, update_of_ne other]
    · simp only [World.refs, update_self, nobodyBumps]
      rfl
  | copy old e =>
    obtain ⟨⟨linked, slabbed⟩, ⟨⟩⟩ := Option.ite_none_right_eq_some.mp called
    refine inv.fill slabbed (fun _ _ => rfl) rfl ?_ (inv.counted.present linked)
    exact (inv.counted.of_slabbed slabbed).2.symm
  | slots prev next =>
    cases called
    obtain ⟨f, filed⟩ := inv.filed
    refine ⟨⟨f, filed.rewire _ _ fun x isOn => ?_⟩, inv.counted⟩
    rw [inv.counted.present isOn]
    exact ⟨rfl, rfl⟩
  | link e now =>
    obtain ⟨loose, ⟨⟩⟩ := Option.ite_none_right_eq_some.mp called
    exact inv.link few loose (room e) now
  | unlink e =>
    cases called
    exact inv.unlink e
  | update e m =>
    cases called
    exact inv.itemUpdate few e m
  | replace old new now =>
    obtain ⟨loose, ⟨⟩⟩ := Option.ite_none_right_eq_some.mp called
    refine (inv.unlink old).link few ?_ (room new) now
    by_cases same : new = old
    · -- an item that is not linked is not unlinked
      subst same
      have unlinked : (w.mem.items new).flags.linked = false := by
        simp only [Memory.loose, decide_eq_true_eq] at loose
        simpa using loose.1
      rwa [Memory.doItemUnlink, unlinked, if_neg (by simp)]
    · rwa [Memory.loose, (writes_unlink w.mem old 0).others new same]
  | pull m p fuel =>
    cases called
    exact inv.pull few room (fun on_ => (unrepaired on_).2) (fun on_ => (unrepaired on_).1) fuel
  | get e m doUpdate fits =>
    obtain ⟨linked, ⟨⟩⟩ := Option.ite_none_right_eq_some.mp called
    have count := inv.counted.count e
    rw [linked, if_pos rfl] at count
    have enough : w.refs e + 3 < 2 ^ 16 := by
      have bound := counts e
      omega
    have got := inv.get few linked enough m doUpdate fits
    rwa [World.refs_got]
  | touch e exptime =>
    obtain ⟨-, ⟨⟩⟩ := Option.ite_none_right_eq_some.mp called
    have touched : Inv w.refs (w.mem.modify e fun it => { it with exptime := exptime }) :=
      inv.touch ⟨rfl, rfl, rfl, rfl, rfl⟩
    exact touched
  | remove e =>
    obtain ⟨held, ⟨⟩⟩ := Option.ite_none_right_eq_some.mp called
    refine inv.remove ⟨?_, fun x other => ?_⟩
    · simp only [World.refs, update_self]
      omega
    · simp only [World.refs, update_of_ne other]
  | bump e m =>
    obtain ⟨queued, ⟨⟩⟩ := Option.ite_none_right_eq_some.mp called
    refine inv.bump few ⟨?_, fun x other => ?_⟩ m
    · have some_ := List.count_pos_iff.mpr queued
      simp only [World.refs, List.count_erase_self]
      omega
    · simp only [World.refs, List.count_erase_of_ne other]

theorem inv_initial (n : Nat) : Inv ({} : World n).refs ({} : World n).mem := by
  refine ⟨⟨fun _ => [], Dlls.rep_empty, fun e i => ?_, fun _ => rfl, fun _ => rfl⟩, fun _ => rfl,
    fun _ _ => rfl⟩
  simp

theorem Filed.order {on : Fin n → Bool} {f : UInt8 → List (Fin n)} (filed : Filed on f s)
    (i : UInt8) : s.order i = f i := by
  rw [Memory.order, filed.size]
  exact (filed.rep.list i).toList

theorem Inv.listed (inv : Inv refs s) : Listed s := by
  obtain ⟨f, filed⟩ := inv.filed
  refine ⟨fun i => ?_, fun i => ?_, fun i => ?_, fun e linked i => ?_, fun e slabbed i inside => ?_⟩
  · rw [filed.order]
    exact filed.rep.list i
  · rw [filed.order]
    exact filed.size i
  · rw [filed.order]
    exact filed.bytes i
  · rw [filed.order, filed.mem]
    exact ⟨fun ⟨_, isI⟩ => isI.symm, fun isI => ⟨linked, isI.symm⟩⟩
  · rw [filed.order, filed.mem] at inside
    rw [(inv.counted.of_slabbed slabbed).1] at inside
    cases inside.1

/-- With fewer than 2^32 chunks, reference counts that fit and no repair of a tail that somebody has
a reference to, the LRU lists are well formed and counted, and hold each linked item once. -/
theorem lru_lists_hold_linked (few : n < 2 ^ 32) (run : List (Action n))
    (careful : Run.Along step Careful ({} : World n) run) :
    Run.Always step (fun w => Listed w.mem) ({} : World n) run := by
  have always : Run.Always step (fun w => Inv w.refs w.mem) ({} : World n) run :=
    Run.always_of_invariant (inv_step few) (inv_initial n) careful
  exact Run.always_mono (fun _ inv => inv.listed) always

end Runs

/-! ### A chunk that is freed twice -/

abbrev segmented : Settings := { lruSegmented := true }

/-- Refcounts are repaired after ten seconds. -/
abbrev repairing : Settings := { segmented with tailRepairTime := 10 }

def small : Request := { id := 1, nkey := 3, nsuffix := 4, nbytes := ⟨4, by decide⟩ }

/-- An item is stored, pulled out of the hot list into the cold one, and read twice, so that a bump
is queued for it. -/
def hitTwice (cfg : Settings) : List (Action 2) :=
  [.alloc 0 ⟨cfg, 1, fun _ => false⟩ small, .link 0 1, .remove 0,
    .pull ⟨cfg, 1, fun _ => false⟩ { origId := 1, curLru := .hot, totalBytes := 0 } 5,
    .get 0 ⟨cfg, 1, fun _ => false⟩ true true, .remove 0,
    .get 0 ⟨cfg, 1, fun _ => false⟩ true true, .remove 0]

/-- The bump is done, and the item is evicted later. -/
def bumped : List (Action 2) :=
  hitTwice segmented ++ [.bump 0 ⟨segmented, 2, fun _ => false⟩,
    .pull ⟨segmented, 100, fun _ => false⟩ { origId := 1, curLru := .warm, totalBytes := 0 } 5,
    .pull ⟨segmented, 100, fun _ => false⟩
      { origId := 1, curLru := .cold, totalBytes := 0, evict := true } 5]

theorem lists_hold_bumped_item : Run.Along step Careful ({} : World 2) bumped ∧
      (Run.exec step ({} : World 2) (hitTwice segmented)).map (fun w => (w.mem.order 129, w.bumps))
        = some ([0], [0]) ∧
      (Run.exec step ({} : World 2) bumped).map (fun w => (w.mem.order 129, (w.mem.items 0).flags.slabbed))
        = some ([], true) ∧
      Run.Always step (fun w => Listed w.mem) ({} : World 2) bumped :=
  ⟨by decide +kernel, by decide +kernel, by decide +kernel,
    lru_lists_hold_linked (by decide) bumped (by decide +kernel)⟩

/-- The tail is repaired while the bump is queued, and the chunk is used for another item. -/
def repaired : List (Action 2) :=
  hitTwice repairing ++ [
    .pull ⟨repairing, 100, fun _ => false⟩ { origId := 1, curLru := .cold, totalBytes := 0 } 5,
    .alloc 0 ⟨repairing, 101, fun _ => false⟩ small, .link 0 101, .remove 0,
    .bump 0 ⟨repairing, 102, fun _ => false⟩]

/-- The bump gives up the reference of the old item and frees the new one, which is linked. -/
theorem repaired_tail_is_freed_twice :
    ¬ Run.Always step (fun w => Listed w.mem) ({} : World 2) repaired ∧
      (Run.exec step ({} : World 2) repaired).map
        (fun w => (w.mem.lists.heads 1, w.mem.order 1, (w.mem.items 0).flags.slabbed))
        = some (some 0, [0], true) := by
  have reached : (Run.exec step ({} : World 2) repaired).map
      (fun w => (w.mem.lists.heads 1, w.mem.order 1, (w.mem.items 0).flags.slabbed))
      = some (some 0, [0], true) := by decide +kernel
  refine ⟨fun always => ?_, reached⟩
  obtain ⟨w, done, state⟩ := Option.map_eq_some_iff.mp reached
  obtain ⟨-, order, slabbed⟩ : _ ∧ w.mem.order 1 = [0] ∧ (w.mem.items 0).flags.slabbed = true := by
    simpa using state
  have listed : Listed w.mem := always.last done
  exact listed.free 0 slabbed 1 (by rw [order]; simp)

end MemExchange.Segments
