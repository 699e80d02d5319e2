import MemExchange.Slabs.PageIds

/-!
# Hits are counted by page

Every GET that finds an item counts a hit for the page the item names with `page_id`, a number of
16 bits, of which `incr_slab_hits` takes 8. The chunks of a new page name the page before, and those
of the first page of a class name page 65535. An item on a remote page is read with the header it was
stored with.
-/
namespace MemExchange.Slabs

/-- Where a GET finds an item. The ASCII command looks for local items only. -/
inductive Place
  | chunk (c : Chunk)
  | slot (r : RSlot)
  deriving DecidableEq, Repr

variable (w : World) (stored : RSlot → Header) (id : Int) (i : Nat)

/-- The header that a GET reads. `stored` is what has been written to the remote slots. -/
def World.readHeader : Place → Header
  | .chunk c => w.header c
  | .slot r => stored r

/-- A hit in `process_get_command`, or in `process_bin_get_or_touch` without `should_touch`:
`incr_slab_hits(ITEM_clsid(it), it->page_id)` -/
def World.getHit (place : Place) : World :=
  let it := w.readHeader stored place
  w.incrSlabHits it.clsid it.pageId.toUInt8.toNat

/-- An item of class `id` is stored in the page that is listed at index `i`. -/
def StoredIn (place : Place) : Prop :=
  i < (w.pages id).slabs ∧ (w.readHeader stored place).clsid = id ∧
    match place with
    | .chunk (.cell page y) =>
      (w.pages id).slabList i = some page ∧ (w.pages id).conn i = none ∧ y < w.cut page ∧
        (w.header (.cell page y)).flag = .linked
    | .chunk (.temp _) => False
    | .slot r =>
      (w.pages id).slabList i = some r.page ∧ (w.pages id).conn i ≠ none ∧ r.index < w.cut r.page ∧
        r ∈ w.index

instance :
    ∀ place, Decidable (StoredIn w stored id i place)
  | .chunk (.cell _ _) => inferInstanceAs (Decidable (_ ∧ _ ∧ _ ∧ _ ∧ _ ∧ _))
  | .chunk (.temp _) => inferInstanceAs (Decidable (_ ∧ _ ∧ False))
  | .slot _ => inferInstanceAs (Decidable (_ ∧ _ ∧ _ ∧ _ ∧ _ ∧ _))

/-- One hit more for page `i` of class `id`, and for no other page -/
def Credited (w' : World) (id : Int) (i : Nat) : Prop :=
  ∀ other (j : Int), (w'.pages other).hits j =
    if other = id ∧ j = i then (w.pages other).hits j + 1 else (w.pages other).hits j

theorem incrSlabHits_hits (page : UInt8) (other j : Int) :
    ((w.incrSlabHits id page.toNat).pages other).hits j =
      if other = id ∧ j = page.toNat then ((w.pages other).hits j + 1) % 2 ^ 32
      else (w.pages other).hits j := by
  have small : (page.toNat : Int) < 3999 := by
    have := page.toNat_lt
    omega
  rw [World.incrSlabHits, if_pos small, World.setPages_pages]
  by_cases here : other = id
  · rw [if_pos here, ← here]
    by_cases same : j = page.toNat
    · rw [if_pos ⟨rfl, same⟩, same]
      exact Function.update_self ..
    · rw [if_neg fun both => same both.2]
      exact Function.update_of_ne same ..
  · rw [if_neg here, if_neg fun both => here both.1]

/-- A hit on an item of page `i` is counted there exactly if the low eight bits of the number in its
header are `i`, and the counter is not at its end. -/
theorem get_hit_credited_iff (w : World) (stored : RSlot → Header) (id : Int) (i : Nat)
    (place : Place) (here : StoredIn w stored id i place) :
    Credited w (w.getHit stored place) id i ↔
      (w.readHeader stored place).pageId.toNat % 256 = i ∧ (w.pages id).hits i + 1 < 2 ^ 32 := by
  have own : (w.readHeader stored place).clsid = id := here.2.1
  have low : (w.readHeader stored place).pageId.toUInt8.toNat =
      (w.readHeader stored place).pageId.toNat % 256 := UInt16.toNat_toUInt8 _
  unfold Credited World.getHit
  simp only [own, incrSlabHits_hits]
  rw [low]
  constructor
  · intro credited
    have counter := credited id i
    rw [if_pos (⟨rfl, rfl⟩ : id = id ∧ (i : Int) = i)] at counter
    -- the counter of page `i` goes up, so it is the one that was written
    have named : (i : Int) = ((w.readHeader stored place).pageId.toNat % 256 : Nat) := by
      by_contra other
      rw [if_neg fun both => other both.2] at counter
      omega
    rw [if_pos ⟨rfl, named⟩] at counter
    exact ⟨by omega, by omega⟩
  · rintro ⟨named, room⟩ other j
    rw [named]
    by_cases both : other = id ∧ j = i
    · rw [if_pos both, if_pos both, both.1, both.2, Nat.mod_eq_of_lt room]
    · rw [if_neg both, if_neg both]

/-- Class 2 has received eleven pages and a region and released its second page, so that its last local
page is at index 9. An item is stored there. -/
def receivedItem : World :=
  (Run.exec (step (halves true)) (littered (halves true) 4000000)
    (receiveAndRelease ++ [.link (.cell 10 1)])).getD (littered (halves true) 0)

theorem hit_on_received_page_credited :
    StoredIn receivedItem (fun _ => {}) 2 9 (.chunk (.cell 10 1)) ∧
      Credited receivedItem (receivedItem.getHit (fun _ => {}) (.chunk (.cell 10 1))) 2 9 :=
  ⟨by decide +kernel,
    (get_hit_credited_iff _ _ _ _ _ (by decide +kernel)).mpr ⟨by decide +kernel, by decide +kernel⟩⟩

/-- A class has taken its first page, and an item is stored there. -/
def firstItem : World :=
  (Run.exec (step (halves true)) (blank (halves true) 96000000)
    [.alloc 2 false, .link (.cell 0 1)]).getD (blank (halves true) 0)

/-- The hit is counted for page 255. -/
theorem first_page_hit_miscounted : StoredIn firstItem (fun _ => {}) 2 0 (.chunk (.cell 0 1)) ∧
      ¬ Credited firstItem (firstItem.getHit (fun _ => {}) (.chunk (.cell 0 1))) 2 0 ∧
      ((firstItem.getHit (fun _ => {}) (.chunk (.cell 0 1))).pages 2).hits 0 = 0 ∧
      ((firstItem.getHit (fun _ => {}) (.chunk (.cell 0 1))).pages 2).hits 255 = 1 :=
  ⟨by decide +kernel, fun credited => absurd (credited 2 0) (by decide +kernel), by decide +kernel,
    by decide +kernel⟩

end MemExchange.Slabs
